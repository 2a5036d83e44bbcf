import Mathlib.Data.List.TakeWhile
import Mos6502.CommandLine
import Mos6502.Proofs.Wording

/-! Reading command lines back. Each option settles its own part of the draft and looks at no other
part, so a draft is told by which options have been read and not by when; a filename that is still
pending makes no difference to the options behind it. -/
namespace Mos6502

theorem ok_bind {ε α β : Type} (a : α) (rest : α → Except ε β) :
    (Except.ok a >>= rest) = rest a :=
  rfl

namespace CommandLine

/- What flags and values settle, however they came. -/
def gather (filename : Option String) (flags : List Flag) (texts : Parameter → List String) :
    Draft where
  filename
  out := (texts .out).head?
  origin := (texts .origin).head?.bind fun text => (Address.parse text).toOption
  branches := (texts .branches).head?.bind (BranchStyle.ofName? false)
  splitOnly := flags.contains .splitOnly
  addresses := flags.contains .addresses
  bytes := flags.contains .bytes
  verbose := flags.contains .verbose

/- A value that passes its check. -/
def Accepts : Parameter → String → Prop
  | .out, text => text ≠ ""
  | .origin, text => ∃ origin, Address.parse text = .ok origin
  | .branches, text => ∃ style, BranchStyle.ofName? false text = some style

section Draft

variable {name : Option String} {flags : List Flag} {texts : Parameter → List String}

theorem raise_gather {flag : Flag} (fresh : flag ∉ flags) :
    (gather name flags texts).raise flag = .ok (gather name (flags ++ [flag]) texts) := by
  have clear : (gather name flags texts).hasFlag flag = false := by
    cases flag <;> simpa [gather, Draft.hasFlag] using fresh
  rw [Draft.raise, clear]
  cases flag <;> simp [gather, Draft.setFlag]

theorem assign_gather {parameter : Parameter} {text : String} (fresh : texts parameter = [])
    (accepted : Accepts parameter text) :
    (gather name flags texts).assign parameter text =
      .ok (gather name flags fun other =>
        texts other ++ (Token.valued parameter text).texts other) := by
  have clear : (gather name flags texts).hasParameter parameter = false := by
    cases parameter <;> simp [gather, Draft.hasParameter, fresh]
  unfold Draft.assign
  rw [clear]
  cases parameter with
  | out => simp [gather, Token.texts, fresh, show text ≠ "" from accepted]
  | origin =>
    obtain ⟨origin, parsed⟩ := accepted
    simp [gather, Token.texts, fresh, parsed, Except.toOption]
  | branches =>
    obtain ⟨style, named⟩ := accepted
    simp [gather, Token.texts, fresh, named]

end Draft

/- Options as a draft can take them: no flag twice, no parameter twice, no value that fails its
check. -/
structure Legible (flags : List Flag) (texts : Parameter → List String) : Prop where
  once : flags.Nodup
  single : ∀ parameter, (texts parameter).length ≤ 1
  accepted : ∀ parameter, ∀ text ∈ texts parameter, Accepts parameter text

theorem Legible.front {flags more : List Flag} {texts others : Parameter → List String}
    (legible : Legible (flags ++ more) fun parameter => texts parameter ++ others parameter) :
    Legible flags texts where
  once := legible.once.of_append_left
  single := by
    intro parameter
    have single := legible.single parameter
    rw [List.length_append] at single
    omega
  accepted := by
    intro parameter text member
    exact legible.accepted parameter text (List.mem_append_left _ member)

section Names

theorem ofName?_flag (flag : Flag) : Switch.ofName? flag.name = some (.flag flag) := by
  cases flag <;> rfl

theorem ofName?_parameter (parameter : Parameter) :
    Switch.ofName? parameter.name = some (.parameter parameter) := by
  cases parameter <;> rfl

theorem ofName?_style (style : BranchStyle) :
    BranchStyle.ofName? false style.name = some style := by
  cases style <;> rfl

theorem ofLetter?_letter (short : Short) :
    Switch.ofLetter? short.letter = some (.flag short.flag) := by
  cases short <;> rfl

theorem toList_flagName (flag : Flag) : flag.name.toList ≠ [] ∧ '=' ∉ flag.name.toList := by
  cases flag <;> decide

theorem equals_not_mem_parameterName (parameter : Parameter) : '=' ∉ parameter.name.toList := by
  cases parameter <;> decide

end Names

namespace State

theorem splitValue_of_not_mem {name : List Char} (free : '=' ∉ name) :
    splitValue name = (String.ofList name, none) := by
  have none_left : name.dropWhile (· != '=') = [] := by
    rw [List.dropWhile_eq_nil_iff]
    intro c member
    simpa using ne_of_mem_of_not_mem member free
  rw [splitValue, none_left]

theorem splitValue_append {name : List Char} (free : '=' ∉ name) (text : List Char) :
    splitValue (name ++ '=' :: text) = (String.ofList name, some (String.ofList text)) := by
  have other : ∀ c ∈ name, (c != '=') = true := by
    intro c member
    simpa using ne_of_mem_of_not_mem member free
  simp [splitValue, List.dropWhile_append_of_pos other, List.takeWhile_append_of_pos other]

section Words

variable {state : State} (options : state.onlyNames = false)

include options

theorem read_dashed {text : List Char} (nonempty : text ≠ []) :
    state.read (String.ofList ('-' :: '-' :: text)) =
      state.named (splitValue text).1 (splitValue text).2 := by
  obtain ⟨c, rest, rfl⟩ := List.exists_cons_of_ne_nil nonempty
  rw [read, options, String.toList_ofList]
  rfl

theorem read_named (flag : Flag) : state.read (Token.named flag).word = state.raise flag := by
  obtain ⟨nonempty, free⟩ := toList_flagName flag
  have word : (Token.named flag).word = String.ofList ('-' :: '-' :: flag.name.toList) := by
    apply String.toList_injective
    simp [Token.word]
  rw [word, read_dashed options nonempty, splitValue_of_not_mem free, String.ofList_toList]
  simp only [named, ofName?_flag]

theorem read_valued (parameter : Parameter) (text : String) :
    state.read (Token.valued parameter text).word = state.assign parameter text := by
  have word : (Token.valued parameter text).word =
      String.ofList ('-' :: '-' :: (parameter.name.toList ++ '=' :: text.toList)) := by
    apply String.toList_injective
    simp [Token.word]
  rw [word, read_dashed options (by simp),
    splitValue_append (equals_not_mem_parameterName parameter), String.ofList_toList,
    String.ofList_toList]
  simp only [named, ofName?_parameter]

theorem read_cluster (first : Short) (rest : List Short) :
    state.read (Token.cluster first rest).word =
      state.letters ((first :: rest).map Short.letter) := by
  rw [read, options, Token.word, String.toList_ofList]
  cases first <;> rfl

end Words

/- Every option first settles what is pending. -/
theorem read_of_settle {state settled : State} (options : state.onlyNames = false)
    (settles : state.settle = .ok settled) (again : settled.settle = .ok settled)
    (options' : settled.onlyNames = false) (token : Token) :
    state.read token.word = settled.read token.word := by
  have raise (flag : Flag) : state.raise flag = settled.raise flag := by
    simp only [State.raise, settles, again]
  cases token with
  | named flag => rw [read_named options, read_named options', raise]
  | cluster first rest =>
    rw [read_cluster options, read_cluster options', List.map_cons, letters, letters,
      ofLetter?_letter]
    simp only [raise]
  | valued parameter text =>
    rw [read_valued options, read_valued options']
    simp only [State.assign, settles, again]

section Settled

variable {name : Option String} {flags : List Flag} {texts : Parameter → List String}

theorem raise_settled {flag : Flag} (fresh : flag ∉ flags) :
    ({ draft := gather name flags texts } : State).raise flag =
      .ok { draft := gather name (flags ++ [flag]) texts } := by
  have raised : (gather name flags texts).raise flag = _ := raise_gather fresh
  simp only [State.raise, settle, bind, Except.bind, raised]
  rfl

theorem assign_settled {parameter : Parameter} {text : String} (fresh : texts parameter = [])
    (accepted : Accepts parameter text) :
    ({ draft := gather name flags texts } : State).assign parameter text =
      .ok { draft := gather name flags fun other =>
        texts other ++ (Token.valued parameter text).texts other } := by
  have assigned : (gather name flags texts).assign parameter text = _ :=
    assign_gather fresh accepted
  simp only [State.assign, settle, bind, Except.bind, assigned]
  rfl

theorem not_mem_of_once {flag : Flag} {more : List Flag} (once : (flags ++ flag :: more).Nodup) :
    flag ∉ flags := by
  intro member
  exact (List.nodup_cons.mp (List.nodup_middle.mp once)).1 (List.mem_append_left more member)

theorem letters_settled (shorts : List Short) (once : (flags ++ shorts.map Short.flag).Nodup) :
    ({ draft := gather name flags texts } : State).letters (shorts.map Short.letter) =
      .ok { draft := gather name (flags ++ shorts.map Short.flag) texts } := by
  induction shorts generalizing flags with
  | nil => simp [letters]
  | cons short shorts ih =>
    rw [List.map_cons] at once
    have raised : ({ draft := gather name flags texts } : State).raise short.flag = _ :=
      raise_settled (not_mem_of_once once)
    rw [List.append_cons] at once
    rw [List.map_cons, List.map_cons, List.append_cons, ← ih once, letters, ofLetter?_letter]
    simp only [raised]
    rfl

/-- One more option adds to a draft just what the option says. -/
theorem read_settled (token : Token)
    (legible : Legible (flags ++ token.flags) fun other => texts other ++ token.texts other) :
    ({ draft := gather name flags texts } : State).read token.word =
      .ok { draft := gather name (flags ++ token.flags) fun other =>
        texts other ++ token.texts other } := by
  cases token with
  | named flag =>
    rw [read_named rfl, raise_settled (not_mem_of_once legible.once)]
    simp [Token.texts, Token.flags]
  | cluster first rest =>
    rw [read_cluster rfl, letters_settled _ legible.once]
    simp [Token.texts, Token.flags]
  | valued parameter text =>
    have single := legible.single parameter
    have accepted := legible.accepted parameter text (by simp [Token.texts])
    have fresh : texts parameter = [] := by
      simpa [Token.texts] using single
    rw [read_valued rfl, assign_settled fresh accepted]
    simp [Token.flags]

/-- Options that can be read one by one leave a draft that does not tell their order. -/
theorem foldlM_settled (tokens : List Token)
    (legible : Legible (flags ++ flagsOf tokens) fun other =>
      texts other ++ textsOf tokens other) :
    (tokens.map Token.word).foldlM read ({ draft := gather name flags texts } : State) =
      .ok { draft := gather name (flags ++ flagsOf tokens) fun other =>
        texts other ++ textsOf tokens other } := by
  -- The options behind the first are read into a draft that has it, hence for all drafts at once.
  induction tokens generalizing flags texts with
  | nil => simp [flagsOf, textsOf, pure, Except.pure]
  | cons token tokens ih =>
    simp only [flagsOf_cons, textsOf_cons, ← List.append_assoc] at legible ⊢
    rw [List.map_cons, List.foldlM_cons, read_settled token legible.front, ← ih legible]
    rfl

end Settled

/- A filename that is still pending when options follow is settled by the first of them, and else
at the end. -/
theorem foldlM_of_settle {state : State} {draft : Draft} (options : state.onlyNames = false)
    (settles : state.settle = .ok { draft }) (tokens : List Token) :
    ((tokens.map Token.word).foldlM read state >>= settle) =
      ((tokens.map Token.word).foldlM read { draft } >>= settle) := by
  cases tokens with
  | nil => exact settles
  | cons token tokens =>
    rw [List.map_cons, List.foldlM_cons, List.foldlM_cons,
      read_of_settle options settles rfl rfl]

theorem positional_of_nameless {state : State} (idle : state.pending = none)
    (nameless : state.draft.filename = none) (filename : String) :
    state.positional filename = .ok { state with pending := some (.filename filename) } := by
  have missing : state.hasFilename = false := by simp [hasFilename, idle, nameless]
  simp only [positional, missing, settle, idle]
  rfl

theorem read_filename {state : State} {filename : String} (options : state.onlyNames = false)
    (idle : state.pending = none) (nameless : state.draft.filename = none)
    (no_option : filename.toList.head? ≠ some '-') :
    state.read filename = .ok { state with pending := some (.filename filename) } := by
  have plain : state.read filename = state.plain filename := by
    rw [read, options]
    split
    · contradiction
    · split <;> simp_all
  rw [plain, State.plain, idle]
  exact positional_of_nameless idle nameless filename

theorem settle_filename {flags : List Flag} {texts : Parameter → List String} {filename : String}
    (nonempty : filename ≠ "") (onlyNames : Bool) :
    ({ draft := gather none flags texts, pending := some (.filename filename), onlyNames } :
      State).settle = .ok { draft := gather (some filename) flags texts, onlyNames } := by
  simp only [settle, Draft.name, if_neg nonempty]
  rfl

/- Options behind the filename, read to the end of the line. -/
theorem settle_foldlM_filename {flags : List Flag} {texts : Parameter → List String}
    {filename : String} (nonempty : filename ≠ "") {tokens : List Token}
    (legible : Legible (flags ++ flagsOf tokens) fun other =>
      texts other ++ textsOf tokens other) :
    ((tokens.map Token.word).foldlM read
        { draft := gather none flags texts, pending := some (.filename filename) } >>= settle) =
      .ok { draft := gather (some filename) (flags ++ flagsOf tokens) fun other =>
        texts other ++ textsOf tokens other } := by
  rw [foldlM_of_settle rfl (settle_filename nonempty false), foldlM_settled tokens legible]
  rfl

theorem settle_foldlM_dashes {flags : List Flag} {texts : Parameter → List String}
    {filename : String} (nonempty : filename ≠ "") :
    (["--", filename].foldlM read { draft := gather none flags texts } >>= settle) =
      .ok { draft := gather (some filename) flags texts, onlyNames := true } := by
  have dashes : ({ draft := gather none flags texts } : State).read "--" =
      .ok { draft := gather none flags texts, onlyNames := true } := rfl
  have named : ({ draft := gather none flags texts, onlyNames := true } : State).positional
      filename = _ := positional_of_nameless rfl rfl filename
  have behind : ({ draft := gather none flags texts, onlyNames := true } : State).read filename =
      _ := named
  simp only [List.foldlM_cons, List.foldlM_nil, dashes, behind, ok_bind, pure_bind]
  exact settle_filename nonempty true

end State

theorem accepts_of_means {settings : Settings} (placed : settings.out ≠ "")
    {parameter : Parameter} {text : String} (means : settings.Means parameter text) :
    Accepts parameter text := by
  cases parameter with
  | out => exact ne_of_eq_of_ne means placed
  | origin => exact ⟨settings.origin, means⟩
  | branches =>
    obtain rfl : text = settings.branches.name := means
    exact ⟨settings.branches, ofName?_style settings.branches⟩

namespace Chooses

variable {settings : Settings} {tokens : List Token} (chosen : Chooses settings tokens)

include chosen

theorem legible (placed : settings.out ≠ "") : Legible (flagsOf tokens) (textsOf tokens) where
  once := chosen.once
  single := by
    intro parameter
    obtain ⟨text, given, -⟩ | ⟨left_out, -⟩ := chosen.values parameter
    · simp [given]
    · simp [left_out]
  accepted := by
    intro parameter text member
    obtain ⟨text', given, means⟩ | ⟨left_out, -⟩ := chosen.values parameter
    · obtain rfl : text = text' := by simpa [given] using member
      exact accepts_of_means placed means
    · simp [left_out] at member

theorem contains_flag (flag : Flag) : (flagsOf tokens).contains flag = settings.hasFlag flag := by
  rw [Bool.eq_iff_iff, List.contains_iff_mem]
  exact chosen.flags flag

/-- The draft of such options is finished to the settings they ask for. -/
theorem finish_gather :
    (gather (some settings.filename) (flagsOf tokens) (textsOf tokens)).finish = .ok settings := by
  have out : (textsOf tokens .out).head?.getD "." = settings.out := by
    obtain ⟨text, given, means⟩ | ⟨left_out, usual⟩ := chosen.values .out
    · rw [given]
      exact means
    · rw [left_out]
      exact usual.symm
  have origin : ((textsOf tokens .origin).head?.bind
      fun text => (Address.parse text).toOption).getD 0x8000 = settings.origin := by
    obtain ⟨text, given, means⟩ | ⟨left_out, usual⟩ := chosen.values .origin
    · have parsed : Address.parse text = .ok settings.origin := means
      simp [given, parsed, Except.toOption]
    · rw [left_out]
      exact usual.symm
  have branches : ((textsOf tokens .branches).head?.bind
      (BranchStyle.ofName? false)).getD .binary = settings.branches := by
    obtain ⟨text, given, means⟩ | ⟨left_out, usual⟩ := chosen.values .branches
    · obtain rfl : text = settings.branches.name := means
      simp [given, ofName?_style]
    · rw [left_out]
      exact usual.symm
  simp only [gather, Draft.finish, out, origin, branches, chosen.contains_flag]
  rfl

end Chooses

theorem foldlM_start {tokens : List Token}
    (legible : Legible (flagsOf tokens) (textsOf tokens)) :
    (tokens.map Token.word).foldlM State.read {} =
      .ok { draft := gather none (flagsOf tokens) (textsOf tokens) } := by
  have read : (tokens.map Token.word).foldlM State.read { draft := gather none [] fun _ => [] } =
      _ := State.foldlM_settled tokens legible
  exact read

theorem parse_eq (words : List String) :
    parse words =
      ((words.foldlM State.read {} >>= State.settle) >>= fun state => state.draft.finish) := by
  simp only [parse, bind_assoc]

section Parse

variable {settings : Settings} (named : settings.filename ≠ "") (placed : settings.out ≠ "")

include named placed

theorem parse_among {front back : List Token} (chosen : Chooses settings (front ++ back))
    (no_option : settings.filename.toList.head? ≠ some '-') :
    parse (front.map Token.word ++ settings.filename :: back.map Token.word) = .ok settings := by
  have legible := chosen.legible placed
  have finished := chosen.finish_gather
  simp only [flagsOf_append, textsOf_append] at legible finished
  have filename : ({ draft := gather none (flagsOf front) (textsOf front) } : State).read
      settings.filename = _ := State.read_filename rfl rfl rfl no_option
  have settled := State.settle_foldlM_filename named legible
  rw [← finished, parse_eq, List.foldlM_append, foldlM_start legible.front]
  simp only [ok_bind, List.foldlM_cons, filename, settled]

theorem parse_behind {tokens : List Token} (chosen : Chooses settings tokens) :
    parse (tokens.map Token.word ++ ["--", settings.filename]) = .ok settings := by
  have settled : (["--", settings.filename].foldlM State.read
      { draft := gather none (flagsOf tokens) (textsOf tokens) } >>= State.settle) = _ :=
    State.settle_foldlM_dashes named
  rw [← chosen.finish_gather, parse_eq, List.foldlM_append, foldlM_start (chosen.legible placed)]
  simp only [ok_bind, settled]

end Parse

end CommandLine

/-- Settings are read back from every command line that asks for them. The flags may come by name,
by letter or in clusters, the values in any of their spellings or, if they are the usual ones, not
at all, and all of this in any order; the filename may stand anywhere, and behind two dashes it may
be any. -/
theorem command_line_in_any_order (settings : Settings) (named : settings.filename ≠ "")
    (placed : settings.out ≠ "") :
    (∃ words, CommandLine.Asks settings words) ∧
    (∀ tokens others : List CommandLine.Token, CommandLine.Chooses settings tokens →
      tokens.Perm others → CommandLine.Chooses settings others) ∧
    (∀ words, CommandLine.Asks settings words → CommandLine.parse words = .ok settings) ∧
    ∀ words others, CommandLine.Asks settings words → CommandLine.Asks settings others →
      CommandLine.parse words = CommandLine.parse others := by
  have parsed (words : List String) (asked : CommandLine.Asks settings words) :
      CommandLine.parse words = .ok settings := by
    cases asked with
    | among chosen no_option => exact CommandLine.parse_among named placed chosen no_option
    | behind chosen => exact CommandLine.parse_behind named placed chosen
  refine ⟨⟨_, .behind (CommandLine.chooses_spelledOut settings)⟩, ?_, parsed, ?_⟩
  · intro tokens others chosen reordered
    exact chosen.perm reordered
  · intro words others asked asked'
    rw [parsed words asked, parsed others asked']

/- A cluster, a letter apart from it, a value that looks like an option and has an equality sign, a
marked address, and a filename that begins with a dash. -/
theorem command_line_in_any_order_mixed :
    CommandLine.parse ["-vb", "--origin=0x$c000", "--out=-a=b", "-a", "--", "-x.nes"] =
      .ok { filename := "-x.nes", out := "-a=b", addresses := true, bytes := true,
            origin := 0xC000, verbose := true } := by
  have chosen : CommandLine.Chooses
      { filename := "-x.nes", out := "-a=b", addresses := true, bytes := true,
        origin := 0xC000, verbose := true }
      [.cluster .verbose [.bytes], .valued .origin "0x$c000", .valued .out "-a=b",
        .cluster .addresses []] := by
    have address : Address.parse "0x$c000" = .ok 0xC000 := by decide +kernel
    refine ⟨by decide, ?_, ?_⟩
    · intro flag
      cases flag <;> decide
    · intro parameter
      cases parameter with
      | out => exact .inl ⟨_, rfl, rfl⟩
      | origin => exact .inl ⟨_, rfl, address⟩
      | branches => exact .inr ⟨rfl, rfl⟩
  exact (command_line_in_any_order _ (by decide) (by decide)).2.2.1 _ (.behind chosen)

end Mos6502
