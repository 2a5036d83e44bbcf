import Mos6502.Proofs.Conversion

/-! What the options of a conversion have to do with each other: nothing. Colours and traces concern
the terminal alone, the columns of the listing concern the listing alone, and leaving the listing out
concerns neither of the regions. -/
namespace Mos6502

namespace Colour

/- What a terminal shows. From an escape to the next letter m stands a mark; `inside` tells that one
has begun. -/
def strip (inside : Bool) : List Char → List Char
  | [] => []
  | c :: rest =>
    if c = '\x1b' then strip true rest
    else if inside then strip (c != 'm') rest
    else c :: strip false rest

def plain (text : String) : String :=
  String.ofList (strip false text.toList)

theorem strip_append {text : List Char} (free : '\x1b' ∉ text) (rest : List Char) :
    strip false (text ++ rest) = text ++ strip false rest := by
  induction text with
  | nil => rfl
  | cons c text ih =>
    obtain ⟨other, free⟩ : '\x1b' ≠ c ∧ '\x1b' ∉ text := by simpa using free
    simp [strip, Ne.symm other, ih free]

/- Behind a letter m no mark is open, whatever stands in front of it. -/
theorem strip_closed (inside : Bool) (front rest : List Char) :
    strip inside (front ++ 'm' :: rest) = strip inside (front ++ ['m']) ++ strip false rest := by
  induction front generalizing inside with
  | nil => cases inside <;> simp [strip]
  | cons c front ih =>
    simp only [List.cons_append, strip, ih]
    split
    · rfl
    · split <;> rfl

theorem plain_append {text : String} (free : '\x1b' ∉ text.toList) (rest : String) :
    plain (text ++ rest) = text ++ plain rest := by
  rw [plain, String.toList_append, strip_append free, String.ofList_append, String.ofList_toList]
  rfl

theorem plain_closed (front rest : String) :
    plain (front ++ "m\n" ++ rest) = plain (front ++ "m\n") ++ plain rest := by
  have whole : (front ++ "m\n" ++ rest).toList = front.toList ++ 'm' :: '\n' :: rest.toList := by
    simp
  have closed : (front ++ "m\n").toList = front.toList ++ 'm' :: ['\n'] := by
    simp
  unfold plain
  rw [whole, closed, strip_closed, strip_closed _ _ ['\n'], ← String.ofList_append,
    List.append_assoc]
  rfl

theorem plain_paint {text : String} (free : '\x1b' ∉ text.toList) (colour : Colour)
    (coloured : Bool) (rest : String) :
    plain (colour.paint coloured text ++ rest) = text ++ plain rest := by
  cases coloured with
  | false => exact plain_append free rest
  | true =>
    have shown : strip false (colour.paint true text ++ rest).toList =
        text.toList ++ strip false rest.toList := by
      have closed := strip_append free (['\x1b', '[', '0', 'm'] ++ rest.toList)
      cases colour <;> simpa [paint, strip] using closed
    rw [plain, shown, String.ofList_append, String.ofList_toList]
    rfl

theorem plain_lines {texts : List String} (free : ∀ text ∈ texts, '\x1b' ∉ text.toList)
    (colour : Colour) (coloured : Bool) (rest : String) :
    plain (String.join (texts.map fun text => colour.paint coloured text ++ "\n") ++ rest) =
      String.join (texts.map (· ++ "\n")) ++ plain rest := by
  induction texts with
  | nil => simp
  | cons text texts ih =>
    obtain ⟨here, behind⟩ := List.forall_mem_cons.mp free
    simp only [List.map_cons, String.join_cons, String.append_assoc]
    rw [plain_paint here, plain_append (by decide), ih behind]

end Colour

theorem printable_toDigits (n : Nat) : Printable (Nat.toDigits 10 n) := by
  intro c member
  have digit := Nat.isDigit_of_mem_toDigits (by decide) (by decide) member
  have bounds : 48 ≤ c.val ∧ c.val ≤ 57 := by simpa [Char.isDigit] using digit
  exact UInt32.le_trans (by decide) bounds.1

theorem Cartridge.printable_summary (c : Cartridge) : Printable c.summary.toList := by
  have mirroring : Printable (toString c.header.mirroring.text).toList := by
    cases c.header.mirroring <;> decide
  have choice (b : Bool) : Printable (toString b).toList := by
    cases b <;> decide
  have mark : Printable (if c.header.isNes2 = true then " (NES 2.0)" else "").toList := by
    split <;> decide
  unfold summary
  simp only [String.toList_append, printable_append, Nat.toString_eq_repr, Nat.toList_repr,
    printable_toDigits, mirroring, choice, mark, and_true]
  decide

namespace Layout

theorem traceLine_of_hidden {layout : Layout} (hidden : layout.addresses = false) (i : Instruction) :
    layout.traceLine i = layout.addressField i ++ layout.line i := by
  simp only [traceLine, line, hidden, if_true, Bool.false_eq_true, if_false, String.empty_append,
    String.append_assoc]
  rfl

theorem traceLine_of_shown {layout : Layout} (shown : layout.addresses = true) (i : Instruction) :
    layout.traceLine i = layout.line i := by
  rw [traceLine, ← shown]

end Layout

namespace Converter

variable {settings : Settings} {coloured : Bool} {rom : List UInt8} {c : Cartridge}

theorem plain_opening (c : Cartridge) (rest : String) :
    Colour.plain (opening c ++ rest) = opening c ++ Colour.plain rest := by
  apply Colour.plain_append
  have free : '\x1b' ∉ c.summary.toList := c.printable_summary.not_mem (by decide)
  simp [opening, free]

theorem plain_closing (coloured : Bool) : Colour.plain (closing coloured) = closing false :=
  Colour.plain_paint (by decide) .green coloured "\n"

/- A trace looks the same in colours. -/
theorem plain_traceLines (settings : Settings) (coloured : Bool) (program : List UInt8)
    (rest : String) :
    Colour.plain (String.join
        (traceLines settings coloured (Walk.start program).instructions) ++ rest) =
      String.join (traceLines settings false (Walk.start program).instructions) ++
        Colour.plain rest := by
  have free : ∀ text ∈ (Walk.start program).instructions.map settings.layout.traceLine,
      '\x1b' ∉ text.toList := by
    intro text member
    obtain ⟨i, walked, rfl⟩ := List.mem_map.mp member
    obtain ⟨c, start, rfl⟩ := Walk.exists_place walked
    exact (Layout.printable_line _ c start).not_mem (by decide)
  unfold traceLines
  split
  · have shown := Colour.plain_lines free .green coloured rest
    rw [List.map_map, List.map_map] at shown
    exact shown
  · exact Colour.plain_append (by decide) rest

theorem exists_countLine (settings : Settings) (count : Nat) :
    ∃ front, countLine settings count = front ++ "m\n" := by
  have name : "code.asm" = "code.as" ++ "m" := rfl
  have mark : "m\n" = "m" ++ "\n" := rfl
  obtain ⟨base, ends⟩ : ∃ base, listingPath settings = base ++ "m" := by
    unfold listingPath Path.join
    rw [name]
    split
    · exact ⟨assemblyDirectory settings ++ "code.as", String.append_assoc.symm⟩
    · exact ⟨assemblyDirectory settings ++ "/" ++ "code.as", String.append_assoc.symm⟩
  have line : countLine settings count =
      toString count ++ " instructions written to " ++ listingPath settings ++ "\n" := rfl
  refine ⟨toString count ++ " instructions written to " ++ base, ?_⟩
  simp only [line, ends, mark, String.append_assoc]

/- The path in the line about the count may be anything, but it ends in a letter m. -/
theorem plain_conclusion (settings : Settings) (coloured : Bool) (program : List UInt8) :
    Colour.plain (conclusion settings coloured program) =
      Colour.plain (conclusion settings false program) := by
  unfold conclusion
  split
  · obtain ⟨front, ends⟩ := exists_countLine settings (Walk.start program).instructions.length
    rw [ends, Colour.plain_closed, Colour.plain_closed, plain_closing, plain_closing]
  · rfl

variable {tree : FileTree}

/- Runs that only split leave one tree, as long as they split the same image to the same place. -/
theorem runs_of_split (readable : tree.read settings.filename = .ok rom)
    (succeeds : Effect.unhindered tree (effects settings coloured rom) = true)
    (loaded : Cartridge.load rom = .ok c) (split : settings.splitOnly = true) :
    ∃ tree', ∀ (other : Settings) (painted : Bool), other.filename = settings.filename →
      other.out = settings.out → other.splitOnly = true →
        run other painted tree = .ending none (opening c ++ closing painted) tree' := by
  rw [effects_of_split loaded split] at succeeds
  obtain ⟨tree', performed⟩ := Effect.perform_front rfl succeeds
  refine ⟨tree', ?_⟩
  intro other painted filename out split'
  have front : splitting other c = splitting settings c := by
    simp only [splitting, splitEffects, programPath, graphicsPath, binaryDirectory, out]
  have printed : (Effect.account (splitting settings c)).printed = opening c := String.append_empty
  rw [run, filename, readable]
  simp only [effects_of_split loaded split', front, performed, printed, String.empty_append]
  rfl

/- Runs that list the program too leave trees that differ in the listing alone. -/
theorem runs_of_listing (readable : tree.read settings.filename = .ok rom)
    (succeeds : Effect.unhindered tree (effects settings coloured rom) = true)
    (loaded : Cartridge.load rom = .ok c) (listed : settings.splitOnly = false) :
    ∃ (middle : FileTree) (location : Location),
      middle.resolve (listingPath settings) = .ok location ∧
      middle.lookup location ≠ some .directory ∧
      ∀ (other : Settings) (painted : Bool), other.filename = settings.filename →
        other.out = settings.out → other.splitOnly = false →
          run other painted tree =
            .ending ((Walk.start c.program).fault?.map fun fault => { message := fault.message })
              (opening c ++ String.join
                  (traceLines other painted (Walk.start c.program).instructions) ++
                conclusion other painted c.program)
              (middle.insert location (.file (contents other c.program))) := by
  rw [effects_of_listing loaded listed] at succeeds
  obtain ⟨middle, performed⟩ := Effect.perform_front rfl succeeds
  rw [(performed _ "").2] at succeeds
  obtain ⟨location, resolved, absent, -, -⟩ := Effect.unhindered_writeFile succeeds
  refine ⟨middle, location, resolved, absent, ?_⟩
  intro other painted filename out listed'
  have front : splitting other c ++ [.createDirectories (assemblyDirectory other)] =
      splitting settings c ++ [.createDirectories (assemblyDirectory settings)] := by
    simp only [splitting, splitEffects, programPath, graphicsPath, binaryDirectory,
      assemblyDirectory, out]
  have path : listingPath other = listingPath settings := by
    rw [listingPath, assemblyDirectory, out]
    rfl
  have written := FileTree.write_of_resolve resolved absent (contents other c.program)
  have printed : (Effect.account (splitting settings c ++
      [.createDirectories (assemblyDirectory settings)])).printed = opening c := String.append_empty
  rw [run, filename, readable]
  simp only [effects_of_listing loaded listed', front, performed, path, Outcome.perform, written,
    printed, String.empty_append, perform_reporting, String.append_assoc]

/- The instructions whose lines a run writes. -/
def listed (settings : Settings) (rom : List UInt8) : List Instruction :=
  match Cartridge.load rom with
  | .error _ => []
  | .ok c => if settings.splitOnly then [] else (Walk.start c.program).instructions

/- Verbosity and colours concern the output alone, and there the trace alone. -/
theorem run_verbose (readable : tree.read settings.filename = .ok rom)
    (succeeds : Effect.unhindered tree (effects settings coloured rom) = true)
    (verbose painted : Bool) :
    let one := run settings coloured tree
    let other := run { settings with verbose } painted tree
    other.tree = one.tree ∧ other.exitCode = one.exitCode ∧ other.stderr = one.stderr ∧
      ∃ before after : String,
        Colour.plain one.stdout = before ++
          String.join (traceLines settings false (listed settings rom)) ++ after ∧
        Colour.plain other.stdout = before ++
          String.join (traceLines { settings with verbose } false (listed settings rom)) ++
            after := by
  intro one other
  have untraced (settings : Settings) : String.join (traceLines settings false []) = "" := by
    simp [traceLines]
  cases loaded : Cartridge.load rom with
  | error e =>
    have first : one = .failure e.explanation "" tree := run_of_error readable loaded
    have second : other = .failure e.explanation "" tree := run_of_error readable loaded
    have none : listed settings rom = [] := by rw [listed, loaded]
    rw [first, second, none, untraced, untraced]
    exact ⟨rfl, rfl, rfl, "", "", rfl, rfl⟩
  | ok c =>
    cases split : settings.splitOnly with
    | true =>
      obtain ⟨tree', runs⟩ := runs_of_split readable succeeds loaded split
      have first : one = _ := runs settings coloured rfl rfl split
      have second : other = _ := runs { settings with verbose } painted rfl rfl split
      have none : listed settings rom = [] := by simp [listed, loaded, split]
      rw [first, second, none, untraced, untraced]
      simp only [Outcome.exitCode_ending, Outcome.stderr_ending, Outcome.stdout_ending,
        Outcome.tree_ending, plain_opening, plain_closing]
      exact ⟨trivial, trivial, trivial, opening c, closing false, by simp, by simp⟩
    | false =>
      obtain ⟨middle, location, -, -, runs⟩ := runs_of_listing readable succeeds loaded split
      have first : one = _ := runs settings coloured rfl rfl split
      have second : other = _ := runs { settings with verbose } painted rfl rfl split
      have all : listed settings rom = (Walk.start c.program).instructions := by
        simp [listed, loaded, split]
      have shown (settings : Settings) (coloured : Bool) :
          Colour.plain (opening c ++ String.join
              (traceLines settings coloured (Walk.start c.program).instructions) ++
            conclusion settings coloured c.program) =
          opening c ++ String.join
              (traceLines settings false (Walk.start c.program).instructions) ++
            Colour.plain (conclusion settings false c.program) := by
        rw [String.append_assoc, plain_opening, plain_traceLines, plain_conclusion,
          String.append_assoc]
      rw [first, second, all]
      simp only [Outcome.exitCode_ending, Outcome.stderr_ending, Outcome.stdout_ending,
        Outcome.tree_ending, shown]
      exact ⟨rfl, trivial, trivial, opening c, Colour.plain (conclusion settings false c.program),
        rfl, rfl⟩

/- The columns of the listing concern the listing alone, and a trace of it. -/
theorem run_columns (readable : tree.read settings.filename = .ok rom)
    (succeeds : Effect.unhindered tree (effects settings coloured rom) = true)
    (addresses bytes : Bool) (origin : UInt16) (branches : BranchStyle) :
    let settings' := { settings with addresses, bytes, origin, branches }
    let one := run settings coloured tree
    let other := run settings' coloured tree
    other.exitCode = one.exitCode ∧ other.stderr = one.stderr ∧
      (settings.verbose = false → other.stdout = one.stdout) ∧
      ((settings.splitOnly = true ∨ ∃ e, Cartridge.load rom = .error e) → other.tree = one.tree) ∧
      ∀ c, Cartridge.load rom = .ok c → settings.splitOnly = false →
        let run := (Walk.start c.program).instructions
        one.tree.read (listingPath settings) = .ok (utf8 (settings.layout.text run)) ∧
        other.tree.read (listingPath settings) = .ok (utf8 (settings'.layout.text run)) ∧
        lines (settings.layout.text run) = run.map settings.layout.line ∧
        lines (settings'.layout.text run) = run.map settings'.layout.line ∧
        ∃ location, one.tree.resolve (listingPath settings) = .ok location ∧
          ∀ place, place ≠ location → other.tree.lookup place = one.tree.lookup place := by
  intro settings' one other
  cases loaded : Cartridge.load rom with
  | error e =>
    have first : one = .failure e.explanation "" tree := run_of_error readable loaded
    have second : other = .failure e.explanation "" tree := run_of_error readable loaded
    simp [first, second]
  | ok c =>
    cases split : settings.splitOnly with
    | true =>
      obtain ⟨tree', runs⟩ := runs_of_split readable succeeds loaded split
      have first : one = _ := runs settings coloured rfl rfl split
      have second : other = _ := runs settings' coloured rfl rfl split
      simp [first, second]
    | false =>
      obtain ⟨middle, location, resolved, absent, runs⟩ :=
        runs_of_listing readable succeeds loaded split
      have first : one = _ := runs settings coloured rfl rfl split
      have second : other = _ := runs settings' coloured rfl rfl split
      have still (contents : List UInt8) :
          (middle.insert location (.file contents)).resolve (listingPath settings) =
            .ok location :=
        (FileTree.keeps_insert _ absent).resolve resolved
      have held (contents : List UInt8) :
          (middle.insert location (.file contents)).read (listingPath settings) = .ok contents :=
        FileTree.read_of_lookup (still contents)
          (FileTree.lookup_insert_self _ _ (FileTree.inner_ne_nil _ absent))
      rw [first, second]
      simp only [Outcome.exitCode_ending, Outcome.stderr_ending, Outcome.stdout_ending,
        Outcome.tree_ending]
      refine ⟨trivial, trivial, ?_, ?_, ?_⟩
      · intro quiet
        have untraced (settings : Settings) (quiet : settings.verbose = false)
            (run : List Instruction) : traceLines settings coloured run = [] := by
          simp [traceLines, quiet]
        rw [untraced settings quiet, untraced settings' quiet]
        rfl
      · rintro (split' | ⟨e, refused⟩)
        · cases split'
        · cases refused
      · intro c' same _
        obtain rfl := Except.ok.inj same
        refine ⟨held _, held _, settings.layout.lines_listing _, settings'.layout.lines_listing _,
          location, still _, ?_⟩
        intro place elsewhere
        rw [FileTree.lookup_insert_of_ne _ _ elsewhere, FileTree.lookup_insert_of_ne _ _ elsewhere]

/- Whether the program is listed concerns neither of the regions. -/
theorem read_regions (readable : tree.read settings.filename = .ok rom)
    (succeeds : Effect.unhindered tree (effects settings coloured rom) = true)
    (loaded : Cartridge.load rom = .ok c) :
    (run settings coloured tree).tree.read (programPath settings) = .ok c.program ∧
      (run settings coloured tree).tree.read (graphicsPath settings) = .ok c.graphics := by
  cases split : settings.splitOnly with
  | true =>
    obtain ⟨tree', ended, installs⟩ := run_of_split readable succeeds loaded split
    rw [ended, Outcome.tree_ending]
    exact ⟨installs.holds (programPath settings, c.program) (by simp),
      installs.holds (graphicsPath settings, c.graphics) (by simp)⟩
  | false =>
    obtain ⟨tree', ended, installs⟩ := run_of_listing readable succeeds loaded split
    rw [ended, Outcome.tree_ending]
    exact ⟨installs.holds (programPath settings, c.program) (by simp),
      installs.holds (graphicsPath settings, c.graphics) (by simp)⟩

end Converter

/-- Two runs on one image, with their files in one place, of which no file operation is refused.
If they differ in verbosity and colours, they leave the same files, end the same way, and print the
same but for colours and the lines of the trace. If they differ in the columns of the listing, they
leave the same files but for the listing, which has a line for each of the same instructions, and end
the same way. If one lists the program and the other does not, they write the same regions. -/
theorem options_do_not_interfere (settings : Settings) (coloured : Bool) (tree : FileTree)
    (rom : List UInt8) (readable : tree.read settings.filename = .ok rom)
    (succeeds : Effect.unhindered tree (Converter.effects settings coloured rom) = true) :
    let one := Converter.run settings coloured tree
    (∀ verbose painted : Bool,
      let other := Converter.run { settings with verbose } painted tree
      other.tree = one.tree ∧ other.exitCode = one.exitCode ∧ other.stderr = one.stderr ∧
        ∃ before after : String,
          Colour.plain one.stdout = before ++ String.join
            (Converter.traceLines settings false (Converter.listed settings rom)) ++ after ∧
          Colour.plain other.stdout = before ++ String.join
            (Converter.traceLines { settings with verbose } false
              (Converter.listed settings rom)) ++ after) ∧
    (∀ (addresses bytes : Bool) (origin : UInt16) (branches : BranchStyle),
      let settings' := { settings with addresses, bytes, origin, branches }
      let other := Converter.run settings' coloured tree
      other.exitCode = one.exitCode ∧ other.stderr = one.stderr ∧
        (settings.verbose = false → other.stdout = one.stdout) ∧
        ((settings.splitOnly = true ∨ ∃ e, Cartridge.load rom = .error e) →
          other.tree = one.tree) ∧
        ∀ c, Cartridge.load rom = .ok c → settings.splitOnly = false →
          let path := Converter.listingPath settings
          let run := (Walk.start c.program).instructions
          one.tree.read path = .ok (utf8 (settings.layout.text run)) ∧
          other.tree.read path = .ok (utf8 (settings'.layout.text run)) ∧
          lines (settings.layout.text run) = run.map settings.layout.line ∧
          lines (settings'.layout.text run) = run.map settings'.layout.line ∧
          ∃ location, one.tree.resolve path = .ok location ∧
            ∀ place, place ≠ location → other.tree.lookup place = one.tree.lookup place) ∧
    (∀ splitOnly : Bool,
      Effect.unhindered tree
          (Converter.effects { settings with splitOnly } coloured rom) = true →
        let other := Converter.run { settings with splitOnly } coloured tree
        other.tree.read (Converter.programPath settings) =
            one.tree.read (Converter.programPath settings) ∧
          other.tree.read (Converter.graphicsPath settings) =
            one.tree.read (Converter.graphicsPath settings)) ∧
    (settings.splitOnly = true → ∀ c, Cartridge.load rom = .ok c → one.exitCode = 0) ∧
    ∀ i : Instruction,
      (settings.addresses = false →
        settings.layout.traceLine i = settings.layout.addressField i ++ settings.layout.line i) ∧
      (settings.addresses = true → settings.layout.traceLine i = settings.layout.line i) := by
  intro one
  refine ⟨Converter.run_verbose readable succeeds, Converter.run_columns readable succeeds,
    ?_, ?_, ?_⟩
  · intro splitOnly succeeds' other
    have readable' : tree.read { settings with splitOnly }.filename = .ok rom := readable
    cases loaded : Cartridge.load rom with
    | error e =>
      have first : one = .failure e.explanation "" tree := Converter.run_of_error readable loaded
      have second : other = .failure e.explanation "" tree := Converter.run_of_error readable' loaded
      rw [first, second]
      exact ⟨rfl, rfl⟩
    | ok c =>
      obtain ⟨program, graphics⟩ := Converter.read_regions readable succeeds loaded
      obtain ⟨program', graphics'⟩ := Converter.read_regions readable' succeeds' loaded
      exact ⟨program'.trans program.symm, graphics'.trans graphics.symm⟩
  · intro split c loaded
    obtain ⟨tree', ended, -⟩ := Converter.run_of_split readable succeeds loaded split
    simp [one, ended]
  · intro i
    exact ⟨fun hidden => Layout.traceLine_of_hidden hidden i,
      fun shown => Layout.traceLine_of_shown shown i⟩

/- A program that is cut off, converted in three more ways. -/
theorem options_do_not_interfere_idle :
    let rom := (Cartridge.idle 16382 (some ⟨0x20, [0x00], by decide⟩)).image
    let tree := FileTree.holding "a.nes" rom
    let settings : Settings := { filename := "a.nes" }
    let one := Converter.run settings false tree
    (Converter.run { settings with verbose := true } true tree).tree = one.tree ∧
      (Converter.run { settings with addresses := true, origin := 0xC000 } false tree).stderr =
        one.stderr ∧
      (Converter.run { settings with splitOnly := true } false tree).tree.read
          (Converter.programPath settings) =
        one.tree.read (Converter.programPath settings) := by
  obtain ⟨count, size⟩ : ∃ count, count = 16382 := ⟨_, rfl⟩
  rw [← size]
  intro rom tree settings one
  have succeeds (settings : Settings) (here : settings.out = ".") :=
    Converter.unhindered_alone settings false rom here
  obtain ⟨verbose, columns, split, -, -⟩ := options_do_not_interfere settings false tree rom
    (FileTree.read_holding rom) (succeeds settings rfl)
  refine ⟨(verbose true true).1, (columns true false 0xC000 .binary).2.1, ?_⟩
  exact (split true (succeeds { settings with splitOnly := true } rfl)).1

end Mos6502
