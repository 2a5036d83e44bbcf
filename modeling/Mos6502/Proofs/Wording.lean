import Mathlib.Data.List.Perm.Basic
import Mos6502.CommandLine.Switch
import Mos6502.Layout
import Mos6502.Proofs.Address

/-! Command lines from the writer's side: the words that ask for given settings. There is no fixed
order, several spellings, and what is usual may be left out. -/
namespace Mos6502

namespace Settings

def hasFlag (settings : Settings) : CommandLine.Flag → Bool
  | .splitOnly => settings.splitOnly
  | .addresses => settings.addresses
  | .bytes => settings.bytes
  | .verbose => settings.verbose

/- The texts that stand for the value a parameter has. -/
def Means (settings : Settings) : CommandLine.Parameter → String → Prop
  | .out, text => text = settings.out
  | .origin, text => Address.parse text = .ok settings.origin
  | .branches, text => text = settings.branches.name

/- The parameter has the value it has when nothing is said about it. -/
def IsUsual (settings : Settings) : CommandLine.Parameter → Prop
  | .out => settings.out = "."
  | .origin => settings.origin = 0x8000
  | .branches => settings.branches = .binary

end Settings

namespace CommandLine

/- The flags that have a letter. -/
inductive Short where
  | addresses
  | bytes
  | verbose

def Short.flag : Short → Flag
  | .addresses => .addresses
  | .bytes => .bytes
  | .verbose => .verbose

def Short.letter : Short → Char
  | .addresses => 'a'
  | .bytes => 'b'
  | .verbose => 'v'

/- An option that is complete in one word. -/
inductive Token where
  | named (flag : Flag)
  | cluster (first : Short) (rest : List Short)
  | valued (parameter : Parameter) (text : String)

namespace Token

def word : Token → String
  | .named flag => "--" ++ flag.name
  | .cluster first rest => String.ofList ('-' :: (first :: rest).map Short.letter)
  | .valued parameter text => "--" ++ parameter.name ++ "=" ++ text

def flags : Token → List Flag
  | .named flag => [flag]
  | .cluster first rest => (first :: rest).map Short.flag
  | .valued _ _ => []

def texts : Token → Parameter → List String
  | .valued parameter text, other => if parameter = other then [text] else []
  | _, _ => []

end Token

def flagsOf (tokens : List Token) : List Flag :=
  tokens.flatMap Token.flags

def textsOf (tokens : List Token) (parameter : Parameter) : List String :=
  tokens.flatMap fun token => token.texts parameter

theorem flagsOf_cons (token : Token) (tokens : List Token) :
    flagsOf (token :: tokens) = token.flags ++ flagsOf tokens :=
  rfl

theorem textsOf_cons (token : Token) (tokens : List Token) (parameter : Parameter) :
    textsOf (token :: tokens) parameter = token.texts parameter ++ textsOf tokens parameter :=
  rfl

theorem flagsOf_append (front back : List Token) :
    flagsOf (front ++ back) = flagsOf front ++ flagsOf back :=
  List.flatMap_append

theorem textsOf_append (front back : List Token) :
    textsOf (front ++ back) = fun parameter => textsOf front parameter ++ textsOf back parameter :=
  funext fun _ => List.flatMap_append

/- Options that set just the flags of the settings, each of them once, and give each parameter its
value, once or, where that is the usual value, not at all. -/
structure Chooses (settings : Settings) (tokens : List Token) : Prop where
  once : (flagsOf tokens).Nodup
  flags : ∀ flag, flag ∈ flagsOf tokens ↔ settings.hasFlag flag = true
  values : ∀ parameter,
    (∃ text, textsOf tokens parameter = [text] ∧ settings.Means parameter text) ∨
      textsOf tokens parameter = [] ∧ settings.IsUsual parameter

/- Whether options choose settings does not depend on their order. -/
theorem Chooses.perm {settings : Settings} {tokens others : List Token}
    (chosen : Chooses settings tokens) (reordered : tokens.Perm others) :
    Chooses settings others where
  once := (reordered.flatMap_right Token.flags).nodup_iff.mp chosen.once
  flags := by
    intro flag
    rw [← chosen.flags]
    exact (reordered.flatMap_right Token.flags).mem_iff.symm
  values := by
    intro parameter
    have same : (textsOf tokens parameter).Perm (textsOf others parameter) :=
      reordered.flatMap_right fun token : Token => token.texts parameter
    obtain ⟨text, given, means⟩ | ⟨left_out, usual⟩ := chosen.values parameter
    · rw [given, List.singleton_perm] at same
      exact .inl ⟨text, same.symm, means⟩
    · rw [left_out, List.nil_perm] at same
      exact .inr ⟨same, usual⟩

/- The command lines that ask for settings: such options in any order, with the filename somewhere
between them, unless it could be taken for an option, or behind all of them and two dashes. -/
inductive Asks (settings : Settings) : List String → Prop
  | among {front back : List Token} : Chooses settings (front ++ back) →
      settings.filename.toList.head? ≠ some '-' →
      Asks settings (front.map Token.word ++ settings.filename :: back.map Token.word)
  | behind {tokens : List Token} : Chooses settings tokens →
      Asks settings (tokens.map Token.word ++ ["--", settings.filename])

/- Each set flag by its name and each parameter with its value. -/
def spelledOut (settings : Settings) : List Token :=
  ([.splitOnly, .addresses, .bytes, .verbose].filter settings.hasFlag).map .named ++
    [.valued .out settings.out, .valued .origin (Numeral.hex 4 settings.origin.toNat),
      .valued .branches settings.branches.name]

theorem flagsOf_spelledOut (settings : Settings) :
    flagsOf (spelledOut settings) =
      [.splitOnly, .addresses, .bytes, .verbose].filter settings.hasFlag := by
  have named (flags : List Flag) : flagsOf (flags.map .named) = flags := by
    simp [flagsOf, List.flatMap_map, Token.flags]
  rw [spelledOut, flagsOf_append, named]
  exact List.append_nil _

theorem textsOf_spelledOut (settings : Settings) (parameter : Parameter) :
    textsOf (spelledOut settings) parameter =
      match parameter with
      | .out => [settings.out]
      | .origin => [Numeral.hex 4 settings.origin.toNat]
      | .branches => [settings.branches.name] := by
  have named (flags : List Flag) : textsOf (flags.map .named) parameter = [] := by
    simp [textsOf, List.flatMap_map, Token.texts]
  simp only [spelledOut, textsOf_append, named]
  cases parameter <;> rfl

theorem parse_hex_origin (origin : UInt16) :
    Address.parse (Numeral.hex 4 origin.toNat) = .ok origin := by
  have read := Address.parse_padded id Numeral.digit?_digitChar origin 0 0 3
  rw [List.map_id] at read
  exact read

theorem chooses_spelledOut (settings : Settings) : Chooses settings (spelledOut settings) where
  once := by
    rw [flagsOf_spelledOut]
    exact List.Nodup.filter _ (by decide)
  flags := by
    intro flag
    rw [flagsOf_spelledOut, List.mem_filter, and_iff_right]
    cases flag <;> decide
  values := by
    intro parameter
    rw [textsOf_spelledOut]
    cases parameter with
    | out => exact .inl ⟨_, rfl, rfl⟩
    | origin => exact .inl ⟨_, rfl, parse_hex_origin settings.origin⟩
    | branches => exact .inl ⟨_, rfl, rfl⟩

end CommandLine

end Mos6502
