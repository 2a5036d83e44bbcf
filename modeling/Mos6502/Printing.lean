/-! What is printed: numerals, colours, and faults in words. -/
namespace Mos6502

namespace Numeral

/-- At least `width` digits, most significant first. A number that needs more keeps all of them. -/
def padded (base : Nat) : (width n : Nat) → List Char
  | 0, 0 => []
  | 0, n + 1 => Nat.toDigits base (n + 1)
  | width + 1, n => padded base width (n / base) ++ [Nat.digitChar (n % base)]

def binary (width n : Nat) : String :=
  String.ofList (padded 2 width n)

def hex (width n : Nat) : String :=
  String.ofList (padded 16 width n)

def upperHex (width n : Nat) : String :=
  String.ofList ((padded 16 width n).map Char.toUpper)

end Numeral

inductive Colour where
  | red
  | green
deriving DecidableEq, Repr

def Colour.paint (colour : Colour) (coloured : Bool) (text : String) : String :=
  let code := match colour with
    | .red => "31"
    | .green => "32"
  if coloured then "\x1b[" ++ code ++ "m" ++ text ++ "\x1b[0m" else text

structure Explanation where
  message : String
  cause : Option String := none
deriving DecidableEq, Repr

namespace Explanation

def chain (e : Explanation) : List String :=
  e.message :: e.cause.toList

def report (e : Explanation) : String :=
  match e.cause with
  | none => "Error: " ++ e.message ++ "\n"
  | some cause => "Error: " ++ e.message ++ "\n\nCaused by:\n    " ++ cause ++ "\n"

end Explanation

end Mos6502
