import Mos6502.Printing

/-! Addresses as a user writes them: hexadecimal, behind any number of `0x` and then of `$`. -/
namespace Mos6502

inductive NumberFault where
  | empty
  | invalidDigit
  | tooLarge
deriving DecidableEq, Repr

def NumberFault.message : NumberFault → String
  | .empty => "cannot parse integer from empty string"
  | .invalidDigit => "invalid digit found in string"
  | .tooLarge => "number too large to fit in target type"

structure AddressError where
  text : String
  fault : NumberFault
deriving DecidableEq, Repr

def AddressError.explanation (e : AddressError) : Explanation :=
  { message := "Invalid address '" ++ e.text ++ "'", cause := e.fault.message }

namespace Address

def dropMarks : List Char → List Char
  | '0' :: 'x' :: rest => dropMarks rest
  | text => text.dropWhile (· == '$')

def digit? (c : Char) : Option Nat :=
  if '0' ≤ c ∧ c ≤ '9' then some (c.toNat - '0'.toNat)
  else if 'a' ≤ c ∧ c ≤ 'f' then some (c.toNat - 'a'.toNat + 10)
  else if 'A' ≤ c ∧ c ≤ 'F' then some (c.toNat - 'A'.toNat + 10)
  else none

/-- Reads digits behind those that gave `value`. The first character that is no digit, or with
which the value leaves sixteen bits, decides. -/
def readDigits (value : Nat) : List Char → Except NumberFault Nat
  | [] => .ok value
  | c :: rest =>
    match digit? c with
    | none => .error .invalidDigit
    | some d =>
      if 16 * value + d ≤ 0xFFFF then readDigits (16 * value + d) rest
      else .error .tooLarge

def readNumber : List Char → Except NumberFault Nat
  | [] => .error .empty
  | ['+'] => .error .invalidDigit
  | '+' :: digits => readDigits 0 digits
  | digits => readDigits 0 digits

def parse (text : String) : Except AddressError UInt16 :=
  let bare := dropMarks text.toList
  match readNumber bare with
  | .ok value => .ok (UInt16.ofNat value)
  | .error fault => .error ⟨String.ofList bare, fault⟩

end Address

end Mos6502
