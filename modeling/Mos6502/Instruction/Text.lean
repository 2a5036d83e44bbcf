import Mos6502.Instruction
import Mos6502.Printing

/-! Assembly text. A relative branch shows its displacement in binary or, resolved against the
address of the buffer's first byte, where it leads. Addresses wrap. -/
namespace Mos6502.Instruction

def displacement (i : Instruction) : Int :=
  Int.bmod i.operand.toNat 256

def address (i : Instruction) (origin : UInt16) : UInt16 :=
  UInt16.ofNat (origin.toNat + i.offset)

def destination (i : Instruction) (origin : UInt16) : UInt16 :=
  UInt16.ofInt (origin.toNat + i.next + i.displacement)

def branchTarget? (i : Instruction) (origin : UInt16) : Option UInt16 :=
  if i.descriptor.mode = .relative then some (i.destination origin) else none

def operandText (i : Instruction) (branch : String) : String :=
  let word := "$" ++ Numeral.hex 4 i.operand.toNat
  match i.descriptor.mode with
  | .accumulator => " a"
  | .implied => ""
  | .immediate => " #" ++ word
  | .absolute | .zeroPage => " " ++ word
  | .absoluteX | .zeroPageX => " " ++ word ++ ",x"
  | .absoluteY | .zeroPageY => " " ++ word ++ ",y"
  | .indirect => "(" ++ word ++ ")"
  | .indirectX => " (" ++ word ++ ",x)"
  | .indirectY => " (" ++ word ++ "),y"
  | .relative => " $" ++ branch

def text (i : Instruction) : String :=
  i.descriptor.mnemonic.text ++ i.operandText (Numeral.binary 8 i.operand.toNat)

def resolvedText (i : Instruction) (origin : UInt16) : String :=
  i.descriptor.mnemonic.text ++ i.operandText (Numeral.hex 4 (i.destination origin).toNat)

end Mos6502.Instruction
