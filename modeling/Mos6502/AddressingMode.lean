namespace Mos6502

inductive AddressingMode where
  | accumulator
  | absolute
  | absoluteX
  | absoluteY
  | immediate
  | implied
  | indirect
  | indirectX
  | indirectY
  | relative
  | zeroPage
  | zeroPageX
  | zeroPageY
deriving DecidableEq, Repr

namespace AddressingMode

def all : List AddressingMode :=
  [.accumulator, .absolute, .absoluteX, .absoluteY, .immediate, .implied, .indirect, .indirectX,
    .indirectY, .relative, .zeroPage, .zeroPageX, .zeroPageY]

def operandSize : AddressingMode → Nat
  | .accumulator | .implied => 0
  | .immediate | .indirectX | .indirectY | .relative | .zeroPage | .zeroPageX | .zeroPageY => 1
  | .absolute | .absoluteX | .absoluteY | .indirect => 2

/-- Bytes of a whole instruction, its opcode included. -/
def length (mode : AddressingMode) : Nat :=
  mode.operandSize + 1

theorem mem_all (mode : AddressingMode) : mode ∈ all := by
  cases mode <;> decide

theorem operandSize_le_two (mode : AddressingMode) : mode.operandSize ≤ 2 := by
  cases mode <;> decide

end AddressingMode

end Mos6502
