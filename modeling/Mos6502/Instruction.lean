import Mos6502.Descriptor

namespace Mos6502

/-- The fields are those a decoder reports; a record put together by hand need not agree with its own
opcode. -/
structure Instruction where
  offset : Nat
  opcode : UInt8
  descriptor : Descriptor
  operand : UInt16
  length : Nat
deriving DecidableEq, Repr

namespace Instruction

def next (i : Instruction) : Nat :=
  i.offset + i.length

def bytes (i : Instruction) : List UInt8 :=
  [i.opcode, i.operand.toUInt8, (i.operand / 256).toUInt8].take i.length

/-- The encoding, when the length asks for no more than an opcode and its operand hold. -/
def bytes? (i : Instruction) : Option (List UInt8) :=
  if i.length ≤ 3 then some i.bytes else none

end Instruction

inductive DecodeError where
  | endOfStream (offset : Nat)
  | truncated (offset needed available : Nat)
deriving DecidableEq, Repr

def DecodeError.message : DecodeError → String
  | .endOfStream offset => s!"End of instruction stream at offset {offset}"
  | .truncated offset needed available =>
    s!"truncated instruction at offset {offset} (needs {needed} bytes, {available} left)"

def littleEndian (bytes : List UInt8) : UInt16 :=
  bytes.foldr (fun byte high => byte.toUInt16 + 256 * high) 0

namespace Instruction

/-- Decodes the instruction at the head of `bytes`, which start at `offset`. -/
def decodeHead (offset : Nat) : List UInt8 → Except DecodeError Instruction
  | [] => .error (.endOfStream offset)
  | opcode :: rest =>
    let descriptor := Descriptor.ofOpcode opcode
    let operand := rest.take descriptor.mode.operandSize
    if operand.length < descriptor.mode.operandSize then
      .error (.truncated offset descriptor.length (operand.length + 1))
    else
      .ok ⟨offset, opcode, descriptor, littleEndian operand, descriptor.length⟩

def decode (buffer : List UInt8) (offset : Nat) : Except DecodeError Instruction :=
  decodeHead offset (buffer.drop offset)

end Instruction

end Mos6502
