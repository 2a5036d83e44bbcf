import Mathlib.Algebra.BigOperators.Ring.Finset
import Mos6502.Proofs.Program

/-! Decoding at any offset of any buffer. The opcode found there says how many bytes belong to the
instruction; if the buffer has them, they and nothing else decide what is decoded. -/
namespace Mos6502

theorem toNat_littleEndian (bytes : List UInt8) (short : bytes.length ≤ 2) :
    (littleEndian bytes).toNat =
      ∑ k ∈ Finset.range bytes.length, (bytes.getD k 0).toNat * 256 ^ k := by
  induction bytes with
  | nil => rfl
  | cons low bytes ih =>
    have higher : ∑ k ∈ Finset.range bytes.length,
        ((low :: bytes).getD (k + 1) 0).toNat * 256 ^ (k + 1) =
          256 * ∑ k ∈ Finset.range bytes.length, (bytes.getD k 0).toNat * 256 ^ k := by
      rw [Finset.mul_sum]
      apply Finset.sum_congr rfl
      intro k _
      rw [List.getD_cons_succ, Nat.pow_succ, Nat.mul_comm 256, Nat.mul_assoc]
    rw [toNat_littleEndian_cons low (Nat.le_of_succ_le_succ short), ih (Nat.le_of_succ_le short),
      List.length_cons, Finset.sum_range_succ', higher, Nat.add_comm]
    simp

namespace Instruction

theorem decode_of_le {buffer : List UInt8} {offset : Nat} (behind : buffer.length ≤ offset) :
    decode buffer offset = .error (.endOfStream offset) := by
  rw [decode, List.drop_eq_nil_of_le behind]
  rfl

/- What stands behind the bytes an opcode asks for is not looked at. -/
theorem decodeHead_take (offset : Nat) (opcode : UInt8) (rest : List UInt8) :
    decodeHead offset ((opcode :: rest).take (Descriptor.ofOpcode opcode).length) =
      decodeHead offset (opcode :: rest) := by
  simp only [Descriptor.length, AddressingMode.length, List.take_succ_cons, decodeHead,
    List.take_take, Nat.min_self]

section Found

variable {buffer : List UInt8} {offset : Nat} {opcode : UInt8}
  (found : buffer[offset]? = some opcode)

include found

theorem drop_of_found : buffer.drop offset = opcode :: buffer.drop (offset + 1) := by
  obtain ⟨inside, rfl⟩ := List.getElem?_eq_some_iff.mp found
  exact List.drop_eq_getElem_cons inside

theorem decode_of_short (short : buffer.length < offset + (Descriptor.ofOpcode opcode).length) :
    decode buffer offset =
      .error (.truncated offset (Descriptor.ofOpcode opcode).length (buffer.length - offset)) := by
  have inside : offset < buffer.length := (List.getElem?_eq_some_iff.mp found).1
  have cut : (buffer.drop (offset + 1)).length <
      (Descriptor.ofOpcode opcode).mode.operandSize := by
    simp only [Descriptor.length, AddressingMode.length] at short
    simp only [List.length_drop]
    omega
  have left : (buffer.drop (offset + 1)).length + 1 = buffer.length - offset := by
    simp only [List.length_drop]
    omega
  have decoded := Stub.decodeHead_bytes ⟨opcode, buffer.drop (offset + 1), cut⟩ offset
  simpa only [decode, drop_of_found found, Stub.bytes, Stub.fault, List.length_cons, left]
    using decoded

theorem decode_slice (fits : offset + (Descriptor.ofOpcode opcode).length ≤ buffer.length) :
    decode buffer offset = .ok {
      offset
      opcode
      descriptor := .ofOpcode opcode
      operand := littleEndian ((buffer.drop (offset + 1)).take
        (Descriptor.ofOpcode opcode).mode.operandSize)
      length := (Descriptor.ofOpcode opcode).length } := by
  have enough : ¬ ((buffer.drop (offset + 1)).take
      (Descriptor.ofOpcode opcode).mode.operandSize).length <
      (Descriptor.ofOpcode opcode).mode.operandSize := by
    simp only [Descriptor.length, AddressingMode.length] at fits
    simp only [List.length_take, List.length_drop]
    omega
  simp only [decode, drop_of_found found, decodeHead]
  rw [if_neg enough]

/- The bytes of the instruction are those of a command. -/
theorem decode_of_fits (fits : offset + (Descriptor.ofOpcode opcode).length ≤ buffer.length) :
    ∃ c : Command, c.opcode = opcode ∧ decode buffer offset = .ok (c.place offset) ∧
      c.encode = (buffer.drop offset).take c.length := by
  have enough : (Descriptor.ofOpcode opcode).mode.operandSize ≤
      (buffer.drop (offset + 1)).length := by
    simp only [Descriptor.length, AddressingMode.length] at fits
    simp only [List.length_drop]
    omega
  obtain ⟨c, encoded⟩ := Command.exists_encode opcode _ enough
  have whole := drop_of_found found
  rw [← encoded] at whole
  refine ⟨c, (List.cons.inj encoded).1, ?_, ?_⟩
  · rw [decode, whole, c.decodeHead_encode]
  · rw [whole, List.take_left' c.length_encode]

theorem decode_congr {other : List UInt8}
    (same : ∀ k < (Descriptor.ofOpcode opcode).length, other[offset + k]? = buffer[offset + k]?) :
    decode other offset = decode buffer offset := by
  have found' : other[offset]? = some opcode := (same 0 (Nat.succ_pos _)).trans found
  have front : (other.drop offset).take (Descriptor.ofOpcode opcode).length =
      (buffer.drop offset).take (Descriptor.ofOpcode opcode).length := by
    apply List.ext_getElem?
    intro k
    simp only [List.getElem?_take, List.getElem?_drop]
    split
    · exact same k ‹_›
    · rfl
  rw [drop_of_found found, drop_of_found found'] at front
  calc decode other offset
    _ = decodeHead offset (opcode :: other.drop (offset + 1)) := by
      rw [decode, drop_of_found found']
    _ = decodeHead offset (opcode :: buffer.drop (offset + 1)) := by
      rw [← decodeHead_take, front, decodeHead_take]
    _ = decode buffer offset := by rw [decode, drop_of_found found]

end Found

theorem decode_cases (buffer : List UInt8) (offset : Nat) :
    (buffer.length ≤ offset ∧ decode buffer offset = .error (.endOfStream offset)) ∨
    (offset < buffer.length ∧
      ∃ needed left, decode buffer offset = .error (.truncated offset needed left)) ∨
    ∃ c : Command, offset + c.length ≤ buffer.length ∧
      decode buffer offset = .ok (c.place offset) := by
  rcases Nat.lt_or_ge offset buffer.length with inside | behind
  · have found := List.getElem?_eq_getElem inside
    rcases Nat.lt_or_ge buffer.length (offset + _) with short | fits
    · exact .inr (.inl ⟨inside, _, _, decode_of_short found short⟩)
    · obtain ⟨c, same, decoded, -⟩ := decode_of_fits found fits
      rw [← same] at fits
      exact .inr (.inr ⟨c, fits, decoded⟩)
  · exact .inl ⟨behind, decode_of_le behind⟩

theorem decode_eq_end_iff (buffer : List UInt8) (offset : Nat) :
    decode buffer offset = .error (.endOfStream offset) ↔ buffer.length ≤ offset := by
  constructor
  · intro ended
    rcases decode_cases buffer offset with ⟨behind, -⟩ | ⟨-, needed, left, cut⟩ | ⟨c, -, decoded⟩
    · exact behind
    · cases cut.symm.trans ended
    · cases decoded.symm.trans ended
  · exact decode_of_le

/- A decoded instruction lies within its buffer. -/
theorem bounds_of_decode {buffer : List UInt8} {offset : Nat} {i : Instruction}
    (decoded : decode buffer offset = .ok i) :
    i.offset = offset ∧ 1 ≤ i.length ∧ i.length ≤ 3 ∧ i.next ≤ buffer.length := by
  rcases decode_cases buffer offset with ⟨-, ended⟩ | ⟨-, needed, left, cut⟩ | ⟨c, fits, placed⟩
  · cases ended.symm.trans decoded
  · cases cut.symm.trans decoded
  · obtain rfl := Except.ok.inj (placed.symm.trans decoded)
    exact ⟨rfl, Nat.succ_pos _, c.length_le_three, fits⟩

end Instruction

/- The operand of a command, told by where its bytes stand. -/
theorem Command.toNat_operand {c : Command} {buffer : List UInt8} {offset : Nat}
    (stands : c.encode = (buffer.drop offset).take c.length) :
    c.operand.toNat =
      ∑ k ∈ Finset.range (c.length - 1), (buffer.getD (offset + 1 + k) 0).toNat * 256 ^ k := by
  have short : c.operandBytes.length ≤ 2 := by
    simpa using c.descriptor.mode.operandSize_le_two
  have count : c.operandBytes.length = c.length - 1 := c.length_operandBytes
  rw [← c.littleEndian_operandBytes, toNat_littleEndian _ short, count]
  apply Finset.sum_congr rfl
  intro k inside
  have below : k + 1 < c.length := Nat.add_lt_of_lt_sub (Finset.mem_range.mp inside)
  have byte : c.operandBytes[k]? = buffer[offset + 1 + k]? := by
    calc c.operandBytes[k]?
      _ = c.encode[k + 1]? := rfl
      _ = buffer[offset + (k + 1)]? := by
        rw [stands, List.getElem?_take_of_lt below, List.getElem?_drop]
      _ = buffer[offset + 1 + k]? := by rw [Nat.add_assoc, Nat.add_comm 1 k]
  simp only [List.getD_eq_getElem?_getD, byte]

/-- What is decoded at an offset. Nothing, if the buffer ends before it. Else the opcode there tells
the length: if the buffer is too short for it, that is the fault, and if not, the instruction has
these very bytes, with the bytes behind the opcode as a number in base 256. Buffers that agree on
the bytes of an instruction agree on the answer. -/
theorem decoder_is_exact (buffer : List UInt8) (offset : Nat) :
    (Instruction.decode buffer offset = .error (.endOfStream offset) ↔ buffer.length ≤ offset) ∧
    ∀ opcode, buffer[offset]? = some opcode →
      let length := (Descriptor.ofOpcode opcode).length
      (Instruction.decode buffer offset =
          .error (.truncated offset length (buffer.length - offset)) ↔
        buffer.length < offset + length) ∧
      (offset + length ≤ buffer.length →
        ∃ i, Instruction.decode buffer offset = .ok i ∧ i.offset = offset ∧ i.opcode = opcode ∧
          i.descriptor = .ofOpcode opcode ∧ i.length = length ∧
          i.operand.toNat =
            ∑ k ∈ Finset.range (length - 1), (buffer.getD (offset + 1 + k) 0).toNat * 256 ^ k ∧
          i.bytes? = some ((buffer.drop offset).take length)) ∧
      ∀ other : List UInt8, (∀ k < length, other[offset + k]? = buffer[offset + k]?) →
        Instruction.decode other offset = Instruction.decode buffer offset := by
  refine ⟨Instruction.decode_eq_end_iff buffer offset, ?_⟩
  intro opcode found length
  refine ⟨⟨?_, Instruction.decode_of_short found⟩, ?_, ?_⟩
  · intro cut
    by_contra fits
    obtain ⟨c, -, decoded, -⟩ := Instruction.decode_of_fits found (Nat.le_of_not_lt fits)
    cases decoded.symm.trans cut
  · intro fits
    obtain ⟨c, rfl, decoded, stands⟩ := Instruction.decode_of_fits found fits
    refine ⟨c.place offset, decoded, rfl, rfl, rfl, rfl, Command.toNat_operand stands, ?_⟩
    rw [c.bytes?_place, stands]
    rfl
  · intro other same
    exact Instruction.decode_congr found same

/- A load from $1234 between other bytes, and the same load cut off by one byte. -/
theorem decoder_is_exact_load :
    (∃ i, Instruction.decode [0xEA, 0xAD, 0x34, 0x12, 0xFF] 1 = .ok i ∧
      i.operand.toNat = 0x1234 ∧ i.bytes? = some [0xAD, 0x34, 0x12] ∧
      Instruction.decode [0x00, 0xAD, 0x34, 0x12] 1 = .ok i) ∧
    Instruction.decode [0xEA, 0xAD, 0x34] 1 = .error (.truncated 1 3 2) := by
  have size : (Descriptor.ofOpcode 0xAD).length = 3 := by decide
  obtain ⟨-, whole, same⟩ := (decoder_is_exact [0xEA, 0xAD, 0x34, 0x12, 0xFF] 1).2 0xAD rfl
  obtain ⟨cut, -, -⟩ := (decoder_is_exact [0xEA, 0xAD, 0x34] 1).2 0xAD rfl
  rw [size] at whole same cut
  obtain ⟨i, decoded, -, -, -, -, operand, bytes⟩ := whole (by decide)
  have agrees := same [0x00, 0xAD, 0x34, 0x12] (by decide)
  exact ⟨⟨i, decoded, operand, bytes, agrees.trans decoded⟩, cut.mpr (by decide)⟩

end Mos6502
