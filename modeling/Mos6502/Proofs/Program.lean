import Mathlib.Algebra.Ring.Nat
import Mos6502.Instruction

/-! Machine code seen from the writer's side: commands, the bytes they assemble to, and where each
of them lands. Every buffer is the code of some program, followed at most by the first bytes of one
more command. -/
namespace Mos6502

/-- An opcode with an operand that fits into the bytes its mode provides. -/
@[ext] structure Command where
  opcode : UInt8
  operand : UInt16
  fits : operand.toNat < 256 ^ (Descriptor.ofOpcode opcode).mode.operandSize

namespace Command

def descriptor (c : Command) : Descriptor :=
  .ofOpcode c.opcode

def length (c : Command) : Nat :=
  c.descriptor.length

/- As many bytes of the operand as the mode provides, the low byte first. -/
def operandBytes (c : Command) : List UInt8 :=
  [c.operand.toUInt8, (c.operand / 256).toUInt8].take c.descriptor.mode.operandSize

def encode (c : Command) : List UInt8 :=
  c.opcode :: c.operandBytes

def place (c : Command) (offset : Nat) : Instruction :=
  ⟨offset, c.opcode, c.descriptor, c.operand, c.length⟩

theorem length_le_three (c : Command) : c.length ≤ 3 :=
  Nat.succ_le_succ c.descriptor.mode.operandSize_le_two

@[simp] theorem length_operandBytes (c : Command) :
    c.operandBytes.length = c.descriptor.mode.operandSize := by
  have two := c.descriptor.mode.operandSize_le_two
  simp only [operandBytes, List.length_take, List.length_cons, List.length_nil]
  omega

@[simp] theorem length_encode (c : Command) : c.encode.length = c.length :=
  congrArg Nat.succ c.length_operandBytes

@[simp] theorem next_place (c : Command) (offset : Nat) :
    (c.place offset).next = offset + c.length :=
  rfl

@[simp] theorem bytes_place (c : Command) (offset : Nat) : (c.place offset).bytes = c.encode := by
  simp only [place, Instruction.bytes, encode, operandBytes, length, Descriptor.length,
    AddressingMode.length, List.take_succ_cons]

theorem bytes?_place (c : Command) (offset : Nat) :
    (c.place offset).bytes? = some c.encode := by
  have three : (c.place offset).length ≤ 3 := c.length_le_three
  rw [Instruction.bytes?, if_pos three, bytes_place]

end Command

theorem toNat_littleEndian_cons_of_lt (low : UInt8) {bytes : List UInt8}
    (small : (littleEndian bytes).toNat < 256) :
    (littleEndian (low :: bytes)).toNat = low.toNat + 256 * (littleEndian bytes).toNat := by
  have bound := low.toNat_lt
  have step : littleEndian (low :: bytes) = low.toUInt16 + 256 * littleEndian bytes := rfl
  simp only [step, UInt16.toNat_add, UInt16.toNat_mul, UInt8.toNat_toUInt16, UInt16.reduceToNat]
  omega

theorem littleEndian_lt (bytes : List UInt8) (short : bytes.length ≤ 2) :
    (littleEndian bytes).toNat < 256 ^ bytes.length := by
  induction bytes with
  | nil => decide
  | cons low bytes ih =>
    have bound := low.toNat_lt
    have high := ih (Nat.le_of_succ_le short)
    have byte : 256 ^ bytes.length ≤ 256 ^ 1 :=
      Nat.pow_le_pow_right (by decide) (Nat.le_of_succ_le_succ short)
    rw [toNat_littleEndian_cons_of_lt low (by omega), List.length_cons, Nat.pow_succ]
    omega

theorem toNat_littleEndian_cons (low : UInt8) {bytes : List UInt8} (short : bytes.length ≤ 1) :
    (littleEndian (low :: bytes)).toNat = low.toNat + 256 * (littleEndian bytes).toNat := by
  have high := littleEndian_lt bytes (Nat.le_succ_of_le short)
  have byte : 256 ^ bytes.length ≤ 256 ^ 1 := Nat.pow_le_pow_right (by decide) short
  exact toNat_littleEndian_cons_of_lt low (by omega)

/- The low byte and the others are found again. -/
theorem littleEndian_cons_parts (low : UInt8) {bytes : List UInt8} (short : bytes.length ≤ 1) :
    (littleEndian (low :: bytes)).toUInt8 = low ∧
      littleEndian (low :: bytes) / 256 = littleEndian bytes := by
  have bound := low.toNat_lt
  have whole := toNat_littleEndian_cons low short
  constructor
  · apply UInt8.toNat_inj.mp
    rw [UInt16.toNat_toUInt8, whole]
    omega
  · apply UInt16.toNat_inj.mp
    simp only [UInt16.toNat_div, whole, UInt16.reduceToNat]
    omega

/- Reading operand bytes and writing them are inverse to each other in the sizes a mode can have. -/
theorem littleEndian_take (operand : UInt16) (size : Nat) (small : size ≤ 2)
    (fits : operand.toNat < 256 ^ size) :
    littleEndian ([operand.toUInt8, (operand / 256).toUInt8].take size) = operand := by
  have nothing : (littleEndian []).toNat = 0 := rfl
  apply UInt16.toNat_inj.mp
  match size with
  | 0 =>
    have zero : operand.toNat = 0 := by omega
    rw [zero]
    rfl
  | 1 =>
    rw [List.take_succ_cons, List.take_zero, toNat_littleEndian_cons _ (by simp),
      UInt16.toNat_toUInt8, nothing]
    omega
  | 2 =>
    rw [List.take_succ_cons, List.take_succ_cons, List.take_zero,
      toNat_littleEndian_cons _ (by simp), toNat_littleEndian_cons _ (by simp), nothing]
    simp only [UInt16.toNat_toUInt8, UInt16.toNat_div, UInt16.reduceToNat]
    omega

theorem take_littleEndian (bytes : List UInt8) (short : bytes.length ≤ 2) :
    [(littleEndian bytes).toUInt8, (littleEndian bytes / 256).toUInt8].take bytes.length =
      bytes := by
  match bytes with
  | [] => rfl
  | [low] =>
    obtain ⟨same, -⟩ := @littleEndian_cons_parts low [] (Nat.zero_le 1)
    simp only [List.length_cons, List.length_nil, List.take_succ_cons, List.take_zero, same]
  | [low, high] =>
    obtain ⟨same_low, rest⟩ := @littleEndian_cons_parts low [high] (Nat.le_refl 1)
    obtain ⟨same_high, -⟩ := @littleEndian_cons_parts high [] (Nat.zero_le 1)
    simp only [List.length_cons, List.length_nil, List.take_succ_cons, List.take_zero, same_low,
      rest, same_high]

namespace Command

theorem littleEndian_operandBytes (c : Command) : littleEndian c.operandBytes = c.operand :=
  littleEndian_take c.operand _ c.descriptor.mode.operandSize_le_two c.fits

/-- A decoder reads a command back whatever follows it. -/
theorem decodeHead_encode (c : Command) (offset : Nat) (rest : List UInt8) :
    Instruction.decodeHead offset (c.encode ++ rest) = .ok (c.place offset) := by
  have operand : (c.operandBytes ++ rest).take c.descriptor.mode.operandSize = c.operandBytes :=
    List.take_left' c.length_operandBytes
  simp only [encode, List.cons_append, Instruction.decodeHead]
  rw [← descriptor, operand, c.length_operandBytes, if_neg (Nat.lt_irrefl _),
    c.littleEndian_operandBytes]
  rfl

theorem exists_encode (opcode : UInt8) (rest : List UInt8)
    (enough : (Descriptor.ofOpcode opcode).mode.operandSize ≤ rest.length) :
    ∃ c : Command, c.encode ++ rest.drop (Descriptor.ofOpcode opcode).mode.operandSize =
      opcode :: rest := by
  have two := (Descriptor.ofOpcode opcode).mode.operandSize_le_two
  have size : (rest.take (Descriptor.ofOpcode opcode).mode.operandSize).length =
      (Descriptor.ofOpcode opcode).mode.operandSize := List.length_take_of_le enough
  have short : (rest.take (Descriptor.ofOpcode opcode).mode.operandSize).length ≤ 2 :=
    Nat.le_trans (Nat.le_of_eq size) two
  refine ⟨⟨opcode, littleEndian (rest.take (Descriptor.ofOpcode opcode).mode.operandSize), ?_⟩, ?_⟩
  · have bound := littleEndian_lt _ short
    rwa [size] at bound
  · have same := take_littleEndian _ short
    rw [size] at same
    simp only [encode, operandBytes, descriptor, same, List.cons_append, List.take_append_drop]

/- An opcode and as many bytes as its mode asks for are a command, whatever the bytes. -/
theorem exists_encode_eq (opcode : UInt8) {operand : List UInt8}
    (fills : operand.length = (Descriptor.ofOpcode opcode).mode.operandSize) :
    ∃ c : Command, c.encode = opcode :: operand := by
  obtain ⟨c, encoded⟩ := exists_encode opcode operand (Nat.le_of_eq fills.symm)
  rw [← fills, List.drop_length, List.append_nil] at encoded
  exact ⟨c, encoded⟩

end Command

/-- The first bytes of a command, cut off before its end. -/
structure Stub where
  opcode : UInt8
  operand : List UInt8
  short : operand.length < (Descriptor.ofOpcode opcode).mode.operandSize

namespace Stub

def bytes (s : Stub) : List UInt8 :=
  s.opcode :: s.operand

def fault (s : Stub) (offset : Nat) : DecodeError :=
  .truncated offset (Descriptor.ofOpcode s.opcode).length s.bytes.length

theorem decodeHead_bytes (s : Stub) (offset : Nat) :
    Instruction.decodeHead offset s.bytes = .error (s.fault offset) := by
  have all : s.operand.take (Descriptor.ofOpcode s.opcode).mode.operandSize = s.operand :=
    List.take_of_length_le (Nat.le_of_lt s.short)
  simp only [bytes, Instruction.decodeHead]
  rw [all, if_pos s.short]
  rfl

end Stub

/-- Whatever a decoder reads is a command at its place. -/
theorem Instruction.exists_command {buffer : List UInt8} {offset : Nat} {i : Instruction}
    (decoded : decode buffer offset = .ok i) : ∃ c : Command, i = c.place offset := by
  unfold decode at decoded
  cases rest : buffer.drop offset with
  | nil =>
    rw [rest] at decoded
    cases decoded
  | cons opcode rest' =>
    rw [rest] at decoded
    by_cases enough : (Descriptor.ofOpcode opcode).mode.operandSize ≤ rest'.length
    · obtain ⟨c, encoded⟩ := Command.exists_encode opcode rest' enough
      rw [← encoded, c.decodeHead_encode] at decoded
      exact ⟨c, (Except.ok.inj decoded).symm⟩
    · have cut := Stub.decodeHead_bytes ⟨opcode, rest', Nat.lt_of_not_le enough⟩ offset
      cases decoded.symm.trans cut

namespace Program

def encode (program : List Command) : List UInt8 :=
  program.flatMap Command.encode

def size (program : List Command) : Nat :=
  (program.map Command.length).sum

/- The instructions of a buffer that has the code at `offset`. -/
def place (offset : Nat) : List Command → List Instruction
  | [] => []
  | c :: program => c.place offset :: place (offset + c.length) program

@[simp] theorem encode_cons (c : Command) (program : List Command) :
    encode (c :: program) = c.encode ++ encode program :=
  rfl

@[simp] theorem size_cons (c : Command) (program : List Command) :
    size (c :: program) = c.length + size program :=
  rfl

@[simp] theorem encode_append (front back : List Command) :
    encode (front ++ back) = encode front ++ encode back :=
  List.flatMap_append

@[simp] theorem size_append (front back : List Command) :
    size (front ++ back) = size front + size back := by
  simp only [size, List.map_append, List.sum_append_nat]

@[simp] theorem length_encode (program : List Command) :
    (encode program).length = size program := by
  induction program with
  | nil => rfl
  | cons c program ih =>
    rw [encode_cons, size_cons, List.length_append, c.length_encode, ih]

theorem place_append (offset : Nat) (front back : List Command) :
    place offset (front ++ back) = place offset front ++ place (offset + size front) back := by
  induction front generalizing offset with
  | nil => rfl
  | cons c front ih => simp only [List.cons_append, place, ih, size_cons, Nat.add_assoc]

theorem getElem?_encode_cons (c : Command) (program : List Command) (k : Nat) :
    (encode (c :: program))[c.length + k]? = (encode program)[k]? := by
  rw [encode_cons, List.getElem?_append_right (by simp), c.length_encode, Nat.add_sub_cancel_left]

/- A byte of the code is the byte of the command it lies in. -/
theorem getElem?_encode_within {program : List Command} {k m : Nat} {c : Command}
    (here : program[k]? = some c) (inside : m < c.length) :
    (encode program)[size (program.take k) + m]? = c.encode[m]? := by
  induction program generalizing k with
  | nil => simp at here
  | cons d program ih =>
    cases k with
    | zero =>
      obtain rfl : d = c := by simpa using here
      simp only [List.take_zero, encode_cons, size, List.map_nil, List.sum_nil, Nat.zero_add]
      exact List.getElem?_append_left (by simpa using inside)
    | succ k =>
      simp only [List.take_succ_cons, size_cons, Nat.add_assoc, getElem?_encode_cons]
      exact ih here

@[simp] theorem length_place (offset : Nat) (program : List Command) :
    (place offset program).length = program.length := by
  induction program generalizing offset with
  | nil => rfl
  | cons c program ih => simp only [place, List.length_cons, ih]

/- What does not depend on the place can be told from the commands. -/
theorem map_place {β : Type} {f : Instruction → β} {g : Command → β}
    (same : ∀ c start, f (c.place start) = g c) (offset : Nat) (program : List Command) :
    (place offset program).map f = program.map g := by
  induction program generalizing offset with
  | nil => rfl
  | cons c program ih => rw [place, List.map_cons, List.map_cons, same, ih]

theorem bytes?_place (offset : Nat) (program : List Command) :
    (place offset program).mapM Instruction.bytes? = some (program.map Command.encode) := by
  induction program generalizing offset with
  | nil => rfl
  | cons c program ih =>
    simp only [place, List.mapM_cons, c.bytes?_place, ih, List.map_cons]
    rfl

theorem flatMap_bytes_place (offset : Nat) (program : List Command) :
    (place offset program).flatMap Instruction.bytes = encode program := by
  rw [List.flatMap_def, map_place Command.bytes_place, encode, List.flatMap_def]

theorem end_place (offset : Nat) (program : List Command) :
    ((place offset program).getLast?.map Instruction.next).getD offset =
      offset + size program := by
  induction program generalizing offset with
  | nil => rfl
  | cons c program ih =>
    have behind := ih (offset + c.length)
    rw [place, List.getLast?_cons, Option.map_some, Option.getD_some]
    rw [← c.next_place, Option.getD_map, c.next_place] at behind
    rw [behind, Nat.add_assoc]
    rfl

theorem getElem?_place (offset : Nat) (program : List Command) (k : Nat) :
    (place offset program)[k]? =
      program[k]?.map fun c => c.place (offset + size (program.take k)) := by
  induction program generalizing offset k with
  | nil => rfl
  | cons c program ih =>
    cases k with
    | zero => rfl
    | succ k =>
      simp only [place, List.getElem?_cons_succ, ih, List.take_succ_cons, size_cons, Nat.add_assoc]

theorem exists_of_mem_place {offset : Nat} {program : List Command} {i : Instruction}
    (member : i ∈ place offset program) : ∃ c ∈ program, ∃ start, i = c.place start := by
  obtain ⟨k, here⟩ := List.mem_iff_getElem?.mp member
  rw [getElem?_place, Option.map_eq_some_iff] at here
  obtain ⟨c, at_k, rfl⟩ := here
  exact ⟨c, List.mem_of_getElem? at_k, _, rfl⟩

/- Between placed instructions there is no gap and no overlap. -/
theorem offset_place_succ (offset : Nat) (program : List Command) (k : Nat) {i j : Instruction}
    (here : (place offset program)[k]? = some i)
    (behind : (place offset program)[k + 1]? = some j) : j.offset = i.offset + i.length := by
  rw [getElem?_place, Option.map_eq_some_iff] at here behind
  obtain ⟨c, at_k, rfl⟩ := here
  obtain ⟨c', -, rfl⟩ := behind
  have step : size (program.take (k + 1)) = size (program.take k) + c.length := by
    rw [List.take_add_one, at_k, size_append]
    rfl
  simp only [Command.place, step, Nat.add_assoc]

end Program

/-- Code, and behind it perhaps the first bytes of one more command. -/
structure Dissection where
  program : List Command
  stub : Option Stub

namespace Dissection

def tail (d : Dissection) : List UInt8 :=
  (d.stub.map Stub.bytes).getD []

def bytes (d : Dissection) : List UInt8 :=
  Program.encode d.program ++ d.tail

@[simp] theorem length_bytes (d : Dissection) :
    d.bytes.length = Program.size d.program + d.tail.length := by
  simp [bytes]

theorem exists_bytes (buffer : List UInt8) : ∃ d : Dissection, d.bytes = buffer := by
  match buffer with
  | [] => exact ⟨⟨[], none⟩, rfl⟩
  | opcode :: rest =>
    by_cases enough : (Descriptor.ofOpcode opcode).mode.operandSize ≤ rest.length
    · obtain ⟨c, head⟩ := Command.exists_encode opcode rest enough
      obtain ⟨d, tail⟩ := exists_bytes (rest.drop (Descriptor.ofOpcode opcode).mode.operandSize)
      refine ⟨⟨c :: d.program, d.stub⟩, ?_⟩
      rw [← head, ← tail]
      simp only [bytes, Dissection.tail, Program.encode_cons, List.append_assoc]
    · exact ⟨⟨[], some ⟨opcode, rest, Nat.lt_of_not_le enough⟩⟩, rfl⟩
termination_by buffer.length
decreasing_by
  simp only [List.length_drop, List.length_cons]
  omega

end Dissection

end Mos6502
