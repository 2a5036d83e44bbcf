import Mos6502.Proofs.Branch
import Mos6502.Proofs.Decoding

/-! Decoding and writing instructions in words of fixed size: 64 bits for offsets and lengths, 16
for operands. A step that leaves its range, or takes a slice that is not there, ends in a trap. In a
buffer of less than 2^63 bytes none does, and the answers are those given in numbers of any size. -/
namespace Mos6502

namespace Bounded

/- Why a step cannot be taken. -/
inductive Trap where
  /-- A sum that is no word. -/
  | overflow
  /-- A difference below zero. -/
  | underflow
  /-- An operand with bits that a shift would lose. -/
  | lostBits
  /-- A slice that ends before it starts. -/
  | reversed
  /-- A slice that goes past the end of its array. -/
  | outside

def add (a b : UInt64) : Except Trap UInt64 :=
  if a.toNat + b.toNat < 2 ^ 64 then .ok (a + b) else .error .overflow

def sub (a b : UInt64) : Except Trap UInt64 :=
  if b.toNat ≤ a.toNat then .ok (a - b) else .error .underflow

/- Puts a byte below the bits of an operand. -/
def push (high : UInt16) (byte : UInt8) : Except Trap UInt16 :=
  if high.toNat < 2 ^ 8 then .ok (high <<< 8 ||| byte.toUInt16) else .error .lostBits

/- The bytes from `start` up to `stop`, unless the buffer ends before. -/
def slice? (buffer : List UInt8) (start stop : UInt64) : Except Trap (Option (List UInt8)) :=
  if start.toNat ≤ stop.toNat then
    if stop.toNat ≤ buffer.length then
      .ok (some ((buffer.drop start.toNat).take (stop.toNat - start.toNat)))
    else .ok none
  else .error .reversed

/- The bytes of an operand are taken from the last to the first. -/
def operandOf (bytes : List UInt8) : Except Trap UInt16 :=
  bytes.reverse.foldlM push 0

/- An instruction with its numbers as words. -/
structure Decoded where
  offset : UInt64
  opcode : UInt8
  descriptor : Descriptor
  operand : UInt16
  length : UInt64

/- The bytes behind the opcode at `offset`, if they are all there, and how many bytes are left. That
number is computed before it is known whether it is of interest. -/
def fetch (buffer : List UInt8) (offset length : UInt64) :
    Except Trap (Option (List UInt8) × UInt64) := do
  let start ← add offset 1
  let stop ← add offset length
  let bytes? ← slice? buffer start stop
  let left ← sub (UInt64.ofNat buffer.length) offset
  return (bytes?, left)

def decode (buffer : List UInt8) (offset : UInt64) : Except Trap (Except DecodeError Decoded) :=
  match buffer[offset.toNat]? with
  | none => .ok (.error (.endOfStream offset.toNat))
  | some opcode => do
    let descriptor := Descriptor.ofOpcode opcode
    let length := UInt64.ofNat descriptor.length
    match ← fetch buffer offset length with
    | (none, left) => return .error (.truncated offset.toNat length.toNat left.toNat)
    | (some bytes, _) =>
      let operand ← operandOf bytes
      return .ok ⟨offset, opcode, descriptor, operand, length⟩

namespace Decoded

def toInstruction (d : Decoded) : Instruction :=
  ⟨d.offset.toNat, d.opcode, d.descriptor, d.operand, d.length.toNat⟩

def next (d : Decoded) : Except Trap UInt64 :=
  add d.offset d.length

def raw (d : Decoded) : Except Trap (List UInt8) :=
  if d.length.toNat ≤ 3 then
    .ok ([d.opcode, d.operand.toUInt8, (d.operand >>> 8).toUInt8].take d.length.toNat)
  else .error .outside

def branchTarget? (d : Decoded) (origin : UInt16) : Except Trap (Option UInt16) :=
  if d.descriptor.mode = .relative then do
    let next ← d.next
    return some (origin + next.toUInt16 + UInt16.ofInt d.operand.toUInt8.toInt8.toInt)
  else .ok none

def assembly (d : Decoded) (layout : Layout) : Except Trap String :=
  match layout.branches with
  | .binary => .ok d.toInstruction.text
  | .target => do
    match ← d.branchTarget? layout.origin with
    | some target =>
      return d.descriptor.mnemonic.text ++
        d.toInstruction.operandText (Numeral.hex 4 target.toNat)
    | none => return d.toInstruction.text

def addressColumn (d : Decoded) (layout : Layout) : String :=
  if layout.addresses then Numeral.upperHex 4 (layout.origin + d.offset.toUInt16).toNat ++ " "
  else ""

def byteColumn (d : Decoded) (layout : Layout) : Except Trap String :=
  if layout.bytes then d.raw.map Layout.byteField else .ok ""

def line (d : Decoded) (layout : Layout) : Except Trap String := do
  let bytes ← d.byteColumn layout
  let assembly ← d.assembly layout
  return d.addressColumn layout ++ bytes ++ assembly

end Decoded

section Steps

theorem add_eq_ok {a b : UInt64} (small : a.toNat + b.toNat < 2 ^ 64) :
    ∃ c, add a b = .ok c ∧ c.toNat = a.toNat + b.toNat := by
  refine ⟨a + b, if_pos small, ?_⟩
  rw [UInt64.toNat_add, Nat.mod_eq_of_lt small]

theorem sub_eq_ok {a b : UInt64} (above : b.toNat ≤ a.toNat) :
    ∃ c, sub a b = .ok c ∧ c.toNat = a.toNat - b.toNat :=
  ⟨a - b, if_pos above, UInt64.toNat_sub_of_le a b above⟩

theorem push_eq_ok {high : UInt16} (byte : UInt8) (room : high.toNat < 2 ^ 8) :
    push high byte = .ok (byte.toUInt16 + 256 * high) := by
  have bound := byte.toNat_lt
  have disjoint := Nat.shiftLeft_add_eq_or_of_lt bound high.toNat
  have shifted : high.toNat <<< 8 < 2 ^ 16 := by
    rw [Nat.shiftLeft_eq]
    omega
  rw [push, if_pos room, Except.ok.injEq, ← UInt16.toNat_inj]
  simp only [UInt16.toNat_or, UInt16.toNat_shiftLeft, UInt8.toNat_toUInt16, UInt16.toNat_add,
    UInt16.toNat_mul, UInt16.reduceToNat, Nat.reduceMod]
  rw [Nat.mod_eq_of_lt shifted, ← disjoint, Nat.shiftLeft_eq]
  omega

theorem operandOf_cons (byte : UInt8) (bytes : List UInt8) :
    operandOf (byte :: bytes) = (operandOf bytes >>= fun high => push high byte) := by
  simp [operandOf, List.foldlM_append]

/-- No bit of an operand is lost. -/
theorem operandOf_eq_ok {bytes : List UInt8} (short : bytes.length ≤ 2) :
    operandOf bytes = .ok (littleEndian bytes) := by
  induction bytes with
  | nil => rfl
  | cons byte bytes ih =>
    have one : bytes.length ≤ 1 := Nat.le_of_succ_le_succ short
    have room : (littleEndian bytes).toNat < 2 ^ 8 :=
      calc (littleEndian bytes).toNat
        _ < 256 ^ bytes.length := littleEndian_lt bytes (by omega)
        _ ≤ 256 ^ 1 := Nat.pow_le_pow_right (by decide) one
    rw [operandOf_cons, ih (by omega)]
    exact push_eq_ok byte room

end Steps

/- The numbers of an instruction that lies within a buffer. -/
structure Within (buffer : List UInt8) (d : Decoded) : Prop where
  length_pos : 1 ≤ d.length.toNat
  length_le : d.length.toNat ≤ 3
  next_le : d.offset.toNat + d.length.toNat ≤ buffer.length

theorem Within.next_lt {buffer : List UInt8} {d : Decoded} (within : Within buffer d)
    (small : buffer.length < 2 ^ 63) : d.offset.toNat + d.length.toNat < 2 ^ 64 :=
  Nat.lt_of_le_of_lt within.next_le (Nat.lt_trans small (by decide))

namespace Decoded

variable {d : Decoded}

theorem next_eq_ok (small : d.offset.toNat + d.length.toNat < 2 ^ 64) :
    ∃ stop, d.next = .ok stop ∧ stop.toNat = d.toInstruction.next :=
  add_eq_ok small

theorem raw_eq_ok (short : d.length.toNat ≤ 3) : d.raw = .ok d.toInstruction.bytes := by
  have high : d.operand >>> 8 = d.operand / 256 := by
    apply UInt16.toNat_inj.mp
    simp [Nat.shiftRight_eq_div_pow]
  rw [raw, if_pos short, high]
  rfl

/- Offsets are cut to sixteen bits before they are added, where the sum of all is cut at the end. -/
theorem destination_eq {stop : UInt64} (next : stop.toNat = d.toInstruction.next)
    (origin : UInt16) :
    origin + stop.toUInt16 + UInt16.ofInt d.operand.toUInt8.toInt8.toInt =
      d.toInstruction.destination origin := by
  have wrapped := d.toInstruction.toNat_destination origin
  rw [d.toInstruction.displacement_eq, ← next] at wrapped
  simp only [toInstruction] at wrapped
  apply UInt16.toNat_inj.mp
  simp only [UInt16.toNat_add, UInt64.toNat_toUInt16, UInt16.ofInt, UInt16.toNat_ofNat',
    toInstruction]
  omega

theorem address_eq (origin : UInt16) :
    origin + d.offset.toUInt16 = d.toInstruction.address origin := by
  apply UInt16.toNat_inj.mp
  simp [Instruction.address, toInstruction]

theorem assembly_eq_ok (small : d.offset.toNat + d.length.toNat < 2 ^ 64) (layout : Layout) :
    d.assembly layout = .ok (layout.assembly d.toInstruction) := by
  unfold assembly Layout.assembly branchTarget?
  cases layout.branches with
  | binary => rfl
  | target =>
    by_cases relative : d.descriptor.mode = .relative
    · obtain ⟨stop, next, same⟩ := next_eq_ok small
      simp only [if_pos relative, next, bind, Except.bind, destination_eq same]
      rfl
    · have plain : d.toInstruction.resolvedText layout.origin = _ :=
        Instruction.resolvedText_of_ne relative layout.origin
      simp only [if_neg relative, bind, Except.bind, plain]
      rfl

/-- A line is written without a trap if its instruction ends within the range of words. -/
theorem line_eq_ok (short : d.length.toNat ≤ 3)
    (small : d.offset.toNat + d.length.toNat < 2 ^ 64) (layout : Layout) :
    d.line layout = .ok (layout.line d.toInstruction) := by
  have bytes : d.byteColumn layout =
      .ok (if layout.bytes then Layout.byteField d.toInstruction.bytes else "") := by
    unfold byteColumn
    rw [raw_eq_ok short]
    split <;> rfl
  simp only [line, bytes, assembly_eq_ok small, bind, Except.bind, addressColumn, address_eq]
  rfl

end Decoded

section Found

variable {buffer : List UInt8} {offset left : UInt64} {opcode : UInt8}
  (found : buffer[offset.toNat]? = some opcode)

include found

theorem decode_of_whole {bytes : List UInt8} {operand : UInt16}
    (fetched : fetch buffer offset (.ofNat (Descriptor.ofOpcode opcode).length) =
      .ok (some bytes, left)) (folded : operandOf bytes = .ok operand) :
    decode buffer offset = .ok (.ok ⟨offset, opcode, .ofOpcode opcode, operand,
      .ofNat (Descriptor.ofOpcode opcode).length⟩) := by
  simp only [decode, found, fetched, folded, bind, Except.bind]
  rfl

theorem decode_of_cut (fetched : fetch buffer offset
      (.ofNat (Descriptor.ofOpcode opcode).length) = .ok (none, left)) :
    decode buffer offset = .ok (.error (.truncated offset.toNat
      (UInt64.ofNat (Descriptor.ofOpcode opcode).length).toNat left.toNat)) := by
  simp only [decode, found, fetched, bind, Except.bind]
  rfl

end Found

theorem toNat_length (descriptor : Descriptor) :
    (UInt64.ofNat descriptor.length).toNat = descriptor.length := by
  have two := descriptor.mode.operandSize_le_two
  apply UInt64.toNat_ofNat_of_lt'
  simp only [Descriptor.length, AddressingMode.length, UInt64.size]
  omega

section Buffer

variable {buffer : List UInt8} (small : buffer.length < 2 ^ 63)

include small

theorem fetch_eq_ok {offset : UInt64} (length : UInt64) (inside : offset.toNat < buffer.length)
    (positive : 1 ≤ length.toNat) (short : length.toNat ≤ 3) :
    ∃ left, left.toNat = buffer.length - offset.toNat ∧ fetch buffer offset length =
      .ok (if offset.toNat + length.toNat ≤ buffer.length then
          some ((buffer.drop (offset.toNat + 1)).take (length.toNat - 1)) else none, left) := by
  have count : (UInt64.ofNat buffer.length).toNat = buffer.length :=
    UInt64.toNat_ofNat_of_lt' (Nat.lt_trans small (by decide))
  have one : (1 : UInt64).toNat = 1 := rfl
  -- Only an offset inside the buffer comes this far, and there three more bytes are still a word.
  obtain ⟨start, started, start_eq⟩ : ∃ c, add offset 1 = .ok c ∧ _ := add_eq_ok (by omega)
  obtain ⟨stop, stopped, stop_eq⟩ : ∃ c, add offset length = .ok c ∧ _ := add_eq_ok (by omega)
  obtain ⟨left, rest, left_eq⟩ : ∃ c, sub (UInt64.ofNat buffer.length) offset = .ok c ∧ _ :=
    sub_eq_ok (by omega)
  have ordered : start.toNat ≤ stop.toNat := by omega
  have width : stop.toNat - start.toNat = length.toNat - 1 := by omega
  have sliced : slice? buffer start stop =
      .ok (if offset.toNat + length.toNat ≤ buffer.length then
        some ((buffer.drop (offset.toNat + 1)).take (length.toNat - 1)) else none) := by
    rw [slice?, if_pos ordered, width, start_eq, stop_eq, one]
    split <;> rfl
  refine ⟨left, by omega, ?_⟩
  simp only [fetch, started, stopped, sliced, rest, bind, Except.bind]
  rfl

theorem decode_found {offset : UInt64} {opcode : UInt8}
    (found : buffer[offset.toNat]? = some opcode) :
    ∃ item, decode buffer offset = .ok item ∧
      item.map Decoded.toInstruction = Instruction.decode buffer offset.toNat := by
  have inside : offset.toNat < buffer.length := (List.getElem?_eq_some_iff.mp found).1
  have length := toNat_length (Descriptor.ofOpcode opcode)
  have two := (Descriptor.ofOpcode opcode).mode.operandSize_le_two
  have size : (Descriptor.ofOpcode opcode).length =
      (Descriptor.ofOpcode opcode).mode.operandSize + 1 := rfl
  obtain ⟨left, left_eq, fetched⟩ := fetch_eq_ok small
    (.ofNat (Descriptor.ofOpcode opcode).length) inside (by omega) (by omega)
  rw [length] at fetched
  by_cases fits : offset.toNat + (Descriptor.ofOpcode opcode).length ≤ buffer.length
  · have operand : operandOf ((buffer.drop (offset.toNat + 1)).take
        ((Descriptor.ofOpcode opcode).length - 1)) = _ :=
      operandOf_eq_ok (by rw [List.length_take]; omega)
    rw [if_pos fits] at fetched
    rw [Instruction.decode_slice found fits]
    refine ⟨_, decode_of_whole found fetched operand, ?_⟩
    simp only [Except.map, Decoded.toInstruction, length]
    rfl
  · rw [if_neg fits] at fetched
    rw [Instruction.decode_of_short found (Nat.lt_of_not_le fits), ← left_eq, ← length]
    exact ⟨_, decode_of_cut found fetched, rfl⟩

/-- At any offset what is there is decoded without a trap. -/
theorem decode_eq_ok (offset : UInt64) :
    ∃ item, decode buffer offset = .ok item ∧
      item.map Decoded.toInstruction = Instruction.decode buffer offset.toNat := by
  cases found : buffer[offset.toNat]? with
  | none =>
    have behind : buffer.length ≤ offset.toNat := List.getElem?_eq_none_iff.mp found
    refine ⟨.error (.endOfStream offset.toNat), ?_, ?_⟩
    · simp only [decode, found]
    · rw [Instruction.decode_of_le behind]
      rfl
  | some opcode => exact decode_found small found

theorem within_of_decode {offset : UInt64} {d : Decoded}
    (decoded : decode buffer offset = .ok (.ok d)) : Within buffer d := by
  obtain ⟨item, same, view⟩ := decode_eq_ok small offset
  obtain rfl := Except.ok.inj (same.symm.trans decoded)
  obtain ⟨-, positive, short, inside⟩ := Instruction.bounds_of_decode view.symm
  exact ⟨positive, short, inside⟩

end Buffer

/- What holds of an instruction within a buffer: its length is one to three, the next one starts no
later than the buffer ends, and its bytes and its lines can be written. -/
structure Sound (buffer : List UInt8) (d : Decoded) : Prop where
  length : 1 ≤ d.length.toNat ∧ d.length.toNat ≤ 3
  next : ∃ stop, d.next = .ok stop ∧ stop.toNat = d.toInstruction.next ∧
    stop.toNat ≤ buffer.length
  raw : d.raw = .ok d.toInstruction.bytes
  line : ∀ layout, d.line layout = .ok (layout.line d.toInstruction)

theorem Within.sound {buffer : List UInt8} {d : Decoded} (within : Within buffer d)
    (small : buffer.length < 2 ^ 63) : Sound buffer d := by
  obtain ⟨stop, next, same⟩ := Decoded.next_eq_ok (within.next_lt small)
  refine ⟨⟨within.length_pos, within.length_le⟩, ⟨stop, next, same, ?_⟩, ?_, ?_⟩
  · rw [same]
    exact within.next_le
  · exact Decoded.raw_eq_ok within.length_le
  · exact Decoded.line_eq_ok within.length_le (within.next_lt small)

end Bounded

end Mos6502
