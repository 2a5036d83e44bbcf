import Mathlib.Data.Int.ModEq
import Mos6502.Proofs.Calls
import Mos6502.Proofs.Composition
import Mos6502.Proofs.Line

/-! Where branches lead. A resolved branch shows an address, and so does the first column of every
line. Both are counted from the same origin and both wrap, so they are equal just where the branch,
counted in bytes of the buffer, leads to that line. -/
namespace Mos6502

/- A numeral of so many digits, in either case, and nothing else. -/
def Numeral.read? (base width : Nat) (text : List Char) : Option Nat :=
  if text.length = width ∧ text.all isDigit = true then some (value base text) else none

theorem Numeral.Writes.read?_eq {base width n : Nat} {text : List Char}
    (written : Writes base width n text) : read? base width text = some n := by
  have digits : text.all isDigit = true := List.all_eq_true.mpr written.digits
  simp only [read?, written.length, digits, and_self, if_true, written.value]

namespace Layout

/- The number in front of the first blank of a line. -/
def readAddress? (line : String) : Option Nat :=
  Numeral.read? 16 4 (line.toList.takeWhile (· != ' '))

/- The number behind the mark of a line, whatever columns are in front of it. -/
def readOperand? (line : String) : Option Nat :=
  Numeral.read? 16 4 (takeApart line.toList).2.1

end Layout

/- Text in which no operand is announced. -/
def Unmarked (text : List Char) : Prop :=
  ∀ c ∈ text, (c != '$') = true

instance (text : List Char) : Decidable (Unmarked text) :=
  List.decidableBAll _ text

namespace Unmarked

theorem append {front back : List Char} (one : Unmarked front) (other : Unmarked back) :
    Unmarked (front ++ back) :=
  List.forall_mem_append.mpr ⟨one, other⟩

theorem of_digits {text : List Char} (digits : ∀ c ∈ text, Numeral.isDigit c = true) :
    Unmarked text := by
  intro c member
  exact Numeral.isDigit_ne (digits c member) (by decide)

theorem mnemonic (m : Mnemonic) : Unmarked m.text.toList := by
  have checked : ∀ m ∈ Mnemonic.all, Unmarked m.text.toList := by decide +kernel
  exact checked m m.mem_all

theorem addressField (layout : Layout) (i : Instruction) :
    Unmarked (layout.addressField i).toList := by
  simp only [Layout.addressField, String.toList_append]
  apply append
  · exact of_digits (layout.writes_address i).digits
  · decide

theorem byteField (bytes : List UInt8) : Unmarked (Layout.byteField bytes).toList := by
  intro c member
  rcases Layout.mem_byteField member with digit | rfl
  · exact Numeral.isDigit_ne digit (by decide)
  · decide

end Unmarked

namespace Layout

/- In front of the operand of a branch stand the columns, the mnemonic and a blank. -/
theorem exists_front (layout : Layout) {i : Instruction}
    (relative : i.descriptor.mode = .relative) :
    ∃ front, Unmarked front ∧
      (layout.line i).toList = front ++ '$' :: ((layout.branchText i).toList ++ []) := by
  refine ⟨(if layout.addresses then layout.addressField i else "").toList ++
    (if layout.bytes then byteField i.bytes else "").toList ++
    i.descriptor.mnemonic.text.toList ++ [' '], ?_, ?_⟩
  · apply Unmarked.append
    · apply Unmarked.append
      · apply Unmarked.append
        · split
          · exact Unmarked.addressField layout i
          · decide
        · split
          · exact Unmarked.byteField i.bytes
          · decide
      · exact Unmarked.mnemonic _
    · decide
  · simp [line, layout.assembly_eq, Instruction.operandText, relative]

theorem readOperand?_line {layout : Layout} (resolved : layout.branches = .target) {i : Instruction}
    (relative : i.descriptor.mode = .relative) :
    readOperand? (layout.line i) = some (i.destination layout.origin).toNat := by
  have digits : layout.branchText i = Numeral.hex 4 (i.destination layout.origin).toNat := by
    simp only [branchText, resolved]
  have written : Numeral.Writes 16 4 (i.destination layout.origin).toNat
      (Numeral.hex 4 (i.destination layout.origin).toNat).toList :=
    Numeral.writes_hex (UInt16.toNat_lt _)
  obtain ⟨front, unmarked, split⟩ := layout.exists_front relative
  have parts := takeApart_marked unmarked written.digits List.takeWhile_nil
  rw [← digits, ← split] at parts
  simp only [readOperand?, parts, digits, written.read?_eq]

theorem readAddress?_line {layout : Layout} (addressed : layout.addresses = true)
    (i : Instruction) :
    readAddress? (layout.line i) = some (i.address layout.origin).toNat := by
  rw [readAddress?, takeWhile_line addressed]
  exact (layout.writes_address i).read?_eq

end Layout

namespace Instruction

theorem displacement_eq (i : Instruction) :
    i.displacement = i.operand.toUInt8.toInt8.toInt := by
  have signed : i.operand.toUInt8.toInt8.toInt = Int.bmod i.operand.toUInt8.toNat 256 :=
    BitVec.toInt_eq_toNat_bmod i.operand.toUInt8.toBitVec
  have low : (i.operand.toUInt8.toNat : Int) = (i.operand.toNat : Int) % (256 : Nat) := by
    simp
  unfold displacement
  rw [signed, low, Int.emod_bmod]

theorem toNat_address (i : Instruction) (origin : UInt16) :
    (i.address origin).toNat = (origin.toNat + i.offset) % 65536 :=
  UInt16.toNat_ofNat'

theorem destination_eq_address_iff (i j : Instruction) (origin : UInt16) :
    (i.destination origin).toNat = (j.address origin).toNat ↔
      (j.offset : Int) ≡ i.next + i.displacement [ZMOD 65536] := by
  have target := i.toNat_destination origin
  have address := j.toNat_address origin
  unfold Int.ModEq
  omega

theorem branchTarget?_relative {i : Instruction} (relative : i.descriptor.mode = .relative)
    (origin : UInt16) : i.branchTarget? origin = some (i.destination origin) :=
  if_pos relative

theorem resolvedText_of_ne {i : Instruction} (other : i.descriptor.mode ≠ .relative)
    (origin : UInt16) : i.resolvedText origin = i.text := by
  have operand (branch branch' : String) : i.operandText branch = i.operandText branch' := by
    unfold operandText
    cases mode : i.descriptor.mode with
    | relative => exact absurd mode other
    | _ => rfl
  unfold resolvedText text
  rw [operand]

end Instruction

namespace Walk

/- The bytes of a walked instruction stand where it says. -/
theorem getElem?_within {buffer : List UInt8} {i : Instruction}
    (walked : i ∈ (start buffer).instructions) {m : Nat} (inside : m < i.length) :
    buffer[i.offset + m]? = i.bytes[m]? := by
  obtain ⟨program, placed, code⟩ := exists_program_of_stop buffer
  rw [placed] at walked
  obtain ⟨k, here⟩ := List.mem_iff_getElem?.mp walked
  rw [Program.getElem?_place, Option.map_eq_some_iff] at here
  obtain ⟨c, at_k, rfl⟩ := here
  have byte := Program.getElem?_encode_within at_k inside
  rw [← code, List.getElem?_take] at byte
  rw [c.bytes_place]
  simp only [Command.place, Nat.zero_add]
  split at byte
  · exact byte
  · have missing := List.getElem?_eq_none_iff.mp byte.symm
    rw [c.length_encode] at missing
    exact absurd inside (Nat.not_lt_of_le missing)

theorem length_of_relative {buffer : List UInt8} {i : Instruction}
    (walked : i ∈ (start buffer).instructions) (relative : i.descriptor.mode = .relative) :
    i.length = 2 := by
  obtain ⟨c, offset, rfl⟩ := exists_place walked
  exact congrArg AddressingMode.length relative

end Walk

namespace Layout

/- Lines show both their address and where their branch leads. -/
def ShowsTargets (layout : Layout) : Prop :=
  layout.addresses = true ∧ layout.branches = .target

/- The operand of `i` is the address of `j`, as their lines print them. -/
def LeadsTo (layout : Layout) (i j : Instruction) : Prop :=
  readOperand? (layout.line i) = readAddress? (layout.line j)

theorem leadsTo_iff {layout : Layout} (shown : layout.ShowsTargets) {i : Instruction}
    (relative : i.descriptor.mode = .relative) (j : Instruction) :
    layout.LeadsTo i j ↔ (j.offset : Int) ≡ i.next + i.displacement [ZMOD 65536] := by
  rw [LeadsTo, readOperand?_line shown.2 relative, readAddress?_line shown.1, Option.some.injEq]
  exact i.destination_eq_address_iff j layout.origin

end Layout

/-- Branches and addresses of a listing. The target printed for a branch is counted from the byte
behind it and wraps, as the addresses do; so it is the address printed in another line just where
the branch leads to that line's place in the buffer, modulo 2^16, whatever the origin. The target
and the place of a branch give its displacement. Other instructions have no target, and resolving
leaves their text alone. -/
theorem branch_targets_meet_addresses (buffer : List UInt8) :
    let run := (Walk.start buffer).instructions
    (∀ i ∈ run, i.descriptor.mode = .relative →
      let goal : Int := i.offset + 2 + i.operand.toUInt8.toInt8.toInt
      buffer[i.offset + 1]? = some i.operand.toUInt8 ∧
      (∀ layout : Layout, layout.branches = .target →
        ∃ target : UInt16, i.branchTarget? layout.origin = some target ∧
          Layout.readOperand? (layout.line i) = some target.toNat ∧
          (target.toNat : Int) = (layout.origin.toNat + goal) % 65536) ∧
      (∀ j ∈ run, ∀ layout : Layout, layout.ShowsTargets →
        Layout.readAddress? (layout.line j) = some ((layout.origin.toNat + j.offset) % 65536) ∧
        (layout.LeadsTo i j ↔ (j.offset : Int) ≡ goal [ZMOD 65536]) ∧
        (buffer.length ≤ 65536 → 0 ≤ goal → goal < buffer.length →
          (layout.LeadsTo i j ↔ (j.offset : Int) = goal)) ∧
        ∀ other : Layout, other.ShowsTargets → (layout.LeadsTo i j ↔ other.LeadsTo i j)) ∧
      ∀ (buffer' : List UInt8) (origin : UInt16), ∀ i' ∈ (Walk.start buffer').instructions,
        i'.descriptor.mode = .relative → i'.offset = i.offset →
        i'.branchTarget? origin = i.branchTarget? origin →
        i'.operand.toUInt8 = i.operand.toUInt8) ∧
    ∀ (i : Instruction) (origin : UInt16), i.descriptor.mode ≠ .relative →
      i.branchTarget? origin = none ∧ i.resolvedText origin = i.text := by
  intro run
  constructor
  · intro i walked relative goal
    have length := Walk.length_of_relative walked relative
    have next : i.next = i.offset + 2 := congrArg (i.offset + ·) length
    have lands : (i.next + i.displacement : Int) = goal := by
      rw [next, i.displacement_eq]
      rfl
    refine ⟨?_, ?_, ?_, ?_⟩
    · have byte := Walk.getElem?_within walked (m := 1) (by omega)
      rw [byte, Instruction.bytes, length]
      rfl
    · intro layout resolved
      have target := i.toNat_destination layout.origin
      refine ⟨_, Instruction.branchTarget?_relative relative layout.origin,
        Layout.readOperand?_line resolved relative, ?_⟩
      rw [target, Int.add_assoc, lands]
    · intro j there layout shown
      have meets := Layout.leadsTo_iff shown relative j
      rw [lands] at meets
      refine ⟨?_, meets, ?_, ?_⟩
      · rw [Layout.readAddress?_line shown.1, j.toNat_address]
      · intro small above below
        have inside := Walk.offset_lt_length buffer there
        rw [meets, Int.ModEq]
        omega
      · intro other other_shown
        have also := Layout.leadsTo_iff other_shown relative j
        rw [lands] at also
        exact meets.trans also.symm
    · intro buffer' origin i' walked' relative' offset same
      have next' : i'.next = i.next := by
        rw [next, ← offset]
        exact congrArg (i'.offset + ·) (Walk.length_of_relative walked' relative')
      rw [Instruction.branchTarget?_relative relative', Instruction.branchTarget?_relative relative,
        Option.some.injEq] at same
      exact Instruction.operand_of_destination next' same
  · intro i origin other
    exact ⟨if_neg other, Instruction.resolvedText_of_ne other origin⟩

/- A loop back to the start of the buffer, over the end of the address space. -/
theorem branch_targets_meet_addresses_wrapped :
    let layout : Layout := { addresses := true, origin := 0xFFFF, branches := .target }
    let head : Instruction := ⟨0, 0xEA, ⟨.nop, .implied⟩, 0, 1⟩
    let loop : Instruction := ⟨1, 0xD0, ⟨.bne, .relative⟩, 0xFD, 2⟩
    (Walk.start [0xEA, 0xD0, 0xFD]).instructions = [head, loop] ∧
      layout.line head = "FFFF nop" ∧ layout.line loop = "0000 bne $ffff" ∧
      layout.LeadsTo loop head := by
  intro layout head loop
  have run : (Walk.start [0xEA, 0xD0, 0xFD]).instructions = [head, loop] := by decide +kernel
  obtain ⟨branches, -⟩ := branch_targets_meet_addresses [0xEA, 0xD0, 0xFD]
  rw [run] at branches
  obtain ⟨-, -, meets, -⟩ := branches loop (by simp) rfl
  obtain ⟨-, leads, -⟩ := meets head (by simp) layout ⟨rfl, rfl⟩
  exact ⟨run, by decide +kernel, by decide +kernel, leads.mpr (by decide)⟩

end Mos6502
