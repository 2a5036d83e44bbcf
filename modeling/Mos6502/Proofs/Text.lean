import Mos6502.Layout
import Mos6502.Proofs.Descriptor
import Mos6502.Proofs.Numeral
import Mos6502.Proofs.Program

/-! Assembly text read back. An operand is written as digits between punctuation, and each of the
two can be told from the other, so a text gives its mnemonic, its punctuation and its digits. -/
namespace Mos6502

namespace AddressingMode

/- In front of the digits' mark. -/
def lead : AddressingMode → List Char
  | .accumulator => [' ', 'a']
  | .implied => []
  | .immediate => [' ', '#']
  | .indirect => ['(']
  | .indirectX | .indirectY => [' ', '(']
  | .absolute | .zeroPage | .absoluteX | .zeroPageX | .absoluteY | .zeroPageY | .relative => [' ']

def mark : AddressingMode → List Char
  | .accumulator | .implied => []
  | _ => ['$']

/- Behind the digits. -/
def trail : AddressingMode → List Char
  | .absoluteX | .zeroPageX => [',', 'x']
  | .absoluteY | .zeroPageY => [',', 'y']
  | .indirect => [')']
  | .indirectX => [',', 'x', ')']
  | .indirectY => [')', ',', 'y']
  | _ => []

end AddressingMode

namespace Instruction

/- The digits of the operand, with `branch` for those of a relative one. -/
def digits (i : Instruction) (branch : String) : List Char :=
  match i.descriptor.mode with
  | .accumulator | .implied => []
  | .relative => branch.toList
  | _ => (Numeral.hex 4 i.operand.toNat).toList

theorem toList_operandText (i : Instruction) (branch : String) :
    (i.operandText branch).toList =
      i.descriptor.mode.lead ++ i.descriptor.mode.mark ++ i.digits branch ++
        i.descriptor.mode.trail := by
  unfold operandText digits
  cases i.descriptor.mode <;>
    simp [AddressingMode.lead, AddressingMode.mark, AddressingMode.trail]

theorem isDigit_digits (i : Instruction) (branch : String)
    (numeral : i.descriptor.mode = .relative → ∀ c ∈ branch.toList, Numeral.isDigit c = true) :
    ∀ c ∈ i.digits branch, Numeral.isDigit c = true := by
  have word : ∀ c ∈ (Numeral.hex 4 i.operand.toNat).toList, Numeral.isDigit c = true :=
    (Numeral.writes_hex i.operand.toNat_lt).digits
  unfold digits
  split
  · exact nofun
  · exact nofun
  · rename_i relative
    exact numeral relative
  · exact word

end Instruction

/- Takes an operand text apart: in front of the mark, the digits behind it, and what follows. -/
def takeApart (text : List Char) : List Char × List Char × List Char :=
  let marked := text.dropWhile (· != '$')
  (text.takeWhile (· != '$'), marked.tail.takeWhile Numeral.isDigit,
    marked.tail.dropWhile Numeral.isDigit)

theorem takeApart_marked {lead digits trail : List Char} (unmarked : ∀ c ∈ lead, (c != '$') = true)
    (numeral : ∀ c ∈ digits, Numeral.isDigit c = true)
    (ends : trail.takeWhile Numeral.isDigit = []) :
    takeApart (lead ++ '$' :: (digits ++ trail)) = (lead, digits, trail) := by
  have rest : trail.dropWhile Numeral.isDigit = trail := by
    have whole := List.takeWhile_append_dropWhile (p := Numeral.isDigit) (l := trail)
    rwa [ends, List.nil_append] at whole
  rw [takeApart, List.takeWhile_append_of_pos unmarked, List.dropWhile_append_of_pos unmarked]
  simp [List.takeWhile_append_of_pos numeral, List.dropWhile_append_of_pos numeral, ends, rest]

theorem takeApart_operandText (i : Instruction) (branch : String)
    (numeral : i.descriptor.mode = .relative → ∀ c ∈ branch.toList, Numeral.isDigit c = true) :
    takeApart (i.operandText branch).toList =
      (i.descriptor.mode.lead, i.digits branch, i.descriptor.mode.trail) := by
  have digits := i.isDigit_digits branch numeral
  have unmarked : ∀ m : AddressingMode, ∀ c ∈ m.lead, (c != '$') = true := by
    intro m
    cases m <;> simp [AddressingMode.lead]
  have ends : ∀ m : AddressingMode, m.trail.takeWhile Numeral.isDigit = [] := by
    intro m
    cases m <;> decide
  rw [i.toList_operandText]
  by_cases bare : i.descriptor.mode = .accumulator ∨ i.descriptor.mode = .implied
  · rcases bare with mode | mode <;> simp only [Instruction.digits, mode] <;> rfl
  · have mark : i.descriptor.mode.mark = ['$'] := by
      cases mode : i.descriptor.mode <;> simp_all [AddressingMode.mark]
    rw [mark, List.append_assoc, List.append_assoc]
    exact takeApart_marked (unmarked _) digits (ends _)

/- Zero page and absolute operands look alike, and so do resolved branches. The number of bytes, and
whether it is a branch, tell them apart. -/
theorem AddressingMode.eq_of_punctuation {m n : AddressingMode} (lead : m.lead = n.lead)
    (trail : m.trail = n.trail) (size : m.operandSize = n.operandSize)
    (branch : m = .relative ↔ n = .relative) : m = n := by
  have checked : ∀ m ∈ all, ∀ n ∈ all, m.lead = n.lead → m.trail = n.trail →
      m.operandSize = n.operandSize → (m = .relative ↔ n = .relative) → m = n := by decide
  exact checked m m.mem_all n n.mem_all lead trail size branch

namespace Instruction

theorem toNat_destination (i : Instruction) (origin : UInt16) :
    ((i.destination origin).toNat : Int) =
      (origin.toNat + i.next + i.displacement) % 65536 := by
  rw [destination, UInt16.ofInt, UInt16.toNat_ofNat']
  omega

theorem displacement_emod (i : Instruction) :
    i.displacement % 256 = (i.operand.toNat : Int) % 256 :=
  Int.bmod_emod

/- Displacements differ by less than the addresses take to wrap. -/
theorem operand_of_destination {i j : Instruction} {origin : UInt16} (next : i.next = j.next)
    (same : i.destination origin = j.destination origin) :
    i.operand.toUInt8 = j.operand.toUInt8 := by
  have i_target := i.toNat_destination origin
  have j_target := j.toNat_destination origin
  have i_low := i.displacement_emod
  have j_low := j.displacement_emod
  apply UInt8.toNat_inj.mp
  rw [same, next] at i_target
  simp only [UInt16.toNat_toUInt8]
  omega

end Instruction

namespace Layout

/- The digits of a relative branch. -/
def branchText (layout : Layout) (i : Instruction) : String :=
  match layout.branches with
  | .binary => Numeral.binary 8 i.operand.toNat
  | .target => Numeral.hex 4 (i.destination layout.origin).toNat

theorem assembly_eq (layout : Layout) (i : Instruction) :
    layout.assembly i = i.descriptor.mnemonic.text ++ i.operandText (layout.branchText i) := by
  unfold assembly branchText
  cases layout.branches <;> rfl

end Layout

namespace Command

theorem operand_eq_zero (c : Command) (size : c.descriptor.mode.operandSize = 0) :
    c.operand = 0 := by
  have fits := c.fits
  rw [← descriptor, size] at fits
  exact UInt16.toNat_inj.mp (Nat.lt_one_iff.mp fits)

theorem operand_lt_of_relative (c : Command) (relative : c.descriptor.mode = .relative) :
    c.operand.toNat < 256 := by
  have fits := c.fits
  rw [← descriptor, relative] at fits
  exact fits

theorem isDigit_branchText (c : Command) (layout : Layout) (offset : Nat)
    (relative : c.descriptor.mode = .relative) :
    ∀ x ∈ (layout.branchText (c.place offset)).toList, Numeral.isDigit x = true := by
  unfold Layout.branchText
  cases layout.branches with
  | binary => exact (Numeral.writes_binary (c.operand_lt_of_relative relative)).digits
  | target => exact (Numeral.writes_hex (UInt16.toNat_lt _)).digits

/- The target of a branch fixes its displacement, although both are taken modulo a power of two. -/
theorem operand_eq_of_destination {c d : Command} {offset : Nat} {origin : UInt16}
    (c_small : c.operand.toNat < 256) (d_small : d.operand.toNat < 256)
    (length : c.length = d.length)
    (same : (c.place offset).destination origin = (d.place offset).destination origin) :
    c.operand = d.operand := by
  have next : (c.place offset).next = (d.place offset).next := congrArg (offset + ·) length
  have low := congrArg UInt8.toNat (Instruction.operand_of_destination next same)
  apply UInt16.toNat_inj.mp
  simp only [UInt16.toNat_toUInt8, place] at low
  omega

theorem operand_eq_of_branchText {c d : Command} {layout : Layout} {offset : Nat}
    (c_relative : c.descriptor.mode = .relative) (d_relative : d.descriptor.mode = .relative)
    (length : c.length = d.length)
    (same : layout.branchText (c.place offset) = layout.branchText (d.place offset)) :
    c.operand = d.operand := by
  have c_small := c.operand_lt_of_relative c_relative
  have d_small := d.operand_lt_of_relative d_relative
  unfold Layout.branchText at same
  split at same
  · exact UInt16.toNat_inj.mp (Numeral.binary_injective c_small d_small same)
  · have target := Numeral.hex_injective (UInt16.toNat_lt _) (UInt16.toNat_lt _) same
    exact operand_eq_of_destination c_small d_small length (UInt16.toNat_inj.mp target)

theorem operand_eq_of_digits {c d : Command} {layout : Layout} {offset : Nat}
    (mode : c.descriptor.mode = d.descriptor.mode)
    (same : (c.place offset).digits (layout.branchText (c.place offset)) =
      (d.place offset).digits (layout.branchText (d.place offset))) : c.operand = d.operand := by
  have length : c.length = d.length := congrArg AddressingMode.length mode
  simp only [Instruction.digits, place, mode] at same
  split at same
  · rename_i bare
    rw [c.operand_eq_zero (by rw [mode, bare]; rfl), d.operand_eq_zero (by rw [bare]; rfl)]
  · rename_i bare
    rw [c.operand_eq_zero (by rw [mode, bare]; rfl), d.operand_eq_zero (by rw [bare]; rfl)]
  · rename_i relative
    exact operand_eq_of_branchText (mode.trans relative) relative length (String.toList_inj.mp same)
  · have word := Numeral.hex_injective c.operand.toNat_lt d.operand.toNat_lt
      (String.toList_inj.mp same)
    exact UInt16.toNat_inj.mp word

/-- The text and the number of bytes determine a command, except that all illegal opcodes look
alike. -/
theorem eq_or_illegal {c d : Command} {layout : Layout} {offset : Nat}
    (length : c.length = d.length)
    (same : layout.assembly (c.place offset) = layout.assembly (d.place offset)) :
    c = d ∨ c.descriptor.isIllegal = true ∧ d.descriptor.isIllegal = true := by
  rw [layout.assembly_eq, layout.assembly_eq, ← String.toList_inj, String.toList_append,
    String.toList_append] at same
  have three : (c.place offset).descriptor.mnemonic.text.toList.length =
      (d.place offset).descriptor.mnemonic.text.toList.length := by
    rw [Mnemonic.length_text, Mnemonic.length_text]
  obtain ⟨text, operand⟩ := List.append_inj same three
  have mnemonic : c.descriptor.mnemonic = d.descriptor.mnemonic :=
    Mnemonic.text_injective (String.toList_inj.mp text)
  have parts := congrArg takeApart operand
  rw [takeApart_operandText _ _ (c.isDigit_branchText layout offset),
    takeApart_operandText _ _ (d.isDigit_branchText layout offset)] at parts
  obtain ⟨lead, rest⟩ := Prod.mk.inj parts
  obtain ⟨digits, trail⟩ := Prod.mk.inj rest
  have branch : c.descriptor.mode = .relative ↔ d.descriptor.mode = .relative := by
    rw [descriptor, descriptor, Descriptor.relative_iff_isBranch, Descriptor.relative_iff_isBranch,
      ← descriptor, ← descriptor, mnemonic]
  have mode : c.descriptor.mode = d.descriptor.mode :=
    AddressingMode.eq_of_punctuation lead trail (Nat.succ.inj length) branch
  have descriptors : c.descriptor = d.descriptor := by
    change Descriptor.mk c.descriptor.mnemonic c.descriptor.mode = _
    rw [mnemonic, mode]
  cases legal : c.descriptor.isIllegal with
  | true => exact .inr ⟨rfl, descriptors ▸ legal⟩
  | false =>
    exact .inl (Command.ext (Descriptor.ofOpcode_injective legal descriptors)
      (operand_eq_of_digits mode digits))

end Command

end Mos6502
