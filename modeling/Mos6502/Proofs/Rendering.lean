import Mos6502.Proofs.Text

/-! What the text of an instruction tells of it. A text is read back into its mnemonic, the form of
its operand and the operand. Illegal opcodes share all three, and a zero page operand has the form
of an absolute one; nothing else is lost. -/
namespace Mos6502

/- How an operand looks. -/
inductive OperandForm where
  | bare
  | accumulator
  | immediate
  | direct
  | directX
  | directY
  | indirect
  | indirectX
  | indirectY
  | branch
deriving DecidableEq, Repr

def AddressingMode.form : AddressingMode → OperandForm
  | .implied => .bare
  | .accumulator => .accumulator
  | .immediate => .immediate
  | .absolute | .zeroPage => .direct
  | .absoluteX | .zeroPageX => .directX
  | .absoluteY | .zeroPageY => .directY
  | .indirect => .indirect
  | .indirectX => .indirectX
  | .indirectY => .indirectY
  | .relative => .branch

/- Digits of an alphabet, so many of them, between punctuation. -/
def Framed (front : String) (width : Nat) (alphabet back : String) (text : List Char) : Prop :=
  ∃ digits : List Char, text = front.toList ++ digits ++ back.toList ∧ digits.length = width ∧
    ∀ c ∈ digits, c ∈ alphabet.toList

namespace OperandForm

def all : List OperandForm :=
  [.bare, .accumulator, .immediate, .direct, .directX, .directY, .indirect, .indirectX, .indirectY,
    .branch]

/- The texts of a form. -/
def Shape : OperandForm → List Char → Prop
  | .bare => (· = [])
  | .accumulator => (· = [' ', 'a'])
  | .immediate => Framed " #$" 4 "0123456789abcdef" ""
  | .direct => Framed " $" 4 "0123456789abcdef" ""
  | .directX => Framed " $" 4 "0123456789abcdef" ",x"
  | .directY => Framed " $" 4 "0123456789abcdef" ",y"
  | .indirect => Framed "($" 4 "0123456789abcdef" ")"
  | .indirectX => Framed " ($" 4 "0123456789abcdef" ",x)"
  | .indirectY => Framed " ($" 4 "0123456789abcdef" "),y"
  | .branch => Framed " $" 8 "01" ""

/- A mode of that form, which stands for all of them where punctuation is concerned. -/
def mode : OperandForm → AddressingMode
  | .bare => .implied
  | .accumulator => .accumulator
  | .immediate => .immediate
  | .direct => .absolute
  | .directX => .absoluteX
  | .directY => .absoluteY
  | .indirect => .indirect
  | .indirectX => .indirectX
  | .indirectY => .indirectY
  | .branch => .relative

def base : OperandForm → Nat
  | .branch => 2
  | _ => 16

def width : OperandForm → Nat
  | .bare | .accumulator => 0
  | .branch => 8
  | _ => 4

def digits (form : OperandForm) (operand : Nat) : List Char :=
  match form with
  | .bare | .accumulator => []
  | .branch => (Numeral.binary 8 operand).toList
  | _ => (Numeral.hex 4 operand).toList

def text (form : OperandForm) (operand : Nat) : List Char :=
  form.mode.lead ++ form.mode.mark ++ form.digits operand ++ form.mode.trail

/- Punctuation and the number of digits tell the forms apart. -/
def ofParts? (lead : List Char) (width : Nat) (trail : List Char) : Option OperandForm :=
  all.find? fun form => form.mode.lead = lead ∧ form.width = width ∧ form.mode.trail = trail

theorem ofParts?_parts (form : OperandForm) :
    ofParts? form.mode.lead form.width form.mode.trail = some form := by
  cases form <;> decide

theorem writes_digits (form : OperandForm) {operand : Nat}
    (fits : operand < form.base ^ form.width) :
    Numeral.Writes form.base form.width operand (form.digits operand) := by
  cases form with
  | bare | accumulator =>
    obtain rfl : operand = 0 := by simpa [base, width] using fits
    exact ⟨rfl, nofun, rfl⟩
  | branch => exact Numeral.writes_binary fits
  | _ => exact Numeral.writes_hex fits

theorem shape_text (form : OperandForm) {operand : Nat}
    (fits : operand < form.base ^ form.width) : form.Shape (form.text operand) := by
  have length := (form.writes_digits fits).length
  cases form with
  | bare | accumulator => rfl
  | branch =>
    refine ⟨(Numeral.binary 8 operand).toList, ?_, length, Numeral.mem_binary fits⟩
    simp [text, digits, mode, AddressingMode.lead, AddressingMode.mark, AddressingMode.trail]
  | _ =>
    refine ⟨(Numeral.hex 4 operand).toList, ?_, length, Numeral.mem_hex fits⟩
    simp [text, digits, mode, AddressingMode.lead, AddressingMode.mark, AddressingMode.trail]

end OperandForm

namespace AddressingMode

/- Modes that only the length of their operand tells apart. -/
def twins : List (AddressingMode × AddressingMode) :=
  [(.zeroPage, .absolute), (.zeroPageX, .absoluteX), (.zeroPageY, .absoluteY)]

def LooksLike (m n : AddressingMode) : Prop :=
  (m, n) ∈ twins ∨ (n, m) ∈ twins

instance (m n : AddressingMode) : Decidable (m.LooksLike n) :=
  inferInstanceAs (Decidable ((m, n) ∈ twins ∨ (n, m) ∈ twins))

theorem form_eq_iff (m n : AddressingMode) : m.form = n.form ↔ m = n ∨ m.LooksLike n := by
  have checked : ∀ m ∈ all, ∀ n ∈ all, m.form = n.form ↔ m = n ∨ m.LooksLike n := by decide
  exact checked m m.mem_all n n.mem_all

end AddressingMode

/- What a text tells. -/
structure Reading where
  mnemonic : Mnemonic
  form : OperandForm
  operand : Nat
deriving DecidableEq, Repr

def Instruction.reading (i : Instruction) : Reading :=
  ⟨i.descriptor.mnemonic, i.descriptor.mode.form, i.operand.toNat⟩

/- The first mnemonic with that name. -/
def Mnemonic.ofText? (text : List Char) : Option Mnemonic :=
  all.find? fun mnemonic => mnemonic.text.toList = text

namespace Reading

/- The mnemonic has three letters. The operand is taken apart, and its parts give the form. -/
def ofText? (text : String) : Option Reading := do
  let mnemonic ← Mnemonic.ofText? (text.toList.take 3)
  let (lead, digits, trail) := takeApart (text.toList.drop 3)
  let form ← OperandForm.ofParts? lead digits.length trail
  return ⟨mnemonic, form, Numeral.value form.base digits⟩

end Reading

theorem Mnemonic.ofText?_text (mnemonic : Mnemonic) :
    ofText? mnemonic.text.toList = some mnemonic := by
  have checked : ∀ m ∈ all, ofText? m.text.toList = some m := by decide +kernel
  exact checked mnemonic mnemonic.mem_all

theorem Mnemonic.isLower_text (mnemonic : Mnemonic) :
    ∀ c ∈ mnemonic.text.toList, c.isLower = true := by
  have checked : ∀ m ∈ all, m.text.toList.all Char.isLower = true := by decide +kernel
  exact List.all_eq_true.mp (checked mnemonic mnemonic.mem_all)

theorem AddressingMode.punctuation_form (m : AddressingMode) :
    m.form.mode.lead = m.lead ∧ m.form.mode.mark = m.mark ∧ m.form.mode.trail = m.trail := by
  cases m <;> exact ⟨rfl, rfl, rfl⟩

namespace Instruction

theorem digits_form (i : Instruction) :
    i.digits (Numeral.binary 8 i.operand.toNat) =
      i.descriptor.mode.form.digits i.operand.toNat := by
  unfold digits
  cases i.descriptor.mode <;> rfl

/-- A text shows the reading of its instruction and nothing else. -/
theorem toList_text (i : Instruction) :
    i.text.toList = i.reading.mnemonic.text.toList ++ i.reading.form.text i.reading.operand := by
  obtain ⟨lead, mark, trail⟩ := i.descriptor.mode.punctuation_form
  rw [text, String.toList_append, i.toList_operandText, i.digits_form]
  simp only [reading, OperandForm.text, lead, mark, trail]

end Instruction

namespace Command

def reading (c : Command) : Reading :=
  ⟨c.descriptor.mnemonic, c.descriptor.mode.form, c.operand.toNat⟩

@[simp] theorem reading_place (c : Command) (offset : Nat) : (c.place offset).reading = c.reading :=
  rfl

theorem operand_fits (c : Command) :
    c.operand.toNat < c.reading.form.base ^ c.reading.form.width := by
  have word : c.operand.toNat < 16 ^ 4 := c.operand.toNat_lt
  have fits := c.fits
  rw [← descriptor] at fits
  simp only [reading]
  cases mode : c.descriptor.mode with
  | relative => exact c.operand_lt_of_relative mode
  | implied | accumulator =>
    rw [mode] at fits
    exact fits
  | _ => exact word

/-- A text is read back. -/
theorem ofText?_text (c : Command) (offset : Nat) :
    Reading.ofText? (c.place offset).text = some c.reading := by
  have written := c.reading.form.writes_digits c.operand_fits
  obtain ⟨lead, -, trail⟩ := c.descriptor.mode.punctuation_form
  have parts := takeApart_operandText (c.place offset) _ (c.isDigit_branchText {} offset)
  have digits := (c.place offset).digits_form
  have name : (c.place offset).descriptor.mnemonic.text.toList.length = 3 := Mnemonic.length_text _
  have front : (c.place offset).text.toList.take 3 = c.reading.mnemonic.text.toList := by
    rw [Instruction.text, String.toList_append]
    exact List.take_left' name
  have back : takeApart ((c.place offset).text.toList.drop 3) =
      (c.reading.form.mode.lead, c.reading.form.digits c.operand.toNat,
        c.reading.form.mode.trail) := by
    rw [Instruction.text, String.toList_append, List.drop_left' name]
    refine parts.trans ?_
    simp only [reading, lead, trail]
    exact congrArg (fun text => (_, text, _)) digits
  simp only [Reading.ofText?, front, back, Mnemonic.ofText?_text, written.length,
    OperandForm.ofParts?_parts, Option.bind_eq_bind, Option.bind_some, written.value]
  rfl

theorem text_eq_iff (c d : Command) (m n : Nat) :
    (c.place m).text = (d.place n).text ↔ c.reading = d.reading := by
  constructor
  · intro same
    have read := c.ofText?_text m
    rw [same, d.ofText?_text n] at read
    exact (Option.some.inj read).symm
  · intro same
    apply String.toList_inj.mp
    simp only [Instruction.toList_text, reading_place, same]

theorem reading_of_isIllegal {c : Command} (unofficial : c.descriptor.isIllegal = true) :
    c.reading = ⟨.illegal, .bare, 0⟩ := by
  have table : c.descriptor = .illegal := Descriptor.ofOpcode_of_isIllegal c.opcode unofficial
  have none : c.operand = 0 := c.operand_eq_zero (by rw [table]; rfl)
  simp only [reading, table, none]
  rfl

/- Two commands with one reading. -/
theorem reading_eq_iff (c d : Command) :
    c.reading = d.reading ↔
      c.descriptor.isIllegal = true ∧ d.descriptor.isIllegal = true ∨
      c.opcode = d.opcode ∧ c.operand = d.operand ∨
      c.descriptor.mnemonic = d.descriptor.mnemonic ∧ c.operand = d.operand ∧
        c.descriptor.mode.LooksLike d.descriptor.mode := by
  constructor
  · intro same
    obtain ⟨mnemonic, form, value⟩ := Reading.mk.inj same
    have operand : c.operand = d.operand := UInt16.toNat_inj.mp value
    cases legal : c.descriptor.isIllegal with
    | true =>
      refine .inl ⟨rfl, ?_⟩
      rwa [Descriptor.isIllegal, ← mnemonic]
    | false =>
      right
      rcases (AddressingMode.form_eq_iff _ _).mp form with mode | alike
      · have descriptors : c.descriptor = d.descriptor := by
          change Descriptor.mk c.descriptor.mnemonic c.descriptor.mode = _
          rw [mnemonic, mode]
        exact .inl ⟨Descriptor.ofOpcode_injective legal descriptors, operand⟩
      · exact .inr ⟨mnemonic, operand, alike⟩
  · rintro (⟨c_illegal, d_illegal⟩ | ⟨opcode, operand⟩ | ⟨mnemonic, operand, alike⟩)
    · rw [reading_of_isIllegal c_illegal, reading_of_isIllegal d_illegal]
    · simp only [reading, descriptor, opcode, operand]
    · have form := (AddressingMode.form_eq_iff _ _).mpr (.inr alike)
      simp only [reading, mnemonic, form, operand]

end Command

/-- Texts of decoded instructions. Two are equal only where both instructions are illegal, or have
the same opcode and operand, or the same mnemonic and operand in a zero page and an absolute mode.
Each is three lower case letters and an operand in the shape of its form, and is read back into
mnemonic, form and operand. -/
theorem text_loses_little (buffer : List UInt8) (offset : Nat) (i : Instruction)
    (decoded : Instruction.decode buffer offset = .ok i) :
    (∀ (buffer' : List UInt8) (offset' : Nat) (j : Instruction),
      Instruction.decode buffer' offset' = .ok j →
        (i.text = j.text ↔
          i.descriptor.isIllegal = true ∧ j.descriptor.isIllegal = true ∨
          i.opcode = j.opcode ∧ i.operand = j.operand ∨
          i.descriptor.mnemonic = j.descriptor.mnemonic ∧ i.operand = j.operand ∧
            i.descriptor.mode.LooksLike j.descriptor.mode)) ∧
    Reading.ofText? i.text =
      some ⟨i.descriptor.mnemonic, i.descriptor.mode.form, i.operand.toNat⟩ ∧
    ∃ name operand : List Char, i.text.toList = name ++ operand ∧
      name = i.descriptor.mnemonic.text.toList ∧ name.length = 3 ∧
      (∀ c ∈ name, c.isLower = true) ∧ i.descriptor.mode.form.Shape operand := by
  obtain ⟨c, rfl⟩ := Instruction.exists_command decoded
  refine ⟨?_, c.ofText?_text offset, ?_⟩
  · intro buffer' offset' j decoded'
    obtain ⟨d, rfl⟩ := Instruction.exists_command decoded'
    exact (c.text_eq_iff d offset offset').trans (c.reading_eq_iff d)
  · exact ⟨_, _, (c.place offset).toList_text, rfl, Mnemonic.length_text _,
      Mnemonic.isLower_text _, OperandForm.shape_text _ c.operand_fits⟩

/- A zero page operand and an absolute one, at different places. -/
theorem text_loses_little_twins :
    let short : Instruction := ⟨0, 0xA5, ⟨.lda, .zeroPage⟩, 0x10, 2⟩
    let long : Instruction := ⟨1, 0xAD, ⟨.lda, .absolute⟩, 0x10, 3⟩
    Instruction.decode [0xA5, 0x10] 0 = .ok short ∧
      Instruction.decode [0xEA, 0xAD, 0x10, 0x00] 1 = .ok long ∧ short.text = long.text ∧
      Reading.ofText? short.text = some ⟨.lda, .direct, 0x10⟩ := by
  intro short long
  have first : Instruction.decode [0xA5, 0x10] 0 = .ok short := by decide +kernel
  have second : Instruction.decode [0xEA, 0xAD, 0x10, 0x00] 1 = .ok long := by decide +kernel
  obtain ⟨equal, read, -⟩ := text_loses_little _ _ _ first
  refine ⟨first, second, ?_, read⟩
  exact (equal _ _ _ second).mpr (.inr (.inr ⟨rfl, rfl, by decide⟩))

end Mos6502
