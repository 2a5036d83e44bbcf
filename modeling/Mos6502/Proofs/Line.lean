import Mos6502.Proofs.Listing
import Mos6502.Proofs.Text

/-! Lines of a listing. A line holds no line break, so a listing falls back into its lines; and its
columns have fixed widths, so a line falls back into its columns. -/
namespace Mos6502

/- No control characters: neither a line break nor the start of a terminal's mark. -/
def Printable (text : List Char) : Prop :=
  ∀ c ∈ text, ' '.toNat ≤ c.toNat

instance (text : List Char) : Decidable (Printable text) :=
  List.decidableBAll _ text

@[simp] theorem printable_append {front back : List Char} :
    Printable (front ++ back) ↔ Printable front ∧ Printable back :=
  List.forall_mem_append

theorem Printable.not_mem {text : List Char} (printable : Printable text) {mark : Char}
    (control : mark.toNat < ' '.toNat) : mark ∉ text := by
  intro member
  exact Nat.not_le_of_lt control (printable mark member)

theorem printable_of_digits {text : List Char}
    (digits : ∀ c ∈ text, Numeral.isDigit c = true) : Printable text := by
  have checked : ∀ d < 16, ' '.toNat ≤ d.digitChar.toNat ∧
      ' '.toNat ≤ d.digitChar.toUpper.toNat := by decide
  intro c member
  obtain ⟨d, read⟩ := Option.isSome_iff_exists.mp (digits c member)
  obtain ⟨small, rfl | rfl⟩ := (Numeral.digit?_eq_some_iff c d).mp read
  · exact (checked d small).1
  · exact (checked d small).2

namespace Instruction

theorem printable_operandText (i : Instruction) (branch : String)
    (numeral : i.descriptor.mode = .relative → ∀ c ∈ branch.toList, Numeral.isDigit c = true) :
    Printable (i.operandText branch).toList := by
  have punctuation : ∀ m : AddressingMode, Printable (m.lead ++ m.mark) ∧ Printable m.trail := by
    intro m
    cases m <;> decide
  obtain ⟨front, trail⟩ := punctuation i.descriptor.mode
  have digits := printable_of_digits (i.isDigit_digits branch numeral)
  rw [i.toList_operandText]
  exact printable_append.mpr ⟨printable_append.mpr ⟨front, digits⟩, trail⟩

end Instruction

theorem Instruction.length_bytes_le (i : Instruction) : i.bytes.length ≤ 3 :=
  List.length_take_le' ..

namespace Layout

theorem writes_upperHex_byte (byte : UInt8) :
    Numeral.Writes 16 2 byte.toNat (Numeral.upperHex 2 byte.toNat).toList :=
  Numeral.writes_upperHex byte.toNat_lt

theorem toList_byteField (bytes : List UInt8) :
    (byteField bytes).toList =
      (bytes.flatMap fun byte => (Numeral.upperHex 2 byte.toNat).toList ++ [' ']).rightpad 9 ' ' :=
  String.toList_ofList

theorem length_flatMap_digits (bytes : List UInt8) :
    (bytes.flatMap fun byte => (Numeral.upperHex 2 byte.toNat).toList ++ [' ']).length =
      3 * bytes.length := by
  induction bytes with
  | nil => rfl
  | cons byte bytes ih =>
    have digits := (writes_upperHex_byte byte).length
    simp only [List.flatMap_cons, List.length_append, List.length_cons, List.length_nil, digits, ih]
    omega

theorem length_byteField (bytes : List UInt8) (short : bytes.length ≤ 3) :
    (byteField bytes).toList.length = 9 := by
  rw [toList_byteField, List.length_rightpad, length_flatMap_digits]
  omega

/- The byte column holds nothing but digits and blanks. -/
theorem mem_byteField {bytes : List UInt8} {c : Char} (member : c ∈ (byteField bytes).toList) :
    Numeral.isDigit c = true ∨ c = ' ' := by
  rw [toList_byteField, List.rightpad, List.mem_append] at member
  rcases member with member | member
  · obtain ⟨byte, -, member⟩ := List.mem_flatMap.mp member
    rcases List.mem_append.mp member with member | member
    · exact .inl ((writes_upperHex_byte byte).digits c member)
    · exact .inr (List.mem_singleton.mp member)
  · exact .inr (List.eq_of_mem_replicate member)

theorem printable_byteField (bytes : List UInt8) : Printable (byteField bytes).toList := by
  intro c member
  rcases mem_byteField member with digit | rfl
  · exact printable_of_digits (List.forall_mem_singleton.mpr digit) c (List.mem_singleton_self c)
  · decide

theorem writes_address (layout : Layout) (i : Instruction) :
    Numeral.Writes 16 4 (i.address layout.origin).toNat
      (Numeral.upperHex 4 (i.address layout.origin).toNat).toList :=
  Numeral.writes_upperHex (UInt16.toNat_lt _)

theorem length_addressField (layout : Layout) (i : Instruction) :
    (layout.addressField i).toList.length = 5 := by
  rw [addressField, String.toList_append, List.length_append, (layout.writes_address i).length]
  rfl

theorem printable_addressField (layout : Layout) (i : Instruction) :
    Printable (layout.addressField i).toList := by
  rw [addressField, String.toList_append]
  exact printable_append.mpr ⟨printable_of_digits (layout.writes_address i).digits, by decide⟩

theorem printable_assembly (layout : Layout) (c : Command) (offset : Nat) :
    Printable (layout.assembly (c.place offset)).toList := by
  have mnemonics : ∀ m ∈ Mnemonic.all, Printable m.text.toList := by decide +kernel
  rw [layout.assembly_eq, String.toList_append]
  apply printable_append.mpr
  constructor
  · exact mnemonics _ (Mnemonic.mem_all _)
  · exact (c.place offset).printable_operandText _ (c.isDigit_branchText layout offset)

theorem printable_line (layout : Layout) (c : Command) (offset : Nat) :
    Printable (layout.line (c.place offset)).toList := by
  rw [line, String.toList_append, String.toList_append]
  refine printable_append.mpr ⟨printable_append.mpr ⟨?_, ?_⟩, layout.printable_assembly c offset⟩
  · split
    · exact layout.printable_addressField _
    · exact nofun
  · split
    · exact printable_byteField _
    · exact nofun

/- The address stands in front of the first blank. -/
theorem takeWhile_line {layout : Layout} (addressed : layout.addresses = true) (i : Instruction) :
    (layout.line i).toList.takeWhile (· != ' ') =
      (Numeral.upperHex 4 (i.address layout.origin).toNat).toList := by
  have inked : ∀ c ∈ (Numeral.upperHex 4 (i.address layout.origin).toNat).toList,
      (c != ' ') = true := by
    intro c member
    exact Numeral.isDigit_ne ((layout.writes_address i).digits c member) (by decide)
  simp only [line, if_pos addressed, addressField, String.toList_append, List.append_assoc,
    List.takeWhile_append_of_pos inked]
  simp

theorem address_of_addressField {layout : Layout} {i j : Instruction}
    (same : layout.addressField i = layout.addressField j) :
    i.address layout.origin = j.address layout.origin := by
  have digits := (String.append_left_inj " ").mp same
  exact UInt16.toNat_inj.mp
    (Numeral.upperHex_injective (UInt16.toNat_lt _) (UInt16.toNat_lt _) digits)

/- Equal lines agree column by column. -/
theorem columns_of_line {layout : Layout} (addressed : layout.addresses = true) {i j : Instruction}
    (same : layout.line i = layout.line j) :
    i.address layout.origin = j.address layout.origin ∧ layout.assembly i = layout.assembly j := by
  have column (k : Instruction) :
      (if layout.bytes then byteField k.bytes else "").toList.length =
        if layout.bytes then 9 else 0 := by
    split
    · exact length_byteField _ k.length_bytes_le
    · rfl
  rw [line, line, if_pos addressed, if_pos addressed, ← String.toList_inj] at same
  simp only [String.toList_append] at same
  obtain ⟨front, assembly⟩ := List.append_inj same (by
    rw [List.length_append, List.length_append, length_addressField, length_addressField, column,
      column])
  obtain ⟨address, -⟩ := List.append_inj front (by
    rw [length_addressField, length_addressField])
  exact ⟨address_of_addressField (String.toList_inj.mp address), String.toList_inj.mp assembly⟩

end Layout

/- The lines of a text, each ended by a line break. -/
def lines (text : String) : List String :=
  (text.toList.splitOn '\n').dropLast.map String.ofList

theorem splitOn_flatMap_newline {xs : List (List Char)} (free : ∀ x ∈ xs, '\n' ∉ x) :
    (xs.flatMap (· ++ ['\n'])).splitOn '\n' = xs ++ [[]] := by
  induction xs with
  | nil => rfl
  | cons x xs ih =>
    obtain ⟨first, rest⟩ := List.forall_mem_cons.mp free
    have single : x.splitOnP (· == '\n') = [x] := by
      apply List.splitOnP_eq_singleton
      intro c member
      exact beq_false_of_ne fun newline => first (newline ▸ member)
    have behind := ih rest
    rw [List.splitOn_eq_splitOnP] at behind ⊢
    simp only [List.flatMap_cons, List.append_assoc, List.singleton_append]
    rw [List.splitOnP_append_cons _ _ (by decide), single, behind]
    rfl

theorem toList_join_newline (texts : List String) :
    (String.join (texts.map (· ++ "\n"))).toList =
      (texts.map String.toList).flatMap (· ++ ['\n']) := by
  rw [String.toList_join, List.flatMap_map, List.flatMap_map]
  simp only [String.toList_append]
  rfl

/-- Texts written one below the other fall back into themselves. -/
theorem lines_join {texts : List String} (free : ∀ text ∈ texts, '\n' ∉ text.toList) :
    lines (String.join (texts.map (· ++ "\n"))) = texts := by
  have parts : ∀ x ∈ texts.map String.toList, '\n' ∉ x := by simpa using free
  rw [lines, toList_join_newline, splitOn_flatMap_newline parts, List.dropLast_concat, List.map_map]
  simp only [Function.comp_def, String.ofList_toList, List.map_id']

theorem Layout.text_eq_join (layout : Layout) (run : List Instruction) :
    layout.text run = String.join ((run.map layout.line).map (· ++ "\n")) := by
  rw [text, List.map_map]
  rfl

theorem Layout.toList_text (layout : Layout) (run : List Instruction) :
    (layout.text run).toList =
      (run.map fun i => (layout.line i).toList).flatMap (· ++ ['\n']) := by
  rw [text_eq_join, toList_join_newline, List.map_map]
  rfl

/-- A listing of code falls back into its lines. -/
theorem Layout.lines_text (layout : Layout) (offset : Nat) (program : List Command) :
    lines (layout.text (Program.place offset program)) =
      (Program.place offset program).map layout.line := by
  rw [text_eq_join]
  apply lines_join
  intro line member
  obtain ⟨i, placed, rfl⟩ := List.mem_map.mp member
  obtain ⟨c, -, start, rfl⟩ := Program.exists_of_mem_place placed
  exact (layout.printable_line c start).not_mem (by decide)

theorem Layout.lines_listing (layout : Layout) (buffer : List UInt8) :
    lines (layout.text (Walk.start buffer).instructions) =
      (Walk.start buffer).instructions.map layout.line := by
  obtain ⟨d, rfl⟩ := Dissection.exists_bytes buffer
  rw [Walk.start, d.instructions_bytes]
  exact layout.lines_text 0 d.program

theorem Layout.text_listing (layout : Layout) (buffer : List UInt8) :
    layout.text (Walk.start buffer).instructions =
      String.join ((lines (layout.text (Walk.start buffer).instructions)).map (· ++ "\n")) := by
  rw [layout.lines_listing, ← layout.text_eq_join]

theorem Layout.lines_of_text {layout : Layout} {offset : Nat} {p q : List Command}
    (same : layout.text (Program.place offset p) = layout.text (Program.place offset q)) :
    (Program.place offset p).map layout.line = (Program.place offset q).map layout.line := by
  rw [← layout.lines_text, ← layout.lines_text, same]

end Mos6502
