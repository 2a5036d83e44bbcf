import Mos6502.Proofs.Composition
import Mos6502.Proofs.Line

/-! The byte column read back. It holds two digits for each byte with one blank between two bytes,
and blanks behind the last; so the columns of a listing give the buffer again, as far as it was
walked. -/
namespace Mos6502

/- Letters count in upper case only. -/
def Numeral.upperDigit? (c : Char) : Option Nat :=
  if c.isLower then none else Address.digit? c

namespace Layout

def readByte? (high low : Char) : Option UInt8 := do
  return UInt8.ofNat (16 * (← Numeral.upperDigit? high) + (← Numeral.upperDigit? low))

/- Bytes of two digits, each with a blank behind it, and nothing but blanks behind all of them. -/
def readColumn? (column : List Char) : Option (List UInt8) :=
  if column.all (· == ' ') then some []
  else
    match column with
    | high :: low :: ' ' :: rest => do return (← readByte? high low) :: (← readColumn? rest)
    | _ => none

def addressWidth (layout : Layout) : Nat :=
  if layout.addresses then 5 else 0

/- The bytes that a line shows. -/
def readLine? (layout : Layout) (line : String) : Option (List UInt8) :=
  readColumn? ((line.toList.drop layout.addressWidth).take 9)

/- A line without its columns. -/
def bare (layout : Layout) : Layout :=
  { layout with addresses := false, bytes := false }

theorem upperDigit?_toUpper : ∀ d < 16, Numeral.upperDigit? d.digitChar.toUpper = some d := by
  decide

theorem exists_upperHex_byte (byte : UInt8) :
    ∃ high low, (Numeral.upperHex 2 byte.toNat).toList = [high, low] ∧
      readByte? high low = some byte := by
  have bound := byte.toNat_lt
  have nothing : byte.toNat / 16 / 16 = 0 := by omega
  have high := upperDigit?_toUpper (byte.toNat / 16 % 16) (by omega)
  have low := upperDigit?_toUpper (byte.toNat % 16) (by omega)
  have whole : 16 * (byte.toNat / 16 % 16) + byte.toNat % 16 = byte.toNat := by omega
  refine ⟨(byte.toNat / 16 % 16).digitChar.toUpper, (byte.toNat % 16).digitChar.toUpper, ?_, ?_⟩
  · simp only [Numeral.upperHex, String.toList_ofList, Numeral.padded, nothing, List.nil_append,
      List.singleton_append, List.map_cons, List.map_nil]
  · have same : UInt8.ofNat (16 * (byte.toNat / 16 % 16) + byte.toNat % 16) = byte := by
      rw [whole, UInt8.ofNat_toNat]
    simp only [readByte?, high, low]
    exact congrArg some same

theorem readColumn?_replicate (n : Nat) : readColumn? (List.replicate n ' ') = some [] := by
  unfold readColumn?
  rw [if_pos (by simp)]

theorem readColumn?_cons {high low : Char} {byte : UInt8} (digits : readByte? high low = some byte)
    (rest : List Char) :
    readColumn? (high :: low :: ' ' :: rest) = (readColumn? rest).map (byte :: ·) := by
  have inked : high ≠ ' ' := by
    rintro rfl
    cases digits
  rw [readColumn?, if_neg (by simp [inked])]
  cases readColumn? rest <;> simp [digits]

theorem readColumn?_digits (bytes : List UInt8) (n : Nat) :
    readColumn? ((bytes.flatMap fun byte => (Numeral.upperHex 2 byte.toNat).toList ++ [' ']) ++
      List.replicate n ' ') = some bytes := by
  induction bytes with
  | nil => exact readColumn?_replicate n
  | cons byte bytes ih =>
    obtain ⟨high, low, digits, read⟩ := exists_upperHex_byte byte
    simp only [List.flatMap_cons, digits, List.cons_append, List.nil_append]
    rw [readColumn?_cons read, ih, Option.map_some]

theorem readColumn?_byteField (bytes : List UInt8) :
    readColumn? (byteField bytes).toList = some bytes := by
  rw [toList_byteField]
  exact readColumn?_digits bytes _

end Layout

theorem flatMap_concat_eq_intercalate {α : Type} (mark : α) {xs : List (List α)}
    (nonempty : xs ≠ []) : xs.flatMap (· ++ [mark]) = [mark].intercalate xs ++ [mark] := by
  induction xs with
  | nil => exact absurd rfl nonempty
  | cons x xs ih =>
    cases xs with
    | nil => simp
    | cons y ys =>
      rw [List.flatMap_cons, ih (List.cons_ne_nil y ys), List.intercalate_cons_cons]
      simp

theorem rightpad_concat {α : Type} (mark : α) {text : List α} {width : Nat}
    (short : text.length < width) :
    (text ++ [mark]).rightpad width mark = text.rightpad width mark := by
  obtain ⟨n, rfl⟩ := Nat.exists_eq_add_of_lt short
  have more : text.length + n + 1 - text.length = n + 1 := by omega
  have fewer : text.length + n + 1 - (text.length + 1) = n := by omega
  simp [List.rightpad, more, fewer, List.replicate_succ]

namespace Layout

/- The bytes of a column with single blanks between them. -/
def spaced (bytes : List UInt8) : List Char :=
  [' '].intercalate (bytes.map fun byte => (Numeral.upperHex 2 byte.toNat).toList)

theorem toList_byteField_eq_spaced {bytes : List UInt8} (nonempty : bytes ≠ [])
    (short : bytes.length ≤ 3) : (byteField bytes).toList = (spaced bytes).rightpad 9 ' ' := by
  have groups : (bytes.flatMap fun byte => (Numeral.upperHex 2 byte.toNat).toList ++ [' ']) =
      spaced bytes ++ [' '] := by
    rw [spaced, ← flatMap_concat_eq_intercalate ' ' (by simpa using nonempty), List.flatMap_map]
  have size := length_flatMap_digits bytes
  rw [groups, List.length_append, List.length_singleton] at size
  rw [toList_byteField, groups]
  exact rightpad_concat ' ' (by omega)

/- The address column, empty where addresses are not shown. -/
def addressColumn (layout : Layout) (i : Instruction) : String :=
  if layout.addresses then layout.addressField i else ""

theorem length_addressColumn (layout : Layout) (i : Instruction) :
    (layout.addressColumn i).toList.length = layout.addressWidth := by
  unfold addressColumn addressWidth
  split
  · exact layout.length_addressField i
  · rfl

theorem line_of_bytes {layout : Layout} (shown : layout.bytes = true) (i : Instruction) :
    layout.line i = layout.addressColumn i ++ byteField i.bytes ++ layout.bare.line i := by
  have assembly : layout.bare.line i = layout.assembly i := by
    change "" ++ "" ++ layout.assembly i = _
    simp
  rw [assembly, line, if_pos shown]
  rfl

theorem readLine?_line {layout : Layout} (shown : layout.bytes = true) (i : Instruction) :
    layout.readLine? (layout.line i) = some i.bytes := by
  have column : ((layout.line i).toList.drop layout.addressWidth).take 9 =
      (byteField i.bytes).toList := by
    rw [line_of_bytes shown, String.toList_append, String.toList_append, List.append_assoc,
      List.drop_left' (layout.length_addressColumn i)]
    exact List.take_left' (length_byteField _ i.length_bytes_le)
  rw [readLine?, column, readColumn?_byteField]

theorem mapM_readLine? {layout : Layout} (shown : layout.bytes = true) (run : List Instruction) :
    (run.map layout.line).mapM layout.readLine? = some (run.map Instruction.bytes) := by
  induction run with
  | nil => rfl
  | cons i run ih =>
    rw [List.map_cons, List.mapM_cons, readLine?_line shown, ih]
    rfl

theorem count_newline_text (layout : Layout) (offset : Nat) (program : List Command) :
    (layout.text (Program.place offset program)).toList.count '\n' = program.length := by
  induction program generalizing offset with
  | nil => rfl
  | cons c program ih =>
    have line : (layout.line (c.place offset)).toList.count '\n' = 0 :=
      List.count_eq_zero.mpr ((layout.printable_line c offset).not_mem (by decide))
    have rest := ih (offset + c.length)
    rw [toList_text] at rest ⊢
    simp [Program.place, List.count_append, line, rest]

end Layout

/-- A listing with the byte column. Its text falls into lines, one for each instruction and without
line breaks in them. Each line is the address, where addresses are shown, then nine characters with
the one to three bytes of the instruction, then the line as it is without either column. The bytes
in the columns of all lines are those of the buffer, up to where its walk stops. -/
theorem byte_column_inverts_listing (layout : Layout) (shown : layout.bytes = true)
    (buffer : List UInt8) :
    let run := (Walk.start buffer).instructions
    ∃ text : String, (Listing.write layout buffer {}).sink.kept.toList = utf8 text ∧
      text = String.join ((lines text).map (· ++ "\n")) ∧
      (lines text).length = run.length ∧
      text.toList.count '\n' = run.length ∧
      (∀ line ∈ lines text, '\n' ∉ line.toList) ∧
      (∀ (k : Nat) (i : Instruction), run[k]? = some i →
        ∃ address column : String,
          (lines text)[k]? = some (address ++ column ++
            { layout with addresses := false, bytes := false }.line i) ∧
          address.toList.length = (if layout.addresses then 5 else 0) ∧
          column.toList.length = 9 ∧
          1 ≤ i.bytes.length ∧ i.bytes.length ≤ 3 ∧
          column.toList = (Layout.spaced i.bytes).rightpad 9 ' ' ∧
          Layout.readColumn? column.toList = some i.bytes) ∧
      ((lines text).mapM layout.readLine?).map List.flatten =
        some (buffer.take (Walk.stop buffer)) ∧
      ((Walk.start buffer).drain.2 = .done → Walk.stop buffer = buffer.length) := by
  intro run
  obtain ⟨program, placed, -⟩ : ∃ program, run = Program.place 0 program ∧ _ :=
    Walk.exists_program_of_stop buffer
  have split : lines (layout.text run) = run.map layout.line := layout.lines_listing buffer
  refine ⟨layout.text run, ?_, ?_, ?_, ?_, ?_, ?_, ?_, ?_⟩
  · rw [Listing.write_unlimited]
  · rw [split, List.map_map]
    rfl
  · rw [split, List.length_map]
  · rw [placed, layout.count_newline_text, Program.length_place]
  · intro line member
    rw [split, placed] at member
    obtain ⟨i, listed, rfl⟩ := List.mem_map.mp member
    obtain ⟨c, -, start, rfl⟩ := Program.exists_of_mem_place listed
    exact (layout.printable_line c start).not_mem (by decide)
  · intro k i here
    have listed : i ∈ Program.place 0 program := placed ▸ List.mem_of_getElem? here
    obtain ⟨c, -, start, same⟩ := Program.exists_of_mem_place listed
    have size : i.bytes.length = c.length := by rw [same, c.bytes_place, c.length_encode]
    have positive : 1 ≤ i.bytes.length := size ▸ Nat.succ_pos _
    have short := i.length_bytes_le
    refine ⟨layout.addressColumn i, Layout.byteField i.bytes, ?_, layout.length_addressColumn i,
      Layout.length_byteField _ short, positive, short, ?_, Layout.readColumn?_byteField _⟩
    · rw [split, List.getElem?_map, here, Option.map_some, Layout.line_of_bytes shown]
      rfl
    · exact Layout.toList_byteField_eq_spaced (List.ne_nil_of_length_pos positive) short
  · rw [split, Layout.mapM_readLine? shown, Option.map_some, ← List.flatMap_def,
      Walk.flatMap_bytes]
  · intro done
    exact Walk.stop_eq_length ((Walk.drain_start_done buffer).mp done)

/- A listing that a cut off command ends, with addresses and resolved branches. -/
theorem byte_column_inverts_listing_cut :
    let layout : Layout := { addresses := true, bytes := true, origin := 0xC000, branches := .target }
    let text := "C000 AD 02 20 lda $2002\nC003 10 FB    bpl $c000\nC005 EA       nop\n"
    (Listing.write layout [0xAD, 0x02, 0x20, 0x10, 0xFB, 0xEA, 0x4C, 0x00] {}).sink.kept.toList =
      utf8 text ∧
    ((lines text).mapM layout.readLine?).map List.flatten =
      some [0xAD, 0x02, 0x20, 0x10, 0xFB, 0xEA] := by
  intro layout text
  obtain ⟨listed, kept, -, -, -, -, -, read, -⟩ :=
    byte_column_inverts_listing layout rfl [0xAD, 0x02, 0x20, 0x10, 0xFB, 0xEA, 0x4C, 0x00]
  have same : utf8 listed = utf8 text := kept.symm.trans (by decide +kernel)
  obtain rfl := utf8_injective same
  exact ⟨kept, read.trans (by decide +kernel)⟩

end Mos6502
