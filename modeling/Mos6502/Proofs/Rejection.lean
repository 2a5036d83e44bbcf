import Mathlib.Logic.ExistsUnique
import Mos6502.Proofs.Image

/-! Images that are not loaded. Four things can be wrong with an image, and they are looked for in
the order in which the image is read; so the first of them is named, whatever else is wrong. -/
namespace Mos6502

namespace Cartridge

/- The sizes that an image declares, if it has a header at all. -/
def declaredProgram (rom : List UInt8) : Nat :=
  16384 * (rom.getD 4 0).toNat

def declaredGraphics (rom : List UInt8) : Nat :=
  8192 * (rom.getD 5 0).toNat

/- The fault of an image and the words for it. Each case is for images that no case before it is
for. -/
inductive Rejection (rom : List UInt8) : LoadError → String → Prop
  | header : rom.length < 16 → Rejection rom (.unreadable .header .endOfData) "Reading header"
  | magic (found : Vector UInt8 4) : 16 ≤ rom.length → rom.take 4 = found.toList →
      found.toList ≠ [0x4E, 0x45, 0x53, 0x1A] →
      Rejection rom (.badMagic found) ("not a recognized container (magic [" ++
        ", ".intercalate (found.toList.map fun byte => Numeral.upperHex 2 byte.toNat) ++ "])")
  | program : 16 ≤ rom.length → rom.take 4 = [0x4E, 0x45, 0x53, 0x1A] →
      rom.length < 16 + declaredProgram rom →
      Rejection rom (.unreadable (.program (declaredProgram rom)) .endOfData)
        s!"Reading PRG ROM ({declaredProgram rom} bytes)"
  | graphics : 16 ≤ rom.length → rom.take 4 = [0x4E, 0x45, 0x53, 0x1A] →
      16 + declaredProgram rom ≤ rom.length →
      rom.length < 16 + declaredProgram rom + declaredGraphics rom →
      Rejection rom (.unreadable (.graphics (declaredGraphics rom)) .endOfData)
        s!"Reading CHR ROM ({declaredGraphics rom} bytes)"

section Headed

variable (header : Header) (rest : List UInt8)

@[simp] theorem declaredProgram_headed :
    declaredProgram (header.bytes ++ rest) = header.programLength :=
  rfl

@[simp] theorem declaredGraphics_headed :
    declaredGraphics (header.bytes ++ rest) = header.graphicsLength :=
  rfl

theorem length_headed : (header.bytes ++ rest).length = 16 + rest.length := by
  simp

end Headed

variable {rom : List UInt8}

theorem exists_header (enough : 16 ≤ rom.length) (right : rom.take 4 = [0x4E, 0x45, 0x53, 0x1A]) :
    ∃ header rest, rom = Header.bytes header ++ rest := by
  cases front rom with
  | short short => omega
  | foreign found _ wrong at_front _ =>
    have same : found.toList = Header.magic.toList := at_front.symm.trans right
    exact absurd (Vector.toList_inj.mp same) wrong
  | headed header rest => exact ⟨header, rest, rfl⟩

theorem load_of_rejection {e : LoadError} {message : String} (rejected : Rejection rom e message) :
    load rom = .error e := by
  cases rejected with
  | header short => exact load_short short
  | magic found enough at_front wrong =>
    apply load_of_wrong_magic enough at_front
    rintro rfl
    exact wrong rfl
  | program enough right short =>
    obtain ⟨header, rest, rfl⟩ := exists_header enough right
    simp only [declaredProgram_headed, length_headed] at short ⊢
    rw [load_headed, if_pos (by omega)]
  | graphics enough right program short =>
    obtain ⟨header, rest, rfl⟩ := exists_header enough right
    simp only [declaredProgram_headed, declaredGraphics_headed, length_headed] at program short ⊢
    rw [load_headed, if_neg (by omega), if_pos (by omega)]

theorem rejection_of_load {e : LoadError} (failed : load rom = .error e) :
    Rejection rom e e.explanation.message := by
  cases front rom with
  | short short =>
    cases (load_short short).symm.trans failed
    exact .header short
  | foreign found enough wrong at_front refused =>
    cases (load_foreign enough refused).symm.trans failed
    apply Rejection.magic found enough at_front
    intro right
    exact wrong (Vector.toList_inj.mp right)
  | headed header rest =>
    have size := length_headed header rest
    have enough : 16 ≤ (header.bytes ++ rest).length := by omega
    rw [load_headed] at failed
    split at failed
    · cases failed
      apply Rejection.program enough rfl
      simp only [declaredProgram_headed]
      omega
    · split at failed
      · cases failed
        apply Rejection.graphics enough rfl
        all_goals
          simp only [declaredProgram_headed, declaredGraphics_headed]
          omega
      · cases failed

theorem rejection_iff {e : LoadError} {message : String} :
    load rom = .error e ∧ e.explanation.message = message ↔ Rejection rom e message := by
  constructor
  · rintro ⟨failed, rfl⟩
    exact rejection_of_load failed
  · intro rejected
    refine ⟨load_of_rejection rejected, ?_⟩
    cases rejected <;> rfl

/- The region that the byte at `n` of an image stands in. -/
def regionAt (c : Cartridge) (n : Nat) : Region :=
  if n < 16 then .header
  else if n < 16 + c.program.length then .program c.program.length
  else .graphics c.graphics.length

theorem regionAt_ne_empty {c : Cartridge} {n : Nat}
    (inside : n < 16 + c.program.length + c.graphics.length) :
    c.regionAt n ≠ .program 0 ∧ c.regionAt n ≠ .graphics 0 := by
  unfold regionAt
  split
  · exact ⟨nofun, nofun⟩
  · split
    · refine ⟨?_, nofun⟩
      intro same
      have empty := Region.program.inj same
      omega
    · refine ⟨nofun, ?_⟩
      intro same
      have empty := Region.graphics.inj same
      omega

theorem take_image (c : Cartridge) (m : Nat) :
    c.image.take (16 + m) = c.header.bytes ++ (c.program ++ c.graphics).take m := by
  have split : (c.header.bytes ++ (c.program ++ c.graphics)).take (c.header.bytes.length + m) =
      c.header.bytes ++ (c.program ++ c.graphics).take m := List.take_length_add_append m
  simpa [image] using split

/- Whatever is cut off an image, the byte at the cut is the first that is missed. -/
theorem load_take_image {c : Cartridge} (sized : c.Sized) {n : Nat} (cut : n < c.image.length) :
    load (c.image.take n) = .error (.unreadable (c.regionAt n) .endOfData) := by
  rw [sized.length_image] at cut
  obtain ⟨program, graphics⟩ := sized
  by_cases short : n < 16
  · simp only [regionAt, if_pos short]
    apply load_short
    rw [List.length_take]
    omega
  · obtain ⟨m, rfl⟩ := Nat.exists_eq_add_of_le (Nat.le_of_not_lt short)
    have rest : ((c.program ++ c.graphics).take m).length = m := by
      simp only [List.length_take, List.length_append]
      omega
    simp only [regionAt, if_neg short, take_image, load_headed, rest, program, graphics,
      Nat.add_lt_add_iff_left]
    by_cases before : m < c.header.programLength
    · simp only [if_pos before]
    · have within : m < c.header.programLength + c.header.graphicsLength := by omega
      simp only [if_neg before, if_pos within]

end Cartridge

/-- Why an image is rejected. One case applies to it, the first that fits: it is too short for a
header, it begins with other bytes than the magic, or it ends before the program or the graphics
region does, as its header declares them. So every image that is cut off before its end is rejected,
for the region that holds the first byte cut off, which is never an empty one. -/
theorem rejection_names_first_fault (rom : List UInt8) :
    (∀ e message, Cartridge.load rom = .error e ∧ e.explanation.message = message ↔
      Cartridge.Rejection rom e message) ∧
    ((∀ c, Cartridge.load rom ≠ .ok c) →
      ∃! fault : LoadError × String, Cartridge.Rejection rom fault.1 fault.2) ∧
    ∀ c : Cartridge, c.Sized → rom = c.image → ∀ n < rom.length,
      Cartridge.load (rom.take n) = .error (.unreadable (c.regionAt n) .endOfData) ∧
      c.regionAt n ≠ .program 0 ∧ c.regionAt n ≠ .graphics 0 := by
  refine ⟨fun e message => Cartridge.rejection_iff, ?_, ?_⟩
  · intro rejected
    cases loaded : Cartridge.load rom with
    | ok c => exact absurd loaded (rejected c)
    | error e =>
      refine ⟨(e, e.explanation.message), Cartridge.rejection_of_load loaded, ?_⟩
      intro fault other
      obtain ⟨failed, words⟩ := Cartridge.rejection_iff.mpr other
      have same : e = fault.1 := Except.error.inj (loaded.symm.trans failed)
      exact Prod.ext same.symm (same ▸ words.symm)
  · rintro c sized rfl n cut
    refine ⟨Cartridge.load_take_image sized cut, Cartridge.regionAt_ne_empty ?_⟩
    rw [sized.1, sized.2, ← sized.length_image]
    exact cut

/- A hundred bytes are missing at the end of the program region. -/
theorem rejection_names_first_fault_cut :
    let c : Cartridge :=
      ⟨⟨1, 0, 0, 0, #v[0, 0, 0, 0, 0, 0, 0, 0]⟩, List.replicate 16384 0xEA, []⟩
    c.Sized ∧ Cartridge.load (c.image.take 16300) =
      .error (.unreadable (.program 16384) .endOfData) := by
  intro c
  have sized : c.Sized := ⟨List.length_replicate, rfl⟩
  have cut : 16300 < c.image.length := by
    rw [sized.length_image]
    decide
  have region : c.regionAt 16300 = .program 16384 := by
    rw [Cartridge.regionAt, sized.1]
    rfl
  obtain ⟨named, -⟩ := (rejection_names_first_fault c.image).2.2 c sized rfl 16300 cut
  rw [region] at named
  exact ⟨sized, named⟩

end Mos6502
