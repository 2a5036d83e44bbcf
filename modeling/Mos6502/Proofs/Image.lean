import Mos6502.Cartridge.Read

/-! Cartridge images. An image is too short for a header, or something else stands in place of the
magic, or it is a header with its regions behind it. Loading tells these apart and undoes
writing. -/
namespace Mos6502

namespace Header

@[simp] theorem length_bytes (header : Header) : header.bytes.length = 16 := by
  simp [bytes]

@[simp] theorem parse_bytes (header : Header) : parse header.bytes = .ok header := by
  obtain ⟨programUnits, graphicsUnits, flags6, flags7, ⟨⟨padding⟩, sized⟩⟩ := header
  match padding, sized with
  | [p0, p1, p2, p3, p4, p5, p6, p7], _ => rfl

/- Sixteen bytes are a header or have another magic. -/
theorem exists_of_length {front : List UInt8} (sized : front.length = 16) :
    (∃ header : Header, front = header.bytes) ∨
      ∃ found : Vector UInt8 4, found ≠ magic ∧ front.take 4 = found.toList ∧
        parse front = .error (.badMagic found) := by
  match front, sized with
  | [m0, m1, m2, m3, programUnits, graphicsUnits, flags6, flags7, p0, p1, p2, p3, p4, p5, p6, p7],
      _ =>
    by_cases right : #v[m0, m1, m2, m3] = magic
    · left
      refine ⟨⟨programUnits, graphicsUnits, flags6, flags7, #v[p0, p1, p2, p3, p4, p5, p6, p7]⟩, ?_⟩
      rw [bytes, ← right]
      rfl
    · right
      exact ⟨#v[m0, m1, m2, m3], right, rfl, if_neg right⟩

end Header

namespace Cartridge

theorem cut_of_le {size : Nat} {bytes : List UInt8} (region : Region)
    (enough : size ≤ bytes.length) :
    cut region size bytes = .ok (bytes.take size, bytes.drop size) := by
  have whole : (bytes.take size).length = size := List.length_take_of_le enough
  unfold cut
  rw [if_neg (by rw [whole]; exact Nat.lt_irrefl _)]

theorem cut_of_lt {size : Nat} {bytes : List UInt8} (region : Region)
    (short : bytes.length < size) :
    cut region size bytes = .error (.unreadable region .endOfData) := by
  have part : (bytes.take size).length < size := by
    rw [List.length_take]
    omega
  unfold cut
  rw [if_pos part]

/- What can stand at the front of a buffer that is taken for an image. -/
inductive Front : List UInt8 → Prop
  | short {rom : List UInt8} : rom.length < 16 → Front rom
  | foreign {rom : List UInt8} (found : Vector UInt8 4) : 16 ≤ rom.length → found ≠ Header.magic →
      rom.take 4 = found.toList → Header.parse (rom.take 16) = .error (.badMagic found) → Front rom
  | headed (header : Header) (rest : List UInt8) : Front (header.bytes ++ rest)

theorem front (rom : List UInt8) : Front rom := by
  by_cases short : rom.length < 16
  · exact .short short
  · have enough : 16 ≤ rom.length := Nat.le_of_not_lt short
    have sized : (rom.take 16).length = 16 := List.length_take_of_le enough
    rcases Header.exists_of_length sized with ⟨header, same⟩ | ⟨found, wrong, at_front, refused⟩
    · rw [← List.take_append_drop 16 rom, same]
      exact .headed header _
    · rw [List.take_take] at at_front
      exact .foreign found enough wrong at_front refused

theorem load_short {rom : List UInt8} (short : rom.length < 16) :
    load rom = .error (.unreadable .header .endOfData) := by
  unfold load
  rw [Header.size, cut_of_lt _ short]
  rfl

theorem load_foreign {rom : List UInt8} {found : Vector UInt8 4} (enough : 16 ≤ rom.length)
    (refused : Header.parse (rom.take 16) = .error (.badMagic found)) :
    load rom = .error (.badMagic found) := by
  unfold load
  rw [Header.size, cut_of_le _ enough]
  simp only [bind, Except.bind, refused]

theorem load_of_wrong_magic {rom : List UInt8} {found : Vector UInt8 4} (enough : 16 ≤ rom.length)
    (at_front : rom.take 4 = found.toList) (wrong : found ≠ Header.magic) :
    load rom = .error (.badMagic found) := by
  cases front rom with
  | short short => omega
  | foreign found' _ _ at_front' refused =>
    obtain rfl := Vector.toList_inj.mp (at_front'.symm.trans at_front)
    exact load_foreign enough refused
  | headed header rest =>
    have right : found.toList = Header.magic.toList := at_front.symm
    exact absurd (Vector.toList_inj.mp right) wrong

/- Behind a header, the regions are cut off one after the other. -/
theorem load_headed (header : Header) (rest : List UInt8) :
    load (header.bytes ++ rest) =
      if rest.length < header.programLength then
        .error (.unreadable (.program header.programLength) .endOfData)
      else if rest.length < header.programLength + header.graphicsLength then
        .error (.unreadable (.graphics header.graphicsLength) .endOfData)
      else
        .ok {
          header
          program := rest.take header.programLength
          graphics := (rest.drop header.programLength).take header.graphicsLength } := by
  have enough : 16 ≤ (header.bytes ++ rest).length := by simp
  have split : (header.bytes ++ rest).take 16 = header.bytes ∧
      (header.bytes ++ rest).drop 16 = rest :=
    ⟨List.take_left' header.length_bytes, List.drop_left' header.length_bytes⟩
  unfold load
  rw [Header.size, cut_of_le _ enough, split.1, split.2]
  simp only [bind, Except.bind, header.parse_bytes]
  by_cases program : rest.length < header.programLength
  · rw [cut_of_lt _ program, if_pos program]
  · have behind : (rest.drop header.programLength).length = rest.length - header.programLength :=
      List.length_drop
    rw [cut_of_le _ (Nat.le_of_not_lt program), if_neg program]
    dsimp only
    by_cases graphics : rest.length < header.programLength + header.graphicsLength
    · rw [cut_of_lt _ (by omega), if_pos graphics]
    · rw [cut_of_le _ (by omega), if_neg graphics]
      rfl

/- The regions have the sizes their header declares. -/
def Sized (c : Cartridge) : Prop :=
  c.program.length = c.header.programLength ∧ c.graphics.length = c.header.graphicsLength

theorem Sized.length_image {c : Cartridge} (sized : c.Sized) :
    c.image.length = 16 + c.header.programLength + c.header.graphicsLength := by
  simp only [image, List.length_append, c.header.length_bytes, sized.1, sized.2]

/-- What is loaded is what was written, and no more is looked at. -/
theorem load_eq_ok_iff (rom : List UInt8) (c : Cartridge) :
    load rom = .ok c ↔ c.Sized ∧ c.image <+: rom := by
  constructor
  · intro loaded
    cases front rom with
    | short short => simp [load_short short] at loaded
    | foreign found enough _ _ refused => simp [load_foreign enough refused] at loaded
    | headed header rest =>
      rw [load_headed] at loaded
      split at loaded
      · cases loaded
      · split at loaded
        · cases loaded
        · cases loaded
          refine ⟨⟨List.length_take_of_le (by omega), ?_⟩, ?_⟩
          · exact List.length_take_of_le (by rw [List.length_drop]; omega)
          · rw [image, List.append_assoc, List.prefix_append_right_inj, ← List.take_add]
            exact List.take_prefix _ _
  · rintro ⟨⟨program, graphics⟩, trailing, rfl⟩
    have short : ¬ (c.program ++ (c.graphics ++ trailing)).length < c.header.programLength := by
      simp only [List.length_append]
      omega
    have shorter : ¬ (c.program ++ (c.graphics ++ trailing)).length <
        c.header.programLength + c.header.graphicsLength := by
      simp only [List.length_append]
      omega
    rw [image, List.append_assoc, List.append_assoc, load_headed, if_neg short, if_neg shorter,
      List.take_left' program, List.drop_left' program, List.take_left' graphics]

theorem load_isOk_iff (rom : List UInt8) :
    (∃ c, load rom = .ok c) ↔
      ∃ _ : 16 ≤ rom.length, rom.take 4 = [0x4E, 0x45, 0x53, 0x1A] ∧
        16 + 16384 * rom[4].toNat + 8192 * rom[5].toNat ≤ rom.length := by
  cases front rom with
  | short short =>
    constructor
    · rintro ⟨c, loaded⟩
      simp [load_short short] at loaded
    · rintro ⟨enough, -⟩
      omega
  | foreign found enough wrong at_front refused =>
    constructor
    · rintro ⟨c, loaded⟩
      simp [load_foreign enough refused] at loaded
    · rintro ⟨-, right, -⟩
      have same : found.toList = Header.magic.toList := at_front.symm.trans right
      exact absurd (Vector.toList_inj.mp same) wrong
  | headed header rest =>
    have size : (header.bytes ++ rest).length = 16 + rest.length := by simp
    rw [load_headed]
    constructor
    · rintro ⟨c, loaded⟩
      refine ⟨by omega, rfl, ?_⟩
      change 16 + header.programLength + header.graphicsLength ≤ _
      split at loaded
      · cases loaded
      · split at loaded
        · cases loaded
        · omega
    · rintro ⟨_, -, fits⟩
      change 16 + header.programLength + header.graphicsLength ≤ _ at fits
      rw [if_neg (by omega), if_neg (by omega)]
      exact ⟨_, rfl⟩

/- Where the regions of a loaded cartridge stood in its image. -/
theorem load_regions {rom : List UInt8} {c : Cartridge} (loaded : load rom = .ok c) :
    16 + 16384 * (rom.getD 4 0).toNat + 8192 * (rom.getD 5 0).toNat ≤ rom.length ∧
      c.program = (rom.drop 16).take (16384 * (rom.getD 4 0).toNat) ∧
      c.graphics = (rom.drop (16 + 16384 * (rom.getD 4 0).toNat)).take
        (8192 * (rom.getD 5 0).toNat) := by
  obtain ⟨sized, trailing, rfl⟩ := (load_eq_ok_iff rom c).mp loaded
  have behind : (c.image ++ trailing).drop 16 = c.program ++ (c.graphics ++ trailing) := by
    rw [image, List.append_assoc, List.append_assoc]
    exact List.drop_left' c.header.length_bytes
  rw [← List.drop_drop, behind]
  change 16 + c.header.programLength + c.header.graphicsLength ≤ _ ∧
    c.program = List.take c.header.programLength _ ∧
    c.graphics = List.take c.header.graphicsLength (List.drop c.header.programLength _)
  rw [List.take_left' sized.1, List.drop_left' sized.1, List.take_left' sized.2,
    List.length_append, sized.length_image]
  exact ⟨Nat.le_add_right _ _, rfl, rfl⟩

def regions (c : Cartridge) : List UInt8 × List UInt8 :=
  (c.program, c.graphics)

/- Only the magic and the two sizes of a header decide what is loaded behind it. -/
theorem regions_load_congr {rom other : List UInt8} (length : other.length = rom.length)
    (agree : ∀ k, k < 6 ∨ 16 ≤ k → other[k]? = rom[k]?) :
    (load other).map regions = (load rom).map regions := by
  have magic : other.take 4 = rom.take 4 := by
    apply List.ext_getElem?
    intro k
    rw [List.getElem?_take, List.getElem?_take]
    split
    · exact agree k (by omega)
    · rfl
  cases front rom with
  | short short => rw [load_short short, load_short (length ▸ short)]
  | foreign found enough wrong at_front refused =>
    cases front other with
    | short short => omega
    | foreign found' enough' _ at_front' refused' =>
      have same : found' = found :=
        Vector.toList_inj.mp (at_front'.symm.trans (magic.trans at_front))
      rw [load_foreign enough refused, load_foreign enough' refused', same]
    | headed header rest =>
      have same : found.toList = Header.magic.toList := (magic.trans at_front).symm
      exact absurd (Vector.toList_inj.mp same) wrong
  | headed header rest =>
    have size : (header.bytes ++ rest).length = 16 + rest.length := by simp
    cases front other with
    | short short => omega
    | foreign found enough wrong at_front refused =>
      have same : found.toList = Header.magic.toList := at_front.symm.trans magic
      exact absurd (Vector.toList_inj.mp same) wrong
    | headed header' rest' =>
      have program : header'.programLength = header.programLength :=
        congrArg (Header.programUnit * UInt8.toNat ·) (Option.some.inj (agree 4 (by omega)))
      have graphics : header'.graphicsLength = header.graphicsLength :=
        congrArg (Header.graphicsUnit * UInt8.toNat ·) (Option.some.inj (agree 5 (by omega)))
      have same : rest' = rest := by
        apply List.ext_getElem?
        intro k
        have behind := agree (16 + k) (by omega)
        simpa [List.getElem?_append_right] using behind
      rw [load_headed, load_headed, same, program, graphics]
      split
      · rfl
      · split <;> rfl

end Cartridge

/-- Loading accepts an image that has the magic and is as long as its header says, and what it
returns is the front of the image taken apart: the fields of the header, then the regions in their
declared sizes. Whatever is written so is read back, with anything behind it. The flags and the
padding of the header do not move the regions. -/
theorem load_inverts_image (rom : List UInt8) :
    ((∃ c, Cartridge.load rom = .ok c) ↔
      ∃ _ : 16 ≤ rom.length, rom.take 4 = [0x4E, 0x45, 0x53, 0x1A] ∧
        16 + 16384 * rom[4].toNat + 8192 * rom[5].toNat ≤ rom.length) ∧
    (∀ c, Cartridge.load rom = .ok c →
      c.header.bytes ++ c.program ++ c.graphics =
        rom.take (16 + c.program.length + c.graphics.length) ∧
      c.program.length = 16384 * c.header.programUnits.toNat ∧
      c.graphics.length = 8192 * c.header.graphicsUnits.toNat) ∧
    (∀ (header : Header) (program graphics trailing : List UInt8),
      program.length = 16384 * header.programUnits.toNat →
      graphics.length = 8192 * header.graphicsUnits.toNat →
      Cartridge.load (header.bytes ++ program ++ graphics ++ trailing) =
        .ok ⟨header, program, graphics⟩) ∧
    ∀ other : List UInt8, other.length = rom.length →
      (∀ k : Nat, k < 6 ∨ 16 ≤ k → other[k]? = rom[k]?) →
      (Cartridge.load other).map Cartridge.regions =
        (Cartridge.load rom).map Cartridge.regions := by
  refine ⟨Cartridge.load_isOk_iff rom, ?_, ?_, ?_⟩
  · intro c loaded
    obtain ⟨sized, front⟩ := (Cartridge.load_eq_ok_iff rom c).mp loaded
    refine ⟨?_, sized.1, sized.2⟩
    have length : 16 + c.program.length + c.graphics.length = c.image.length := by
      rw [sized.length_image, sized.1, sized.2]
    rw [length]
    exact List.prefix_iff_eq_take.mp front
  · intro header program graphics trailing program_sized graphics_sized
    exact (Cartridge.load_eq_ok_iff _ _).mpr
      ⟨⟨program_sized, graphics_sized⟩, List.prefix_append _ trailing⟩
  · intro other length agree
    exact Cartridge.regions_load_congr length agree

end Mos6502
