import Mos6502.Proofs.Image
import Mos6502.Proofs.Source

/-! Reading cartridges from a source is loading the bytes that the source can hand out, with the
fault of the source in place of the end of the data. -/
namespace Mos6502

theorem Source.readRegion_cases (source : Source) (region : Region) (size : Nat)
    (passes : source.chunk ≠ some 0) :
    (∃ front source', source.Delivers front source' ∧ front.length = size ∧
      source.readRegion region size = (.ok front, source')) ∨
    ∃ source', source.Delivers source.visible source' ∧ source.visible.length < size ∧
      source.readRegion region size = (.error (.unreadable region source.fault), source') := by
  have filled := source.readExact_fill size passes
  unfold readRegion
  rcases read : source.readExact size with ⟨answer, source'⟩
  rw [read] at filled
  cases filled with
  | whole front delivered sized => exact .inl ⟨front, source', delivered, sized, rfl⟩
  | cut delivered short => exact .inr ⟨source', delivered, short, rfl⟩

/- The same region cut off, for another reason. -/
def LoadError.blame (fault : ReadError) : LoadError → LoadError
  | .unreadable region _ => .unreadable region fault
  | .badMagic found => .badMagic found

namespace Cartridge

/- How much of a buffer is read in order to load it, or to find that this cannot be done. -/
def consumed (rom : List UInt8) : Nat :=
  match load rom with
  | .ok c => c.image.length
  | .error (.badMagic _) => 16
  | .error (.unreadable _ _) => rom.length

/- What reading answers and where it leaves the source, in terms of loading. -/
def Reads (source : Source) (outcome : Except LoadError Cartridge × Source) : Prop :=
  outcome.1 = (load source.visible).mapError (LoadError.blame source.fault) ∧
    source.Delivers (source.visible.take (consumed source.visible)) outcome.2

theorem reads_cut {source source' : Source} {region : Region}
    (delivered : source.Delivers source.visible source')
    (refused : load source.visible = .error (.unreadable region .endOfData)) :
    Reads source (.error (.unreadable region source.fault), source') := by
  have all : source.visible.take (consumed source.visible) = source.visible := by
    rw [consumed, refused]
    exact List.take_length
  rw [Reads, all, refused]
  exact ⟨rfl, delivered⟩

theorem reads_whole {source source' : Source} {c : Cartridge} (sized : c.Sized)
    (delivered : source.Delivers c.image source') : Reads source (.ok c, source') := by
  have loaded : load source.visible = .ok c := by
    rw [load_eq_ok_iff, delivered.visible]
    exact ⟨sized, List.prefix_append _ _⟩
  have front : source.visible.take (consumed source.visible) = c.image := by
    rw [consumed, loaded, delivered.visible]
    exact List.take_left
  rw [Reads, front, loaded]
  exact ⟨rfl, delivered⟩

theorem reads_foreign {source source' : Source} {front : List UInt8} {found : Vector UInt8 4}
    (sized : front.length = 16) (refused : Header.parse front = .error (.badMagic found))
    (delivered : source.Delivers front source') :
    Reads source (.error (.badMagic found), source') := by
  have first : source.visible.take 16 = front := by
    rw [delivered.visible]
    exact List.take_left' sized
  have enough : 16 ≤ source.visible.length := by
    rw [delivered.visible, List.length_append, sized]
    exact Nat.le_add_right _ _
  have refused : load source.visible = .error (.badMagic found) :=
    load_foreign enough (first ▸ refused)
  have front : source.visible.take (consumed source.visible) = front := by
    rw [consumed, refused]
    exact first
  rw [Reads, front, refused]
  exact ⟨rfl, delivered⟩

/-- Reading from a source is loading what the source can hand out. -/
theorem reads_read (source : Source) (passes : source.chunk ≠ some 0) :
    Reads source (read source) := by
  -- Each region is read or cut. What was read before it stands in front of what is visible then,
  -- so the states between the regions join to one delivery from the first.
  unfold read
  rcases source.readRegion_cases .header Header.size passes with
    ⟨front, first, to_first, sized, region⟩ | ⟨first, to_first, short, region⟩
  · rw [region]
    dsimp only
    rcases Header.exists_of_length sized with ⟨header, rfl⟩ | ⟨found, wrong, at_front, refused⟩
    · rw [header.parse_bytes]
      dsimp only
      rcases first.readRegion_cases (.program header.programLength) header.programLength
          (to_first.chunk ▸ passes) with
        ⟨program, second, to_second, program_sized, region⟩ | ⟨second, to_second, short, region⟩
      · rw [region]
        dsimp only
        have chunk : second.chunk = source.chunk := to_second.chunk.trans to_first.chunk
        rcases second.readRegion_cases (.graphics header.graphicsLength) header.graphicsLength
            (chunk ▸ passes) with
          ⟨graphics, third, to_third, graphics_sized, region⟩ | ⟨third, to_third, short, region⟩
        · rw [region]
          refine reads_whole ⟨program_sized, graphics_sized⟩ ?_
          exact (to_first.trans to_second).trans to_third
        · have all := to_first.trans (to_second.trans to_third)
          rw [← to_second.visible, ← to_first.visible] at all
          rw [region, to_second.fault, to_first.fault]
          refine reads_cut all ?_
          rw [to_first.visible, load_headed, to_second.visible, List.length_append, program_sized,
            if_neg (by omega), if_pos (by omega)]
      · have all := to_first.trans to_second
        rw [← to_first.visible] at all
        rw [region, to_first.fault]
        refine reads_cut all ?_
        rw [to_first.visible, load_headed, if_pos short]
    · rw [refused]
      exact reads_foreign sized refused to_first
  · rw [region]
    exact reads_cut to_first (load_short short)

theorem consumed_of_ok {rom : List UInt8} {c : Cartridge} (loaded : load rom = .ok c) :
    consumed rom = 16 + c.header.programLength + c.header.graphicsLength := by
  rw [consumed, loaded]
  exact ((load_eq_ok_iff rom c).mp loaded).1.length_image

theorem consumed_le (rom : List UInt8) : consumed rom ≤ rom.length := by
  unfold consumed
  split
  · rename_i c loaded
    exact ((load_eq_ok_iff rom c).mp loaded).2.length_le
  · rename_i refused
    rcases Nat.lt_or_ge rom.length 16 with short | enough
    · rw [load_short short] at refused
      cases refused
    · exact enough
  · exact Nat.le_refl _

/- One of several calls on a source: where it starts, what it answers and where it stops. -/
structure Reading where
  start : Nat
  result : Except LoadError Cartridge
  stop : Nat

def readings : Nat → Source → List Reading
  | 0, _ => []
  | n + 1, source =>
    ⟨source.position, (read source).1, (read source).2.position⟩ :: readings n (read source).2

/- Loading again and again, each time behind what has been consumed. -/
def loadings (fault : ReadError) : (n start : Nat) → List UInt8 → List Reading
  | 0, _, _ => []
  | n + 1, start, rom =>
    ⟨start, (load rom).mapError (.blame fault), start + consumed rom⟩ ::
      loadings fault n (start + consumed rom) (rom.drop (consumed rom))

theorem readings_eq_loadings (n : Nat) (source : Source) (passes : source.chunk ≠ some 0) :
    readings n source = loadings source.fault n source.position source.visible := by
  induction n generalizing source with
  | zero => rfl
  | succ n ih =>
    obtain ⟨result, delivered⟩ := reads_read source passes
    have size : (source.visible.take (consumed source.visible)).length =
        consumed source.visible := List.length_take_of_le (consumed_le _)
    have split := (List.take_append_drop (consumed source.visible) _).trans delivered.visible
    have rest : source.visible.drop (consumed source.visible) = (read source).2.visible :=
      List.append_cancel_left split
    rw [readings, loadings, ih _ (delivered.chunk ▸ passes), result, delivered.position, size,
      delivered.fault, ← rest]

@[simp] theorem length_loadings (fault : ReadError) (n start : Nat) (rom : List UInt8) :
    (loadings fault n start rom).length = n := by
  induction n generalizing start rom with
  | zero => rfl
  | succ n ih => rw [loadings, List.length_cons, ih]

theorem start_loadings {fault : ReadError} {n start : Nat} {rom : List UInt8} {reading : Reading}
    (first : (loadings fault n start rom)[0]? = some reading) : reading.start = start := by
  cases n with
  | zero => cases first
  | succ n =>
    cases first
    rfl

/- Each call starts where the one before it stopped. -/
theorem loadings_linked {fault : ReadError} {n start k : Nat} {rom : List UInt8}
    {reading next : Reading} (here : (loadings fault n start rom)[k]? = some reading)
    (behind : (loadings fault n start rom)[k + 1]? = some next) : next.start = reading.stop := by
  induction n generalizing start rom k with
  | zero => cases here
  | succ n ih =>
    cases k with
    | zero =>
      cases here
      exact start_loadings behind
    | succ k => exact ih here behind

theorem exists_of_mem_loadings {fault : ReadError} {n start : Nat} {rom : List UInt8}
    {reading : Reading} (member : reading ∈ loadings fault n start rom) :
    ∃ k ≤ rom.length, reading = {
      start := start + k
      result := (load (rom.drop k)).mapError (.blame fault)
      stop := start + k + consumed (rom.drop k) } := by
  induction n generalizing start rom with
  | zero => cases member
  | succ n ih =>
    rcases List.mem_cons.mp member with rfl | member
    · exact ⟨0, Nat.zero_le _, rfl⟩
    · have bound := consumed_le rom
      obtain ⟨k, inside, rfl⟩ := ih member
      rw [List.length_drop] at inside
      refine ⟨consumed rom + k, by omega, ?_⟩
      rw [List.drop_drop, Nat.add_assoc]

theorem loadings_images (fault : ReadError) (cartridges : List Cartridge) (start : Nat)
    (trailing : List UInt8) (sized : ∀ c ∈ cartridges, c.Sized) :
    (loadings fault cartridges.length start (cartridges.flatMap image ++ trailing)).map
      Reading.result = cartridges.map .ok := by
  induction cartridges generalizing start with
  | nil => rfl
  | cons c cartridges ih =>
    have loaded : load (c.image ++ (cartridges.flatMap image ++ trailing)) = .ok c :=
      (load_eq_ok_iff _ c).mpr ⟨sized c (List.mem_cons_self ..), List.prefix_append _ _⟩
    have past : (c.image ++ (cartridges.flatMap image ++ trailing)).drop
        (consumed (c.image ++ (cartridges.flatMap image ++ trailing))) =
        cartridges.flatMap image ++ trailing := by
      rw [consumed, loaded]
      exact List.drop_left
    rw [List.flatMap_cons, List.append_assoc, List.length_cons, loadings, past, loaded,
      List.map_cons, List.map_cons, ih _ fun c' member => sized c' (List.mem_cons_of_mem _ member)]
    rfl

/- The data from `start` on hold a cartridge that ends before `stop`. -/
def Fits (data : List UInt8) (stop start : Nat) (c : Cartridge) : Prop :=
  load (data.drop start) = .ok c ∧
    start + 16 + c.header.programLength + c.header.graphicsLength ≤ stop

/- A header's worth of data, with something else in place of the magic. -/
def Foreign (data : List UInt8) (stop start : Nat) (found : Vector UInt8 4) : Prop :=
  start + 16 ≤ stop ∧ (data.drop start).take 4 = found.toList ∧ found ≠ Header.magic

/- The first region that does not end before `stop`. -/
inductive Cut (data : List UInt8) (stop start : Nat) : Region → Prop
  | header : stop < start + 16 → Cut data stop start .header
  | program (header : Header) : header.bytes <+: data.drop start → start + 16 ≤ stop →
      stop < start + 16 + header.programLength →
      Cut data stop start (.program header.programLength)
  | graphics (header : Header) : header.bytes <+: data.drop start →
      start + 16 + header.programLength ≤ stop →
      stop < start + 16 + header.programLength + header.graphicsLength →
      Cut data stop start (.graphics header.graphicsLength)

theorem Cut.ne_empty {data : List UInt8} {stop start : Nat} {region : Region}
    (cut : Cut data stop start region) : region ≠ .program 0 ∧ region ≠ .graphics 0 := by
  cases cut with
  | header => exact ⟨nofun, nofun⟩
  | program header _ enough short =>
    refine ⟨?_, nofun⟩
    intro same
    have zero := Region.program.inj same
    omega
  | graphics header _ enough short =>
    refine ⟨nofun, ?_⟩
    intro same
    have zero := Region.graphics.inj same
    omega

section Limited

variable {data : List UInt8} {stop start : Nat}

theorem load_take_iff (c : Cartridge) :
    load ((data.take stop).drop start) = .ok c ↔ Fits data stop start c := by
  rw [Fits, load_eq_ok_iff, load_eq_ok_iff, List.drop_take, List.prefix_take_iff]
  constructor
  · rintro ⟨sized, front, bound⟩
    rw [sized.length_image] at bound
    exact ⟨⟨sized, front⟩, by omega⟩
  · rintro ⟨⟨sized, front⟩, bound⟩
    refine ⟨sized, front, ?_⟩
    rw [sized.length_image]
    omega

theorem load_of_foreign {found : Vector UInt8 4} (inside : stop ≤ data.length)
    (foreign : Foreign data stop start found) :
    load ((data.take stop).drop start) = .error (.badMagic found) := by
  obtain ⟨enough, at_front, wrong⟩ := foreign
  have size : 16 ≤ ((data.take stop).drop start).length := by
    rw [List.length_drop, List.length_take]
    omega
  have same : ((data.take stop).drop start).take 4 = found.toList := by
    rw [List.drop_take, List.take_take, Nat.min_eq_left (by omega), at_front]
  exact load_of_wrong_magic size same wrong

theorem load_cases (inside : stop ≤ data.length) (before : start ≤ stop) :
    (∃ c, Fits data stop start c) ∨ (∃ found, Foreign data stop start found) ∨
      ∃ region, Cut data stop start region ∧
        load ((data.take stop).drop start) = .error (.unreadable region .endOfData) := by
  have size : ((data.take stop).drop start).length = stop - start := by
    rw [List.length_drop, List.length_take]
    omega
  have split : (data.take stop).drop start <+: data.drop start := by
    rw [List.drop_take]
    exact List.take_prefix _ _
  have whole (c : Cartridge) :
      load ((data.take stop).drop start) = .ok c ↔ Fits data stop start c := load_take_iff c
  generalize (data.take stop).drop start = rom at size split whole
  cases front rom with
  | short short => exact .inr (.inr ⟨.header, .header (by omega), load_short short⟩)
  | foreign found enough wrong at_front refused =>
    obtain ⟨back, joined⟩ := split
    refine .inr (.inl ⟨found, by omega, ?_, wrong⟩)
    rw [← joined, List.take_append_of_le_length (by omega), at_front]
  | headed header rest =>
    rw [List.length_append, header.length_bytes] at size
    have at_start : header.bytes <+: data.drop start := (List.prefix_append _ _).trans split
    have loaded := load_headed header rest
    split at loaded
    · exact .inr (.inr ⟨_, .program header at_start (by omega) (by omega), loaded⟩)
    · split at loaded
      · exact .inr (.inr ⟨_, .graphics header at_start (by omega) (by omega), loaded⟩)
      · exact .inl ⟨_, (whole _).mp loaded⟩

end Limited

end Cartridge

theorem Source.visible_fresh (data : List UInt8) (chunk failAt : Option Nat)
    (interval : Option { k : Nat // 2 ≤ k }) :
    Source.visible { rest := data, chunk, failAt, interval } =
      data.take (min data.length (failAt.getD data.length)) := by
  cases failAt with
  | none => simp [visible]
  | some limit => simp [visible, Nat.min_comm]

theorem Cartridge.readings_fresh (data : List UInt8) (failAt : Option Nat) {chunk : Option Nat}
    (passes : chunk ≠ some 0) (interval : Option { k : Nat // 2 ≤ k }) (n : Nat) :
    readings n { rest := data, chunk, failAt, interval } =
      loadings (if failAt.any (· ≤ data.length) then .broken else .endOfData) n 0
        (data.take (min data.length (failAt.getD data.length))) := by
  rw [readings_eq_loadings n _ passes, Source.visible_fresh, Source.fault]
  simp only [Nat.zero_add]

/-- Cartridges read one after the other from one source. What the readings answer and where they
stop is settled by the data and the position of the failure, whatever pieces the data come in. A
reading loads the cartridge at its start if that ends where data can be had, refuses a foreign
header, and otherwise takes all that is left and names the first region that was cut. -/
theorem reading_hides_delivery (data : List UInt8) (failAt chunk : Option Nat)
    (passes : chunk ≠ some 0) (interval : Option { k : Nat // 2 ≤ k }) (n : Nat) :
    let stop := min data.length (failAt.getD data.length)
    let fault : ReadError := if failAt.any (· ≤ data.length) then .broken else .endOfData
    let readings := Cartridge.readings n { rest := data, chunk, failAt, interval }
    readings = Cartridge.readings n { rest := data, failAt } ∧
    readings.length = n ∧
    (∀ r, readings[0]? = some r → r.start = 0) ∧
    (∀ (k : Nat) r next, readings[k]? = some r → readings[k + 1]? = some next →
      next.start = r.stop) ∧
    (∀ r ∈ readings,
      (∀ c, Cartridge.Fits data stop r.start c → r.result = .ok c ∧
        r.stop = r.start + 16 + c.header.programLength + c.header.graphicsLength) ∧
      (∀ found, Cartridge.Foreign data stop r.start found →
        r.result = .error (.badMagic found) ∧ r.stop = r.start + 16) ∧
      ((∀ c, ¬ Cartridge.Fits data stop r.start c) →
        (∀ found, ¬ Cartridge.Foreign data stop r.start found) →
        r.stop = stop ∧ ∃ region, Cartridge.Cut data stop r.start region ∧
          r.result = .error (.unreadable region fault)) ∧
      ∀ region cause, r.result = .error (.unreadable region cause) →
        region ≠ .program 0 ∧ region ≠ .graphics 0) ∧
    ∀ (cartridges : List Cartridge) (trailing : List UInt8),
      data = cartridges.flatMap Cartridge.image ++ trailing →
      (∀ c ∈ cartridges, c.Sized) → (cartridges.flatMap Cartridge.image).length ≤ stop →
      n = cartridges.length → readings.map Cartridge.Reading.result = cartridges.map .ok := by
  intro stop fault readings
  have closed : readings = Cartridge.loadings fault n 0 (data.take stop) :=
    Cartridge.readings_fresh data failAt passes interval n
  have inside : stop ≤ data.length := Nat.min_le_left ..
  have size : (data.take stop).length = stop := List.length_take_of_le inside
  refine ⟨?_, ?_, ?_, ?_, ?_, ?_⟩
  · rw [closed]
    have unlimited : (none : Option Nat) ≠ some 0 := nofun
    exact (Cartridge.readings_fresh data failAt unlimited none n).symm
  · rw [closed, Cartridge.length_loadings]
  · intro r first
    rw [closed] at first
    exact Cartridge.start_loadings first
  · intro k r next here behind
    rw [closed] at here behind
    exact Cartridge.loadings_linked here behind
  · intro r member
    rw [closed] at member
    obtain ⟨start, before, rfl⟩ := Cartridge.exists_of_mem_loadings member
    rw [size] at before
    simp only [Nat.zero_add]
    have cases := Cartridge.load_cases inside before
    have left : ((data.take stop).drop start).length = stop - start := by
      rw [List.length_drop, size]
    refine ⟨?_, ?_, ?_, ?_⟩
    · intro c fits
      have loaded := (Cartridge.load_take_iff c).mpr fits
      rw [Cartridge.consumed_of_ok loaded, loaded]
      exact ⟨rfl, by omega⟩
    · intro found foreign
      have refused := Cartridge.load_of_foreign inside foreign
      rw [Cartridge.consumed, refused]
      exact ⟨rfl, rfl⟩
    · intro no_fit no_foreign
      rcases cases with ⟨c, fits⟩ | ⟨found, foreign⟩ | ⟨region, cut, refused⟩
      · exact absurd fits (no_fit c)
      · exact absurd foreign (no_foreign found)
      · rw [Cartridge.consumed, refused]
        refine ⟨?_, region, cut, rfl⟩
        dsimp only
        omega
    · intro region cause failed
      rcases cases with ⟨c, fits⟩ | ⟨found, foreign⟩ | ⟨region, cut, refused⟩
      · rw [(Cartridge.load_take_iff c).mpr fits] at failed
        cases failed
      · rw [Cartridge.load_of_foreign inside foreign] at failed
        cases failed
      · rw [refused] at failed
        cases failed
        exact cut.ne_empty
  · intro cartridges trailing joined sized fits count
    have front : data.take stop =
        cartridges.flatMap Cartridge.image ++
          trailing.take (stop - (cartridges.flatMap Cartridge.image).length) := by
      rw [joined, List.take_append, List.take_of_length_le fits]
    rw [closed, count, front]
    exact Cartridge.loadings_images fault cartridges 0 _ sized

/- Two cartridges without regions and the start of a third, in pieces and with interruptions. -/
theorem reading_hides_delivery_in_pieces :
    let header : Header := ⟨0, 0, 0x04, 0, #v[0, 0, 0, 0, 0, 0, 0, 0]⟩
    let data := header.bytes ++ header.bytes ++ [0x4E, 0x45]
    (Cartridge.readings 3
      { rest := data, chunk := some 5, failAt := some 33, interval := some ⟨2, by decide⟩ }).map
        (fun r => (r.result.toOption, r.stop)) =
      [(some ⟨header, [], []⟩, 16), (some ⟨header, [], []⟩, 32), (none, 33)] := by
  intro header data
  obtain ⟨plain, -⟩ :=
    reading_hides_delivery data (some 33) (some 5) (by decide) (some ⟨2, by decide⟩) 3
  rw [plain]
  decide +kernel

end Mos6502
