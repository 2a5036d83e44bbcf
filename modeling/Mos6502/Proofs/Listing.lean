import Mos6502.Listing
import Mos6502.Proofs.Walk

/-! Listings into sinks that have room for them: every line arrives, and only a fault of the walk
ends the listing early. -/
namespace Mos6502

@[simp] theorem utf8_append (s t : String) : utf8 (s ++ t) = utf8 s ++ utf8 t := by
  simp only [utf8, String.toUTF8_eq_toByteArray, String.toByteArray_append,
    ByteArray.toList_data_append]

theorem utf8_injective {s t : String} (same : utf8 s = utf8 t) : s = t := by
  apply String.toByteArray_inj.mp
  exact ByteArray.ext (Array.toList_inj.mp same)

namespace Sink

/- A limit on one call only splits a write. It must let something through, though. -/
def HasRoom (sink : Sink) (size : Nat) : Prop :=
  sink.chunk ≠ some 0 ∧ ∀ room, sink.room = some room → size ≤ room

/- How many of `size` bytes the next call takes. -/
def portion (sink : Sink) (size : Nat) : Nat :=
  min size (min (sink.room.getD size) (sink.chunk.getD size))

def accept (sink : Sink) (bytes : List UInt8) : Sink :=
  { sink with room := sink.room.map (· - bytes.length), kept := sink.kept ++ bytes }

@[simp] theorem accept_nil (sink : Sink) : sink.accept [] = sink := by
  cases sink with
  | mk room chunk overflow kept => cases room <;> simp [accept]

@[simp] theorem accept_accept (sink : Sink) (front back : List UInt8) :
    (sink.accept front).accept back = sink.accept (front ++ back) := by
  have kept : sink.kept ++ front ++ back = sink.kept ++ (front ++ back) :=
    Array.ext' (by simp only [Array.toList_appendList, List.append_assoc])
  cases room : sink.room <;> simp [accept, kept, room, Nat.sub_sub]

theorem HasRoom.accept {sink : Sink} {front back : List UInt8}
    (fits : sink.HasRoom (front ++ back).length) : (sink.accept front).HasRoom back.length := by
  refine ⟨fits.1, ?_⟩
  intro room left
  obtain ⟨before, has, rfl⟩ := Option.map_eq_some_iff.mp left
  have bound := fits.2 before has
  rw [List.length_append] at bound
  omega

theorem HasRoom.mono {sink : Sink} {m n : Nat} (fits : sink.HasRoom n) (le : m ≤ n) :
    sink.HasRoom m :=
  ⟨fits.1, fun room has => Nat.le_trans le (fits.2 room has)⟩

theorem write_eq_accept {sink : Sink} (bytes : List UInt8)
    (takes : ¬ (sink.room = some 0 ∧ sink.overflow = .refuses)) :
    sink.write bytes = (.ok (sink.portion bytes.length),
      sink.accept (bytes.take (sink.portion bytes.length))) := by
  have size : (bytes.take (sink.portion bytes.length)).length = sink.portion bytes.length :=
    List.length_take_of_le (Nat.min_le_left ..)
  rw [write, if_neg takes, accept, size]
  rfl

theorem HasRoom.room_ne_zero {sink : Sink} {size : Nat} (fits : sink.HasRoom size)
    (positive : 0 < size) : sink.room ≠ some 0 := by
  intro shut
  have none_left := fits.2 0 shut
  omega

theorem portion_pos {sink : Sink} {size : Nat} (passes : sink.chunk ≠ some 0)
    (space : sink.room ≠ some 0) (positive : 0 < size) : 0 < sink.portion size := by
  have enough : 0 < sink.room.getD size := by
    cases has : sink.room with
    | none => exact positive
    | some room => exact Nat.pos_of_ne_zero fun zero => space (zero ▸ has)
  have call : 0 < sink.chunk.getD size := by
    cases has : sink.chunk with
    | none => exact positive
    | some chunk => exact Nat.pos_of_ne_zero fun zero => passes (zero ▸ has)
  unfold portion
  omega

/- A call on a sink with room left keeps something, and writing goes on behind that. -/
theorem writeAll_step {sink : Sink} {bytes : List UInt8} (passes : sink.chunk ≠ some 0)
    (space : sink.room ≠ some 0) (nonempty : bytes ≠ []) :
    ∃ n, 0 < n ∧ n ≤ bytes.length ∧ (∀ room, sink.room = some room → n ≤ room) ∧
      sink.writeAll bytes = (sink.accept (bytes.take n)).writeAll (bytes.drop n) := by
  have positive := portion_pos passes space (List.length_pos_iff.mpr nonempty)
  have takes : ¬ (sink.room = some 0 ∧ sink.overflow = .refuses) := fun shut => space shut.1
  have call := write_eq_accept bytes takes
  refine ⟨sink.portion bytes.length, positive, Nat.min_le_left .., ?_, ?_⟩
  · intro room has
    simp only [portion, has, Option.getD_some]
    omega
  · obtain ⟨n, part⟩ := Nat.exists_eq_add_one.mpr positive
    rw [part] at call ⊢
    cases bytes with
    | nil => exact absurd rfl nonempty
    | cons byte rest =>
      rw [writeAll, call]
      rfl

/-- What there is room for is kept whole, in however many calls. -/
theorem writeAll_of_hasRoom (sink : Sink) (bytes : List UInt8) (fits : sink.HasRoom bytes.length) :
    sink.writeAll bytes = (.ok (), sink.accept bytes) := by
  by_cases empty : bytes = []
  · rw [empty, writeAll, accept_nil]
  · have space := fits.room_ne_zero (List.length_pos_iff.mpr empty)
    obtain ⟨n, positive, part, -, step⟩ := writeAll_step fits.1 space empty
    have behind : (sink.accept (bytes.take n)).HasRoom (bytes.drop n).length := by
      apply HasRoom.accept
      rwa [List.take_append_drop]
    rw [step, writeAll_of_hasRoom _ (bytes.drop n) behind, accept_accept, List.take_append_drop]
termination_by bytes.length
decreasing_by
  rw [List.length_drop]
  omega

end Sink

/- The lines of instructions, one below the other. -/
def Layout.text (layout : Layout) (run : List Instruction) : String :=
  String.join (run.map fun i => layout.line i ++ "\n")

theorem Layout.text_append (layout : Layout) (front back : List Instruction) :
    layout.text (front ++ back) = layout.text front ++ layout.text back := by
  simp only [text, List.map_append, String.join_append]

theorem Layout.utf8_text_cons (layout : Layout) (i : Instruction) (run : List Instruction) :
    utf8 (layout.text (i :: run)) = utf8 (layout.line i ++ "\n") ++ utf8 (layout.text run) := by
  rw [← utf8_append]
  simp only [text, List.map_cons, String.join_cons]

namespace Listing

theorem extend_of_hasRoom (layout : Layout) (run : List Instruction) (fault? : Option DecodeError)
    (written : Array (Instruction × String)) (sink : Sink)
    (fits : sink.HasRoom (utf8 (layout.text run)).length) :
    extend layout written sink (run.map .ok ++ fault?.toList.map .error) =
      { written := written ++ run.map fun i => (i, layout.line i)
        sink := sink.accept (utf8 (layout.text run))
        error := fault?.map .undecodable } := by
  induction run generalizing written sink with
  | nil =>
    have empty : utf8 (layout.text []) = [] := rfl
    rw [empty, Sink.accept_nil]
    cases fault? <;> simp [extend]
  | cons i run ih =>
    rw [layout.utf8_text_cons] at fits ⊢
    have line : sink.HasRoom (utf8 (layout.line i ++ "\n")).length :=
      fits.mono (by rw [List.length_append]; omega)
    simp only [List.map_cons, List.cons_append, extend, sink.writeAll_of_hasRoom _ line]
    rw [ih _ _ fits.accept, Sink.accept_accept, Array.appendList_cons]

/-- A listing into a sink without limits. -/
theorem write_unlimited (layout : Layout) (buffer : List UInt8) :
    write layout buffer {} =
      { written := ((Walk.start buffer).instructions.map fun i => (i, layout.line i)).toArray
        sink := { kept := (utf8 (layout.text (Walk.start buffer).instructions)).toArray }
        error := (Walk.start buffer).fault?.map .undecodable } := by
  have fits : Sink.HasRoom {} (utf8 (layout.text (Walk.start buffer).instructions)).length :=
    ⟨nofun, nofun⟩
  rw [write, Walk.drain_fst, Walk.items_start, extend_of_hasRoom _ _ _ _ _ fits]
  simp [Sink.accept]

theorem result_write_unlimited (layout : Layout) (buffer : List UInt8) :
    (write layout buffer {}).result =
      match (Walk.start buffer).fault? with
      | none => .ok (Walk.start buffer).instructions.length
      | some fault => .error (.undecodable fault) := by
  rw [write_unlimited, result]
  cases (Walk.start buffer).fault? with
  | none => simp
  | some fault => rfl

end Listing

end Mos6502
