import Mos6502.Proofs.Listing

/-! Listings into sinks without enough room. The sink is filled to its last byte, whatever one call
hands over; only the lines that are in it whole are reported, and the listing ends with the fault of
the sink. A fault of the walk is met only when all lines before it fit. -/
namespace Mos6502

namespace Sink

def Overflow.fault : Overflow → SinkError
  | .refuses => .full
  | .takesNone => .writeZero

/- A sink without room keeps nothing of what is left, and says so in its own way. -/
theorem writeAll_of_full {sink : Sink} {bytes : List UInt8} (full : sink.room = some 0)
    (nonempty : bytes ≠ []) : sink.writeAll bytes = (.error sink.overflow.fault, sink) := by
  cases bytes with
  | nil => exact absurd rfl nonempty
  | cons byte rest =>
    cases kind : sink.overflow with
    | refuses =>
      rw [writeAll, write, if_pos ⟨full, kind⟩]
      rfl
    | takesNone =>
      have takes : ¬ (sink.room = some 0 ∧ sink.overflow = .refuses) := by simp [kind]
      have call := write_eq_accept (byte :: rest) takes
      have nothing : sink.portion (byte :: rest).length = 0 := by simp [portion, full]
      rw [nothing, List.take_zero, accept_nil] at call
      rw [writeAll, call]
      rfl

theorem writeAll_of_overflow (sink : Sink) (bytes : List UInt8) {room : Nat}
    (has : sink.room = some room) (passes : sink.chunk ≠ some 0) (short : room < bytes.length) :
    sink.writeAll bytes = (.error sink.overflow.fault, sink.accept (bytes.take room)) := by
  have nonempty : bytes ≠ [] := List.ne_nil_of_length_pos (Nat.zero_lt_of_lt short)
  by_cases full : room = 0
  · rw [writeAll_of_full (full ▸ has) nonempty, full, List.take_zero, accept_nil]
  · have space : sink.room ≠ some 0 := by simpa [has] using full
    obtain ⟨n, positive, part, within, step⟩ := writeAll_step passes space nonempty
    have bound := within room has
    have left : (sink.accept (bytes.take n)).room = some (room - n) := by
      rw [accept, has, Option.map_some, List.length_take_of_le part]
    have rest := writeAll_of_overflow (sink.accept (bytes.take n)) (bytes.drop n) left passes
      (by rw [List.length_drop]; omega)
    have whole : bytes.take n ++ (bytes.drop n).take (room - n) = bytes.take room := by
      rw [← List.take_add, Nat.add_sub_cancel' bound]
    rw [step, rest, accept_accept, whole]
    rfl
termination_by bytes.length
decreasing_by
  rw [List.length_drop]
  omega

end Sink

namespace Layout

/- How many lines lie whole in the first `room` bytes of a listing. -/
def wholeLines (layout : Layout) : (room : Nat) → List Instruction → Nat
  | _, [] => 0
  | room, i :: run =>
    let size := (utf8 (layout.line i ++ "\n")).length
    if size ≤ room then layout.wholeLines (room - size) run + 1 else 0

theorem lt_wholeLines_iff (layout : Layout) (room : Nat) (run : List Instruction) {k : Nat}
    (inside : k < run.length) :
    k < layout.wholeLines room run ↔
      (utf8 (layout.text (run.take (k + 1)))).length ≤ room := by
  induction run generalizing room k with
  | nil => cases inside
  | cons i run ih =>
    rw [List.take_succ_cons, utf8_text_cons, List.length_append, wholeLines]
    split
    · cases k with
      | zero =>
        have nothing : (utf8 (layout.text (run.take 0))).length = 0 := rfl
        omega
      | succ k =>
        have behind := ih (room - (utf8 (layout.line i ++ "\n")).length)
          (Nat.lt_of_succ_lt_succ inside)
        omega
    · omega

theorem length_text_take_le (layout : Layout) (run : List Instruction) (k : Nat) :
    (utf8 (layout.text (run.take k))).length ≤ (utf8 (layout.text run)).length := by
  have split := congrArg layout.text (List.take_append_drop k run)
  rw [← split, text_append, utf8_append, List.length_append]
  exact Nat.le_add_right _ _

theorem length_le_wholeLines {layout : Layout} {room : Nat} {run : List Instruction}
    (fits : (utf8 (layout.text run)).length ≤ room) : run.length ≤ layout.wholeLines room run := by
  by_contra few
  have inside : layout.wholeLines room run < run.length := Nat.lt_of_not_le few
  have line := layout.length_text_take_le run (layout.wholeLines room run + 1)
  have whole := (layout.lt_wholeLines_iff room run inside).mpr (Nat.le_trans line fits)
  exact Nat.lt_irrefl _ whole

end Layout

namespace Listing

/- Line after line, until one does not fit any more. -/
theorem extend_limited (layout : Layout) (run : List Instruction) (fault? : Option DecodeError)
    (written : Array (Instruction × String)) (sink : Sink) {room : Nat}
    (has : sink.room = some room) (passes : sink.chunk ≠ some 0) :
    extend layout written sink (run.map .ok ++ fault?.toList.map .error) =
      { written :=
          written ++ (run.take (layout.wholeLines room run)).map fun i => (i, layout.line i)
        sink := sink.accept ((utf8 (layout.text run)).take room)
        error :=
          if (utf8 (layout.text run)).length ≤ room then fault?.map .undecodable
          else some (.unwritable sink.overflow.fault) } := by
  induction run generalizing written sink room with
  | nil =>
    have empty : utf8 (layout.text []) = [] := rfl
    simp only [empty, List.take_nil, Sink.accept_nil]
    cases fault? <;> simp [extend]
  | cons i run ih =>
    simp only [List.map_cons, List.cons_append, extend, Layout.utf8_text_cons, Layout.wholeLines]
    generalize utf8 (layout.line i ++ "\n") = line
    by_cases fits : line.length ≤ room
    · have roomy : sink.HasRoom line.length := by
        refine ⟨passes, ?_⟩
        intro left same
        cases has.symm.trans same
        exact fits
      have left : (sink.accept line).room = some (room - line.length) := by
        rw [Sink.accept, has, Option.map_some]
      have rest : (line ++ utf8 (layout.text run)).length ≤ room ↔
          (utf8 (layout.text run)).length ≤ room - line.length := by
        rw [List.length_append]
        omega
      have front : (line ++ utf8 (layout.text run)).take room =
          line ++ (utf8 (layout.text run)).take (room - line.length) := by
        rw [List.take_append, List.take_of_length_le fits]
      rw [sink.writeAll_of_hasRoom line roomy]
      simp only [ih _ _ left passes, if_pos fits, rest, front, Sink.accept_accept,
        List.take_succ_cons, List.map_cons, Array.appendList_cons]
      rfl
    · have cut := sink.writeAll_of_overflow line has passes (Nat.lt_of_not_le fits)
      have long : ¬ (line ++ utf8 (layout.text run)).length ≤ room := by
        rw [List.length_append]
        omega
      have front : (line ++ utf8 (layout.text run)).take room = line.take room :=
        List.take_append_of_le_length (by omega)
      rw [cut]
      simp only [if_neg fits, if_neg long, front, List.take_zero, List.map_nil,
        Array.appendList_nil]

/-- A listing into a sink with so much room, in closed form. -/
theorem write_limited (layout : Layout) (buffer : List UInt8) (room : Nat) (chunk : Option Nat)
    (passes : chunk ≠ some 0) (overflow : Sink.Overflow) :
    let run := (Walk.start buffer).instructions
    let text := utf8 (layout.text run)
    write layout buffer { room := some room, chunk, overflow } =
      { written :=
          ((run.take (layout.wholeLines room run)).map fun i => (i, layout.line i)).toArray
        sink :=
          { room := some (room - (text.take room).length)
            chunk
            overflow
            kept := (text.take room).toArray }
        error :=
          if text.length ≤ room then (Walk.start buffer).fault?.map .undecodable
          else some (.unwritable overflow.fault) } := by
  dsimp only
  rw [write, Walk.drain_fst, Walk.items_start]
  rw [extend_limited layout _ _ #[] { room := some room, chunk, overflow } rfl passes]
  simp [Sink.accept]

end Listing

/-- A listing into a sink that holds `room` bytes. What it keeps is the front of the whole text. If
the text fits, the outcome is the one without limits; otherwise it is the fault of the sink, told as
such. Reported are, in order, just the instructions whose lines lie whole within the room, line feed
included. The size of a single call shows nowhere. -/
theorem listing_into_limited_sink (layout : Layout) (buffer : List UInt8) (room : Nat)
    (chunk : Option Nat) (passes : chunk ≠ some 0) (overflow : Sink.Overflow) :
    let run := (Walk.start buffer).instructions
    let text := utf8 (layout.text run)
    let whole := Listing.write layout buffer {}
    let limited := Listing.write layout buffer { room := some room, chunk, overflow }
    limited.sink.kept.toList = text.take (min room text.length) ∧
    (whole.result =
      match (Walk.start buffer).fault? with
      | none => .ok run.length
      | some fault => .error (.undecodable fault)) ∧
    (text.length ≤ room → limited.result = whole.result) ∧
    (room < text.length → limited.result = .error (.unwritable overflow.fault)) ∧
    (∀ fault, (ListingError.undecodable fault).explanation = { message := fault.message }) ∧
    (ListingError.unwritable overflow.fault).explanation =
      { message := "Writing listing", cause := some overflow.fault.message } ∧
    (∃ n, limited.written.toList = (run.take n).map (fun i => (i, layout.line i)) ∧
      ∀ k < run.length,
        (k < n ↔ (utf8 (layout.text (run.take (k + 1)))).length ≤ min room text.length)) ∧
    ∀ chunk', chunk' ≠ some 0 →
      Listing.write layout buffer { room := some room, chunk := chunk', overflow } =
        { limited with sink := { limited.sink with chunk := chunk' } } := by
  intro run text whole limited
  have closed : limited = _ := Listing.write_limited layout buffer room chunk passes overflow
  have unlimited : whole.result = _ := Listing.result_write_unlimited layout buffer
  refine ⟨?_, unlimited, ?_, ?_, fun _ => rfl, rfl, ?_, ?_⟩
  · rw [closed, ← List.take_eq_take_min]
  · intro fits
    have all : run.take (layout.wholeLines room run) = run :=
      List.take_of_length_le (Layout.length_le_wholeLines fits)
    rw [unlimited, closed, Listing.result, if_pos fits, all]
    cases (Walk.start buffer).fault? with
    | none => simp [run]
    | some fault => rfl
  · intro short
    rw [closed, Listing.result, if_neg (Nat.not_le_of_lt short)]
  · refine ⟨layout.wholeLines room run, by rw [closed], ?_⟩
    intro k inside
    have part : _ ≤ text.length := layout.length_text_take_le run (k + 1)
    rw [layout.lt_wholeLines_iff room run inside]
    omega
  · intro chunk' passes'
    rw [closed]
    exact Listing.write_limited layout buffer room chunk' passes' overflow

/- Room for one line and half of the next, three bytes a call. -/
theorem listing_into_limited_sink_cut :
    let limited := Listing.write {} [0xEA, 0xEA]
      { room := some 6, chunk := some 3, overflow := .takesNone }
    limited.sink.kept.toList = utf8 "nop\nno" ∧
    limited.result = .error (.unwritable .writeZero) ∧
    limited.written.toList.map (fun (i, line) => (i.offset, line)) = [(0, "nop")] := by
  intro limited
  obtain ⟨kept, -, -, short, -, -, ⟨n, written, inside⟩, -⟩ :=
    listing_into_limited_sink {} [0xEA, 0xEA] 6 (some 3) (by decide) .takesNone
  have first : 0 < n := (inside 0 (by decide +kernel)).mpr (by decide +kernel)
  have second : ¬ 1 < n := fun more =>
    absurd ((inside 1 (by decide +kernel)).mp more) (by decide +kernel)
  obtain rfl : n = 1 := by omega
  refine ⟨kept.trans (by decide +kernel), short (by decide +kernel), ?_⟩
  rw [written]
  decide +kernel

end Mos6502
