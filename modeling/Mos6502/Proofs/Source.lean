import Mos6502.Source

/-! What a source hands out. Short and interrupted calls do not show: a source is as good as the
bytes that can still be had from it, and the fault that is met behind them. -/
namespace Mos6502

namespace Source

/- The bytes that can still be had. -/
def visible (source : Source) : List UInt8 :=
  source.rest.take ((source.failAt.map (· - source.position)).getD source.rest.length)

/- What is met behind them. -/
def fault (source : Source) : ReadError :=
  if source.failAt.any (· ≤ source.position + source.rest.length) then .broken else .endOfData

/- `front` has been handed out between two states of a source. -/
structure Delivers (source : Source) (front : List UInt8) (source' : Source) : Prop where
  visible : source.visible = front ++ source'.visible
  fault : source'.fault = source.fault
  position : source'.position = source.position + front.length
  chunk : source'.chunk = source.chunk

theorem Delivers.trans {a b c : Source} {front back : List UInt8} (first : a.Delivers front b)
    (second : b.Delivers back c) : a.Delivers (front ++ back) c where
  visible := by rw [first.visible, second.visible, List.append_assoc]
  fault := second.fault.trans first.fault
  position := by rw [second.position, first.position, List.length_append, Nat.add_assoc]
  chunk := second.chunk.trans first.chunk

/- Handing out visible bytes leaves the rest as it was. -/
theorem delivers_advance (source : Source) {k : Nat} (inside : k ≤ source.visible.length)
    (calls : Nat) :
    source.Delivers (source.visible.take k)
      { source with rest := source.rest.drop k, position := source.position + k, calls } := by
  have size : (source.visible.take k).length = k := List.length_take_of_le inside
  have bound : k ≤ source.rest.length := Nat.le_trans inside (List.length_take_le' _ _)
  refine ⟨?_, ?_, ?_, rfl⟩
  · have behind : Source.visible
        { source with rest := source.rest.drop k, position := source.position + k, calls } =
        source.visible.drop k := by
      unfold visible
      cases source.failAt with
      | none => simp only [Option.map_none, Option.getD_none, List.take_length]
      | some limit =>
        simp only [Option.map_some, Option.getD_some, List.drop_take, Nat.sub_sub]
    rw [behind, List.take_append_drop]
  · have total : source.position + k + (source.rest.drop k).length =
        source.position + source.rest.length := by
      rw [List.length_drop]
      omega
    simp only [fault, total]
  · rw [size]

/- All that a call for some bytes can come to. -/
inductive Call (source : Source) (wanted : Nat) : Reply → Source → Prop
  | interrupted {source' : Source} : source.Delivers [] source' →
      Call source wanted .interrupted source'
  | broken {source' : Source} : source.Delivers [] source' → source.visible = [] →
      source.fault = .broken → Call source wanted .broken source'
  | ended {source' : Source} : source.Delivers [] source' → source.visible = [] →
      source.fault = .endOfData → Call source wanted (.bytes []) source'
  | bytes {source' : Source} (byte : UInt8) (more : List UInt8) :
      source.Delivers (byte :: more) source' → (byte :: more).length ≤ wanted →
      Call source wanted (.bytes (byte :: more)) source'

theorem allowance_pos {source : Source} {wanted : Nat} (positive : 0 < wanted)
    (passes : source.chunk ≠ some 0) (whole : source.failAt.any (· ≤ source.position) = false) :
    0 < source.allowance wanted := by
  have chunk : 0 < source.chunk.getD wanted := by
    cases has : source.chunk with
    | none => exact positive
    | some chunk => exact Nat.pos_of_ne_zero fun zero => passes (zero ▸ has)
  have limit : 0 < (source.failAt.map (· - source.position)).getD wanted := by
    cases has : source.failAt with
    | none => exact positive
    | some limit =>
      simp only [has, Option.any_some, decide_eq_false_iff_not] at whole
      simp only [Option.map_some, Option.getD_some]
      omega
  unfold allowance
  omega

theorem take_allowance (source : Source) (wanted : Nat) :
    source.rest.take (source.allowance wanted) =
      source.visible.take (source.allowance wanted) := by
  unfold visible allowance
  cases source.failAt with
  | none => simp
  | some limit =>
    rw [List.take_take]
    congr 1
    simp only [Option.map_some, Option.getD_some]
    omega

theorem drop_allowance (source : Source) (wanted : Nat) :
    source.rest.drop (source.allowance wanted) =
      source.rest.drop (min (source.allowance wanted) source.visible.length) := by
  by_cases inside : source.allowance wanted ≤ source.visible.length
  · rw [Nat.min_eq_left inside]
  · have short : source.rest.length ≤ source.visible.length := by
      revert inside
      unfold visible allowance
      cases source.failAt with
      | none => simp
      | some limit =>
        simp only [Option.map_some, Option.getD_some, List.length_take]
        omega
    rw [List.drop_eq_nil_of_le (by omega), List.drop_eq_nil_of_le (by omega)]

theorem rest_eq_nil {source : Source} (nothing : source.visible = [])
    (whole : source.failAt.any (· ≤ source.position) = false) : source.rest = [] := by
  unfold visible at nothing
  cases has : source.failAt with
  | none => simpa [has] using nothing
  | some limit =>
    simp only [has, Option.any_some, decide_eq_false_iff_not] at whole
    rcases List.take_eq_nil_iff.mp nothing with zero | nothing
    · simp only [has, Option.map_some, Option.getD_some] at zero
      omega
    · exact nothing

theorem call_read {source source' : Source} {wanted : Nat} {reply : Reply}
    (answered : source.read wanted = (reply, source')) (some_wanted : wanted ≠ 0)
    (passes : source.chunk ≠ some 0) : Call source wanted reply source' := by
  unfold read at answered
  dsimp only at answered
  split at answered
  · cases answered
    exact .interrupted ⟨rfl, rfl, rfl, rfl⟩
  · cases shut : source.failAt.any (· ≤ source.position) with
    | true =>
      obtain ⟨limit, has, below⟩ := (Option.any_eq_true _ _).mp shut
      have below : limit ≤ source.position := of_decide_eq_true below
      have met : limit ≤ source.position + source.rest.length := by omega
      rw [shut, if_pos rfl] at answered
      cases answered
      refine .broken ⟨rfl, rfl, rfl, rfl⟩ ?_ ?_
      · simp only [visible, has, Option.map_some, Option.getD_some, Nat.sub_eq_zero_of_le below,
          List.take_zero]
      · simp [fault, has, met]
    | false =>
      have some_allowed := allowance_pos (Nat.pos_of_ne_zero some_wanted) passes shut
      have size : (source.visible.take (source.allowance wanted)).length =
          min (source.allowance wanted) source.visible.length := List.length_take
      have handed := source.delivers_advance (Nat.min_le_right (source.allowance wanted) _)
        (source.calls + 1)
      rw [← List.take_eq_take_min, ← drop_allowance, ← size] at handed
      rw [shut, if_neg nofun, take_allowance] at answered
      cases answered
      cases front : source.visible.take (source.allowance wanted) with
      | nil =>
        have nothing : source.visible = [] := by
          rcases List.take_eq_nil_iff.mp front with zero | nothing
          · omega
          · exact nothing
        rw [front] at handed
        refine .ended handed nothing ?_
        simp [fault, rest_eq_nil nothing shut, shut]
      | cons byte more =>
        rw [front] at handed size
        refine .bytes byte more handed ?_
        rw [size]
        unfold allowance
        omega

/- What reading so many bytes comes to: they have all been had, or all that could be had. -/
inductive Fill (source : Source) (wanted : Nat) :
    Except ReadError (List UInt8) → Source → Prop
  | whole {source' : Source} (front : List UInt8) : source.Delivers front source' →
      front.length = wanted → Fill source wanted (.ok front) source'
  | cut {source' : Source} : source.Delivers source.visible source' →
      source.visible.length < wanted → Fill source wanted (.error source.fault) source'

/- A part of the bytes, and then the others. -/
theorem Fill.behind {source source' source'' : Source} {front : List UInt8} {wanted : Nat}
    {answer : Except ReadError (List UInt8)} (handed : source.Delivers front source')
    (part : front.length ≤ wanted)
    (rest : source'.Fill (wanted - front.length) answer source'') :
    source.Fill wanted (answer.map (front ++ ·)) source'' := by
  cases rest with
  | whole back delivered size =>
    refine .whole (front ++ back) (handed.trans delivered) ?_
    rw [List.length_append]
    omega
  | cut delivered short =>
    have all := handed.trans delivered
    rw [← handed.visible] at all
    rw [handed.fault]
    refine .cut all ?_
    rw [handed.visible, List.length_append]
    omega

theorem Fill.of_nothing {source source' : Source} {wanted : Nat}
    (same : source.Delivers [] source') (nothing : source.visible = []) (some_wanted : wanted ≠ 0) :
    source.Fill wanted (.error source.fault) source' := by
  refine .cut (nothing ▸ same) ?_
  rw [nothing]
  exact Nat.pos_of_ne_zero some_wanted

theorem readInto_fill (got : Array UInt8) (source : Source) (wanted : Nat)
    (passes : source.chunk ≠ some 0) :
    ∃ answer, source.Fill wanted answer (readInto got source wanted).2 ∧
      (readInto got source wanted).1 = answer.map (got.toList ++ ·) := by
  fun_induction readInto got source wanted with
  | case1 got source =>
    refine ⟨.ok [], .whole [] ⟨rfl, rfl, rfl, rfl⟩ rfl, ?_⟩
    simp [Except.map]
  | case2 got source wanted some_wanted source' reply _ ih =>
    cases call_read reply some_wanted passes with
    | interrupted same =>
      obtain ⟨answer, filled, read⟩ := ih (same.chunk ▸ passes)
      refine ⟨answer, ?_, read⟩
      have behind := Fill.behind same (Nat.zero_le wanted) filled
      cases answer <;> exact behind
  | case3 got source wanted some_wanted source' reply =>
    cases call_read reply some_wanted passes with
    | broken same nothing met =>
      refine ⟨.error .broken, ?_, rfl⟩
      rw [← met]
      exact Fill.of_nothing same nothing some_wanted
  | case4 got source wanted some_wanted source' reply =>
    cases call_read reply some_wanted passes with
    | ended same nothing met =>
      refine ⟨.error .endOfData, ?_, rfl⟩
      rw [← met]
      exact Fill.of_nothing same nothing some_wanted
  | case5 got source wanted some_wanted byte more source' reply ih =>
    cases call_read reply some_wanted passes with
    | bytes _ _ handed part =>
      obtain ⟨answer, filled, read⟩ := ih (handed.chunk ▸ passes)
      refine ⟨_, Fill.behind handed part filled, ?_⟩
      rw [read]
      cases answer with
      | error fault => rfl
      | ok back => simp [Except.map]

theorem readExact_fill (source : Source) (wanted : Nat) (passes : source.chunk ≠ some 0) :
    source.Fill wanted (source.readExact wanted).1 (source.readExact wanted).2 := by
  obtain ⟨answer, filled, read⟩ := readInto_fill #[] source wanted passes
  have same : (source.readExact wanted).1 = answer := by
    rw [readExact, read]
    cases answer <;> rfl
  rw [same]
  exact filled

end Source

end Mos6502
