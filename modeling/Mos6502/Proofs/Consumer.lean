import Mathlib.Data.List.ReduceOption
import Mos6502.Proofs.Calls

/-! Consumers of a walk. Whatever they ask for, all they do is to call for the next item. So several
of them, one after the other, see the items of one walk in order, and leave the walk where as many
calls leave it. -/
namespace Mos6502

/- What a consumer asks of a walk. -/
inductive Demand where
  | next
  | nth (k : Nat)
  | take (k : Nat)
  | count
  | last
  | collect

inductive Answer where
  | item (found : Option Item)
  | items (found : List Item)
  | number (n : Nat)
  | instructions (outcome : Except DecodeError (List Instruction))

namespace Walk

def serve (w : Walk) : Demand → Answer × Walk
  | .next => (.item w.next.1, w.next.2)
  | .nth k => (.item (w.nth k).1, (w.nth k).2)
  | .take k => (.items (w.take k).1, (w.take k).2)
  | .count => (.number w.count.1, w.count.2)
  | .last => (.item w.last?.1, w.last?.2)
  | .collect => (.instructions w.collect.1, w.collect.2)

/- Calls for the next item, at most `limit` times and no more once a reply is `enough`. -/
def poll (enough : Option Item → Bool) : (limit : Nat) → Walk → List (Option Item) × Walk
  | 0, w => ([], w)
  | limit + 1, w =>
    if enough w.next.1 then ([w.next.1], w.next.2)
    else (w.next.1 :: (poll enough limit w.next.2).1, (poll enough limit w.next.2).2)

/- However it is decided when to stop, some number of calls has been made. -/
theorem exists_poll_eq (enough : Option Item → Bool) (limit : Nat) (w : Walk) :
    ∃ n, w.poll enough limit = (w.replies n, w.after n) := by
  induction limit generalizing w with
  | zero => exact ⟨0, rfl⟩
  | succ limit ih =>
    unfold poll
    split
    · refine ⟨1, ?_⟩
      rw [replies_succ]
      rfl
    · obtain ⟨n, same⟩ := ih w.next.2
      refine ⟨n + 1, ?_⟩
      rw [same, replies_succ]
      rfl

section Polling

variable {enough : Option Item → Bool} {limit : Nat} {w w' : Walk} {reply : Option Item}

theorem poll_stop (call : w.next = (reply, w')) (stops : enough reply = true) :
    w.poll enough (limit + 1) = ([reply], w') := by
  rw [poll, call, if_pos stops]

theorem poll_go (call : w.next = (reply, w')) (goes_on : enough reply = false) :
    w.poll enough (limit + 1) = (reply :: (w'.poll enough limit).1, (w'.poll enough limit).2) := by
  rw [poll, call, goes_on]
  rfl

/- Calls that may go on to the end of the walk are stopped by a reply, not by their limit. -/
theorem poll_ends (ends : enough none = true) (long : w.remaining < limit) :
    ∃ reply, (w.poll enough limit).1.getLast? = some reply ∧ enough reply = true := by
  induction limit generalizing w with
  | zero => cases long
  | succ limit ih =>
    rcases call : w.next with ⟨reply, w'⟩
    cases stops : enough reply with
    | true => exact ⟨reply, by rw [poll_stop call stops]; rfl, stops⟩
    | false =>
      cases reply with
      | none => exact absurd (ends.symm.trans stops) nofun
      | some item =>
        have less := remaining_next call
        obtain ⟨last, at_end, enough_last⟩ := ih (show w'.remaining < limit by omega)
        refine ⟨last, ?_, enough_last⟩
        rw [poll_go call stops, List.getLast?_cons, at_end]
        rfl

end Polling

theorem nth_eq_poll (k : Nat) (w : Walk) :
    w.nth k = ((w.poll Option.isNone (k + 1)).1[k]?.join, (w.poll Option.isNone (k + 1)).2) := by
  induction k generalizing w with
  | zero =>
    rcases call : w.next with ⟨_ | item, w'⟩
    · rw [poll_stop call rfl, nth, call]
      rfl
    · rw [poll_go call rfl, nth, call]
      rfl
  | succ k ih =>
    rcases call : w.next with ⟨_ | item, w'⟩
    · rw [poll_stop call rfl, nth, call]
      rfl
    · rw [poll_go call rfl, nth, call]
      exact ih w'

theorem takeInto_eq_poll (seen : Array Item) (k : Nat) (w : Walk) :
    takeInto seen k w =
      (seen ++ (w.poll Option.isNone k).1.reduceOption, (w.poll Option.isNone k).2) := by
  induction k generalizing seen w with
  | zero => simp [takeInto, poll]
  | succ k ih =>
    rcases call : w.next with ⟨_ | item, w'⟩
    · rw [poll_stop call rfl, takeInto, call]
      simp
    · rw [poll_go call rfl, takeInto, call]
      simp [ih]

theorem take_eq_poll (k : Nat) (w : Walk) :
    w.take k = ((w.poll Option.isNone k).1.reduceOption, (w.poll Option.isNone k).2) := by
  rw [take, takeInto_eq_poll]
  simp

theorem drain_eq_poll {limit : Nat} {w : Walk} (long : w.remaining < limit) :
    w.drain = ((w.poll Option.isNone limit).1.reduceOption, (w.poll Option.isNone limit).2) := by
  induction limit generalizing w with
  | zero => cases long
  | succ limit ih =>
    rcases call : w.next with ⟨_ | item, w'⟩
    · rw [poll_stop call rfl, drain_of_next_none call]
      rfl
    · have less := remaining_next call
      rw [poll_go call rfl, drain_of_next_some call, ih (by omega)]
      simp

end Walk

namespace Demand

/- Collecting gives up at a fault; the others see only that nothing more comes. -/
def enough : Demand → Option Item → Bool
  | .collect, some (.ok _) => false
  | .collect, _ => true
  | _, reply => reply.isNone

/- The calls a demand may make. A walk cannot yield more items than it has bytes left. -/
def limit (w : Walk) : Demand → Nat
  | .next => 1
  | .nth k => k + 1
  | .take k => k
  | .count | .last | .collect => w.remaining + 1

/- The calls a demand makes, and the state behind them. -/
def calls (d : Demand) (w : Walk) : List (Option Item) × Walk :=
  w.poll d.enough (d.limit w)

/- What is made of the replies. -/
def answer : Demand → List (Option Item) → Answer
  | .next, replies => .item replies[0]?.join
  | .nth k, replies => .item replies[k]?.join
  | .take _, replies => .items replies.reduceOption
  | .count, replies => .number replies.reduceOption.length
  | .last, replies => .item replies.reduceOption.getLast?
  | .collect, replies => .instructions (replies.reduceOption.mapM id)

theorem enough_none (d : Demand) : d.enough none = true := by
  cases d <;> rfl

theorem remaining_lt_limit {d : Demand} (drains : d ∈ [.count, .last, .collect]) (w : Walk) :
    w.remaining < d.limit w := by
  simp only [List.mem_cons, List.not_mem_nil, or_false] at drains
  rcases drains with rfl | rfl | rfl <;> exact Nat.lt_succ_self _

/- Behind a fault nothing is yielded, so it makes no difference to give up there. -/
theorem collect_eq_poll {limit : Nat} {w : Walk} (long : w.remaining < limit) :
    w.collect =
      ((w.poll collect.enough limit).1.reduceOption.mapM id, (w.poll collect.enough limit).2) := by
  induction limit generalizing w with
  | zero => cases long
  | succ limit ih =>
    rcases call : w.next with ⟨_ | item, w'⟩
    · rw [Walk.poll_stop call rfl, Walk.collect, Walk.drain_of_next_none call]
      rfl
    · have less := Walk.remaining_next call
      have rest : (w'.drain.1.mapM id, w'.drain.2) = _ := ih (by omega)
      rw [Walk.collect, Walk.drain_of_next_some call]
      cases item with
      | error fault =>
        rw [Walk.poll_stop call rfl, Walk.next_of_fault call, Walk.drain_of_next_none rfl]
        rfl
      | ok i =>
        obtain ⟨outcome, state⟩ := Prod.mk.inj rest
        rw [Walk.poll_go call rfl]
        dsimp only
        rw [List.reduceOption_cons_of_some, List.mapM_cons, List.mapM_cons, outcome, state]

end Demand

/-- A demand is served by calling for items one by one. -/
theorem Walk.serve_eq (w : Walk) (d : Demand) :
    w.serve d = (d.answer (d.calls w).1, (d.calls w).2) := by
  have drained := w.drain_eq_poll (Nat.lt_succ_self w.remaining)
  cases d with
  | next => exact congrArg (Prod.map Answer.item id) (w.nth_eq_poll 0)
  | nth k => exact congrArg (Prod.map Answer.item id) (w.nth_eq_poll k)
  | take k => exact congrArg (Prod.map Answer.items id) (w.take_eq_poll k)
  | count => exact congrArg (Prod.map (Answer.number ∘ List.length) id) drained
  | last => exact congrArg (Prod.map (Answer.item ∘ List.getLast?) id) drained
  | collect =>
    exact congrArg (Prod.map Answer.instructions id)
      (Demand.collect_eq_poll (Nat.lt_succ_self w.remaining))

/- A demand that has been served: the replies to the calls it made, and the answer. -/
structure Served where
  demand : Demand
  replies : List (Option Item)
  answer : Answer

namespace Walk

/- Serves demands one after the other. -/
def serveAll (w : Walk) : List Demand → List Served × Walk
  | [] => ([], w)
  | d :: demands =>
    let (answer, w') := w.serve d
    let (served, w'') := w'.serveAll demands
    (⟨d, (d.calls w).1, answer⟩ :: served, w'')

theorem serveAll_cons (w : Walk) (d : Demand) (demands : List Demand) :
    w.serveAll (d :: demands) =
      (⟨d, (d.calls w).1, d.answer (d.calls w).1⟩ :: ((d.calls w).2.serveAll demands).1,
        ((d.calls w).2.serveAll demands).2) := by
  rw [serveAll, serve_eq]

/- Any number of demands amounts to a number of calls. -/
theorem exists_serveAll_eq (w : Walk) (demands : List Demand) :
    ∃ n, (w.serveAll demands).1.flatMap Served.replies = w.replies n ∧
      (w.serveAll demands).2 = w.after n := by
  induction demands generalizing w with
  | nil => exact ⟨0, rfl, rfl⟩
  | cons d demands ih =>
    obtain ⟨m, calls⟩ := exists_poll_eq d.enough (d.limit w) w
    obtain ⟨n, rest, state⟩ := ih (w.after m)
    refine ⟨m + n, ?_⟩
    rw [serveAll_cons, Demand.calls, calls]
    exact ⟨by rw [List.flatMap_cons, rest, replies_add], by rw [state, after_add]⟩

theorem serveAll_of_idle {w : Walk} (idle : w.next = (none, w)) (demands : List Demand) :
    (w.serveAll demands).2 = w := by
  obtain ⟨n, -, state⟩ := w.exists_serveAll_eq demands
  rw [state, after_of_idle idle]

@[simp] theorem map_demand_serveAll (w : Walk) (demands : List Demand) :
    (w.serveAll demands).1.map Served.demand = demands := by
  induction demands generalizing w with
  | nil => rfl
  | cons d demands ih => rw [serveAll_cons, List.map_cons, ih]

theorem exists_of_mem_serveAll {w : Walk} {demands : List Demand} {served : Served}
    (member : served ∈ (w.serveAll demands).1) :
    ∃ w', served.replies = (served.demand.calls w').1 ∧
      served.answer = served.demand.answer served.replies := by
  induction demands generalizing w with
  | nil => cases member
  | cons d demands ih =>
    rw [serveAll_cons] at member
    rcases List.mem_cons.mp member with rfl | member
    · exact ⟨w, rfl, rfl⟩
    · exact ih member

end Walk

/-- Consumers of a walk, one after the other and in any order. The replies to all their calls are
the items of the walk in turn, the fault if there is one as the last, and then nothing for ever;
what each consumer answers is made of the replies to its own calls. The state they leave is told by
the number of calls alone: the start of the next instruction, until a call too many finds the walk
at its end, done if every byte has been read and failed if not. -/
theorem walk_serves_consumers (buffer : List UInt8) (demands : List Demand) :
    let items := (Walk.start buffer).items
    let run := (Walk.start buffer).instructions
    let n := run.length
    let o := Walk.boundary buffer
    let served := ((Walk.start buffer).serveAll demands).1
    let state := ((Walk.start buffer).serveAll demands).2
    let calls := served.flatMap Served.replies
    let fault? := (Walk.start buffer).fault?
    (o 0 = 0 ∧ (∀ k i, run[k]? = some i → i.offset = o k ∧ i.next = o (k + 1)) ∧
      ∀ k, o k ≤ buffer.length) ∧
    (items = run.map .ok ++ fault?.toList.map .error ∧
      (fault? = none ↔ o n = buffer.length)) ∧
    served.map Served.demand = demands ∧
    (∀ s ∈ served, s.answer = s.demand.answer s.replies) ∧
    calls = (List.range calls.length).map (fun k => items[k]?) ∧
    (calls.length ≤ n →
      state = .scanning (o calls.length) (buffer.drop (o calls.length))) ∧
    (n < calls.length → state = if o n = buffer.length then .done else .failed) ∧
    (∀ offset, state.offset? = some offset → offset ≤ buffer.length ∧
      ∀ further, state.next.2.offset? = some further → offset < further) ∧
    (∀ (j k : Nat) (fault : DecodeError), calls[j]? = some (some (.error fault)) → j < k →
      k < calls.length → calls[k]? = some none) ∧
    (∀ more, (state = .done → (state.serveAll more).2 = .done) ∧
      (state = .failed → (state.serveAll more).2 = .failed)) ∧
    (state = .done → n < calls.length ∧ o n = buffer.length) ∧
    n ≤ buffer.length ∧
    ∀ s ∈ served, s.demand ∈ [.count, .last, .collect] →
      ∃ reply, s.replies.getLast? = some reply ∧ s.demand.enough reply = true := by
  intro items run n o served state calls fault?
  obtain ⟨count, replies, reached⟩ := (Walk.start buffer).exists_serveAll_eq demands
  have counted : calls.length = count := by
    rw [show calls = _ from replies, Walk.length_replies]
  have replies : calls = (Walk.start buffer).replies calls.length := counted ▸ replies
  have reached : state = (Walk.start buffer).after calls.length := counted ▸ reached
  refine ⟨⟨rfl, ?_, Walk.boundary_le buffer⟩,
    ⟨Walk.items_start buffer, Walk.fault?_eq_none_iff buffer⟩,
    Walk.map_demand_serveAll _ demands, ?_, replies, ?_, ?_, ?_, ?_, ?_, ?_,
    Walk.length_instructions_le buffer, ?_⟩
  · intro k i here
    have place := Walk.offset_eq_boundary buffer here
    exact ⟨place.1, place.2.1⟩
  · intro s member
    obtain ⟨w, -, answered⟩ := Walk.exists_of_mem_serveAll member
    exact answered
  · intro inside
    rw [reached]
    exact Walk.after_start_of_le buffer inside
  · intro outside
    rw [reached]
    exact Walk.after_start_of_lt buffer outside
  · intro offset at_offset
    rw [reached] at at_offset ⊢
    constructor
    · obtain ⟨-, rfl⟩ := Walk.offset?_after_start buffer at_offset
      exact Walk.boundary_le buffer _
    · intro further at_further
      rw [← Walk.after_succ] at at_further
      exact Walk.offset?_after_start_lt buffer at_offset at_further
  · intro j k fault faulty behind inside
    rw [replies, Walk.getElem?_replies _ (Nat.lt_trans behind inside)] at faulty
    rw [replies, Walk.getElem?_replies _ inside,
      Walk.getElem?_items_of_fault (Option.some.inj faulty) behind]
  · intro more
    constructor
    · intro done
      rw [done]
      exact Walk.serveAll_of_idle rfl more
    · intro failed
      rw [failed]
      exact Walk.serveAll_of_idle rfl more
  · intro done
    exact Walk.after_start_eq_done buffer (reached.symm.trans done)
  · intro s member drains
    obtain ⟨w, made, -⟩ := Walk.exists_of_mem_serveAll member
    rw [made]
    exact Walk.poll_ends s.demand.enough_none (Demand.remaining_lt_limit drains w)

end Mos6502
