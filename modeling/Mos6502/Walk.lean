import Mos6502.Instruction.Text

/-! Walking a buffer from its start, instruction after instruction. A walk ends when every byte has
been read, or behind the first fault. -/
namespace Mos6502

abbrev Item := Except DecodeError Instruction

inductive Walk where
  /-- The next instruction starts at `offset`, and `rest` is what follows from there. -/
  | scanning (offset : Nat) (rest : List UInt8)
  | done
  | failed
deriving DecidableEq, Repr

namespace Walk

def start (buffer : List UInt8) : Walk :=
  .scanning 0 buffer

def offset? : Walk → Option Nat
  | .scanning offset _ => some offset
  | _ => none

def isDone : Walk → Bool
  | .done => true
  | _ => false

def hasFailed : Walk → Bool
  | .failed => true
  | _ => false

/-- The end of the data is noticed only by the step behind the last instruction. -/
def next : Walk → Option Item × Walk
  | .scanning _ [] => (none, .done)
  | .scanning offset (byte :: rest) =>
    match Instruction.decodeHead offset (byte :: rest) with
    | .ok i => (some (.ok i), .scanning i.next (rest.drop (i.length - 1)))
    | .error fault => (some (.error fault), .failed)
  | .done => (none, .done)
  | .failed => (none, .failed)

def remaining : Walk → Nat
  | .scanning _ rest => rest.length
  | _ => 0

theorem remaining_next {w w' : Walk} {item : Item} (yielded : w.next = (some item, w')) :
    w'.remaining < w.remaining := by
  match w with
  | .scanning _ [] => simp [next] at yielded
  | .done => simp [next] at yielded
  | .failed => simp [next] at yielded
  | .scanning offset (byte :: rest) =>
    simp only [next] at yielded
    split at yielded
    · obtain ⟨-, rfl⟩ := Prod.mk.inj yielded
      simp only [remaining, List.length_drop, List.length_cons]
      omega
    · obtain ⟨-, rfl⟩ := Prod.mk.inj yielded
      simp [remaining]

def items (w : Walk) : List Item :=
  match yielded : w.next with
  | (none, _) => []
  | (some item, w') =>
    have := remaining_next yielded
    item :: items w'
termination_by w.remaining

def drainInto (seen : Array Item) (w : Walk) : Array Item × Walk :=
  match yielded : w.next with
  | (none, w') => (seen, w')
  | (some item, w') =>
    have := remaining_next yielded
    drainInto (seen.push item) w'
termination_by w.remaining

def drain (w : Walk) : List Item × Walk :=
  let (seen, w') := drainInto #[] w
  (seen.toList, w')

theorem items_of_next_none {w w' : Walk} (ended : w.next = (none, w')) : w.items = [] := by
  rw [items]
  split <;> simp_all

theorem items_of_next_some {w w' : Walk} {item : Item} (yielded : w.next = (some item, w')) :
    w.items = item :: w'.items := by
  rw [items]
  split <;> simp_all

theorem drainInto_fst (seen : Array Item) (w : Walk) :
    (drainInto seen w).1.toList = seen.toList ++ w.items := by
  fun_induction drainInto seen w with
  | case1 seen w w' ended => simp [items_of_next_none ended]
  | case2 seen w item w' yielded _ ih => simp [ih, items_of_next_some yielded]

theorem drain_fst (w : Walk) : w.drain.1 = w.items := by
  simpa [drain] using drainInto_fst #[] w

def nth : Nat → Walk → Option Item × Walk
  | 0, w => w.next
  | k + 1, w =>
    match w.next with
    | (none, w') => (none, w')
    | (some _, w') => nth k w'

def takeInto (seen : Array Item) : Nat → Walk → Array Item × Walk
  | 0, w => (seen, w)
  | k + 1, w =>
    match w.next with
    | (none, w') => (seen, w')
    | (some item, w') => takeInto (seen.push item) k w'

def take (k : Nat) (w : Walk) : List Item × Walk :=
  let (seen, w') := takeInto #[] k w
  (seen.toList, w')

def count (w : Walk) : Nat × Walk :=
  let (left, w') := w.drain
  (left.length, w')

def last? (w : Walk) : Option Item × Walk :=
  let (left, w') := w.drain
  (left.getLast?, w')

def collect (w : Walk) : Except DecodeError (List Instruction) × Walk :=
  let (left, w') := w.drain
  (left.mapM id, w')

theorem collect_fst (w : Walk) : w.collect.1 = w.items.mapM id := by
  rw [← drain_fst]
  rfl

end Walk

def disassemble (buffer : List UInt8) : Except DecodeError (List String) :=
  (Walk.start buffer).collect.1.map (·.map Instruction.text)

end Mos6502
