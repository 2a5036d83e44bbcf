import Mos6502.Proofs.Bounded
import Mos6502.Proofs.Calls

/-! Walking through a buffer, and disassembling it, in words of fixed size. An offset that a walk
reaches is the end of an instruction in the buffer, so no call ends in a trap, and a walk in words
goes the way of a walk in numbers of any size. -/
namespace Mos6502

namespace Walk

section Collect

variable {w w' : Walk}

theorem collect_of_next_none (ended : w.next = (none, w')) : w.collect.1 = .ok [] := by
  rw [collect_fst, items_of_next_none ended]
  rfl

theorem collect_of_next_fault {fault : DecodeError}
    (yielded : w.next = (some (.error fault), w')) : w.collect.1 = .error fault := by
  rw [collect_fst, items_of_next_some yielded]
  rfl

theorem collect_of_next_ok {i : Instruction} (yielded : w.next = (some (.ok i), w')) :
    w.collect.1 = w'.collect.1.map (i :: ·) := by
  rw [collect_fst, collect_fst, items_of_next_some yielded, List.mapM_cons]
  cases w'.items.mapM id <;> rfl

end Collect

theorem next_scanning {buffer : List UInt8} {offset : Nat} (inside : offset < buffer.length) :
    (scanning offset (buffer.drop offset)).next =
      match Instruction.decode buffer offset with
      | .ok i => (some (.ok i), .scanning i.next (buffer.drop i.next))
      | .error fault => (some (.error fault), .failed) := by
  have front := Instruction.drop_of_found (List.getElem?_eq_getElem inside)
  cases decoded : Instruction.decode buffer offset with
  | error fault =>
    rw [Instruction.decode, front] at decoded
    simp only [front, next, decoded]
  | ok i =>
    obtain ⟨start, positive, -, -⟩ := Instruction.bounds_of_decode decoded
    have behind : offset + 1 + (i.length - 1) = i.next := by
      rw [Instruction.next]
      omega
    rw [Instruction.decode, front] at decoded
    simp only [front, next, decoded, List.drop_drop, behind]

end Walk

namespace Bounded

inductive Scanner where
  | scanning (offset : UInt64)
  | done
  | failed

namespace Scanner

def toWalk (buffer : List UInt8) : Scanner → Walk
  | .scanning offset => .scanning offset.toNat (buffer.drop offset.toNat)
  | .done => .done
  | .failed => .failed

def next (buffer : List UInt8) :
    Scanner → Except Trap (Option (Except DecodeError Decoded) × Scanner)
  | .scanning offset =>
    if buffer.length ≤ offset.toNat then .ok (none, .done)
    else do
      match ← decode buffer offset with
      | .ok d => return (some (.ok d), .scanning (← d.next))
      | .error fault => return (some (.error fault), .failed)
  | .done => .ok (none, .done)
  | .failed => .ok (none, .failed)

/- The replies to `n` calls, and the state behind them. -/
def calls (buffer : List UInt8) :
    Nat → Scanner → Except Trap (List (Option (Except DecodeError Decoded)) × Scanner)
  | 0, s => .ok ([], s)
  | n + 1, s => do
    let (reply, s) ← s.next buffer
    let (replies, s) ← s.calls buffer n
    return (reply :: replies, s)

/- A bound on the replies still to come. -/
def remaining (buffer : List UInt8) : Scanner → Nat
  | .scanning offset => buffer.length - offset.toNat
  | _ => 0

end Scanner

section Termination

theorem exists_of_bind {α β : Type} {x : Except Trap α} {rest : α → Except Trap β} {b : β}
    (goes_on : (x >>= rest) = .ok b) : ∃ a, x = .ok a ∧ rest a = .ok b := by
  cases x with
  | error trap => cases goes_on
  | ok a => exact ⟨a, rfl, goes_on⟩

theorem lt_of_add {a b c : UInt64} (added : add a b = .ok c) (positive : 1 ≤ b.toNat) :
    a.toNat < c.toNat := by
  unfold add at added
  split at added
  · rename_i small
    cases added
    rw [UInt64.toNat_add, Nat.mod_eq_of_lt small]
    omega
  · cases added

/- Whatever the numbers do, an instruction starts where it was looked for and is not empty. -/
theorem start_of_decode {buffer : List UInt8} {offset : UInt64} {d : Decoded}
    (decoded : decode buffer offset = .ok (.ok d)) : d.offset = offset ∧ 1 ≤ d.length.toNat := by
  unfold decode at decoded
  split at decoded
  · cases decoded
  · obtain ⟨⟨bytes?, left⟩, -, decoded⟩ := exists_of_bind decoded
    cases bytes? with
    | none => cases decoded
    | some bytes =>
      obtain ⟨operand, -, decoded⟩ := exists_of_bind decoded
      cases decoded
      exact ⟨rfl, by rw [toNat_length]; exact Nat.succ_pos _⟩

theorem Scanner.remaining_next {buffer : List UInt8} {s s' : Scanner}
    {item : Except DecodeError Decoded} (yielded : s.next buffer = .ok (some item, s')) :
    s'.remaining buffer < s.remaining buffer := by
  cases s with
  | done => cases yielded
  | failed => cases yielded
  | scanning offset =>
    simp only [next] at yielded
    split at yielded
    · cases yielded
    · rename_i inside
      obtain ⟨found, decoded, yielded⟩ := exists_of_bind yielded
      cases found with
      | error fault =>
        cases yielded
        exact Nat.sub_pos_of_lt (Nat.lt_of_not_le inside)
      | ok d =>
        obtain ⟨stop, ends, yielded⟩ := exists_of_bind yielded
        cases yielded
        obtain ⟨rfl, positive⟩ := start_of_decode decoded
        have further := lt_of_add ends positive
        simp only [remaining]
        omega

end Termination

/- The instructions that are left, or the fault among them. -/
def Scanner.collect (buffer : List UInt8) (s : Scanner) :
    Except Trap (Except DecodeError (List Decoded)) :=
  match called : s.next buffer with
  | .error trap => .error trap
  | .ok (none, _) => .ok (.ok [])
  | .ok (some (.error fault), _) => .ok (.error fault)
  | .ok (some (.ok d), s') =>
    have := remaining_next called
    (s'.collect buffer).map fun outcome => outcome.map (d :: ·)
termination_by s.remaining buffer

def disassemble (buffer : List UInt8) : Except Trap (Except DecodeError (List String)) :=
  ((Scanner.scanning 0).collect buffer).map fun outcome =>
    outcome.map (·.map fun d => d.toInstruction.text)

section Buffer

variable {buffer : List UInt8} (small : buffer.length < 2 ^ 63)

include small

namespace Scanner

/-- One call is answered without a trap, and as a walk answers it. -/
theorem next_eq_ok (s : Scanner) :
    ∃ reply s', s.next buffer = .ok (reply, s') ∧
      (s.toWalk buffer).next = (reply.map (Except.map Decoded.toInstruction), s'.toWalk buffer) ∧
      ∀ d, reply = some (.ok d) → Within buffer d := by
  cases s with
  | done => exact ⟨none, .done, rfl, rfl, by simp⟩
  | failed => exact ⟨none, .failed, rfl, rfl, by simp⟩
  | scanning offset =>
    by_cases behind : buffer.length ≤ offset.toNat
    · refine ⟨none, .done, if_pos behind, ?_, by simp⟩
      rw [toWalk, List.drop_eq_nil_of_le behind]
      rfl
    · have walked := Walk.next_scanning (Nat.lt_of_not_le behind)
      obtain ⟨item, decoded, view⟩ := decode_eq_ok small offset
      rw [← view] at walked
      cases item with
      | error fault =>
        refine ⟨some (.error fault), .failed, ?_, walked, by simp⟩
        simp only [next, if_neg behind, decoded, bind, Except.bind]
        rfl
      | ok d =>
        have within := within_of_decode small decoded
        obtain ⟨stop, next_ok, stop_eq⟩ := Decoded.next_eq_ok (within.next_lt small)
        refine ⟨some (.ok d), .scanning stop, ?_, ?_, ?_⟩
        · simp only [next, if_neg behind, decoded, next_ok, bind, Except.bind]
          rfl
        · simp only [toWalk, walked, stop_eq, Except.map]
          rfl
        · rintro d' same
          cases same
          exact within

theorem next_toWalk {s s' : Scanner} {reply : Option (Except DecodeError Decoded)}
    (called : s.next buffer = .ok (reply, s')) :
    (s.toWalk buffer).next =
      (reply.map (Except.map Decoded.toInstruction), s'.toWalk buffer) := by
  obtain ⟨_, _, answered, walked, -⟩ := next_eq_ok small s
  cases called.symm.trans answered
  exact walked

/-- So are any number of calls, one after the other. -/
theorem calls_eq_ok (n : Nat) (s : Scanner) :
    ∃ replies s', s.calls buffer n = .ok (replies, s') ∧
      replies.map (Option.map (Except.map Decoded.toInstruction)) =
        (s.toWalk buffer).replies n ∧
      s'.toWalk buffer = (s.toWalk buffer).after n ∧
      ∀ d, some (.ok d) ∈ replies → Within buffer d := by
  induction n generalizing s with
  | zero => exact ⟨[], s, rfl, rfl, rfl, by simp⟩
  | succ n ih =>
    obtain ⟨reply, s', called, walked, within⟩ := next_eq_ok small s
    obtain ⟨replies, s'', rest, same, state, within'⟩ := ih s'
    refine ⟨reply :: replies, s'', ?_, ?_, ?_, ?_⟩
    · simp only [calls, called, rest, bind, Except.bind]
      rfl
    · rw [Walk.replies_succ, walked, List.map_cons, same]
    · rw [state, Walk.after, walked]
    · intro d member
      rcases List.mem_cons.mp member with here | behind
      · exact within d here.symm
      · exact within' d behind

/-- A run to the end collects what a walk collects. -/
theorem collect_eq_ok (s : Scanner) :
    ∃ outcome, s.collect buffer = .ok outcome ∧
      outcome.map (List.map Decoded.toInstruction) = (s.toWalk buffer).collect.1 := by
  -- The cases are those of the run itself; the one with a trap does not arise.
  fun_induction Scanner.collect buffer s with
  | case1 s trap called =>
    obtain ⟨reply, s', answered, -, -⟩ := next_eq_ok small s
    cases called.symm.trans answered
  | case2 s s' called =>
    have ended := next_toWalk small called
    exact ⟨.ok [], rfl, (Walk.collect_of_next_none ended).symm⟩
  | case3 s fault s' called =>
    have yielded := next_toWalk small called
    exact ⟨.error fault, rfl, (Walk.collect_of_next_fault yielded).symm⟩
  | case4 s d s' called _ ih =>
    have yielded := next_toWalk small called
    obtain ⟨outcome, collected, same⟩ := ih
    refine ⟨outcome.map (d :: ·), by rw [collected]; rfl, ?_⟩
    rw [Walk.collect_of_next_ok yielded, ← same]
    cases outcome <;> rfl

end Scanner

theorem disassemble_eq_ok : disassemble buffer = .ok (Mos6502.disassemble buffer) := by
  obtain ⟨outcome, collected, same⟩ := Scanner.collect_eq_ok small (.scanning 0)
  have start : (Scanner.scanning 0).toWalk buffer = Walk.start buffer := rfl
  rw [disassemble, collected, Mos6502.disassemble, ← start, ← same]
  cases outcome with
  | error fault => rfl
  | ok run => simp [Except.map]

end Buffer

end Bounded

/-- No number leaves its range. With words of 64 bits, a buffer of less than 2^63 bytes and any word
for an offset, decoding takes every step without a trap and gives the answer that is right without
bounds; so do any number of calls for the next instruction, and the disassembly of the whole. Each
instruction that comes out of this ends within the buffer, and its bytes and lines, in any layout,
come without a trap as well. -/
theorem words_stay_in_range (buffer : List UInt8) (small : buffer.length < 2 ^ 63) :
    (∀ offset : UInt64, ∃ item, Bounded.decode buffer offset = .ok item ∧
      item.map Bounded.Decoded.toInstruction = Instruction.decode buffer offset.toNat ∧
      ∀ d, item = .ok d → Bounded.Sound buffer d) ∧
    (∀ n, ∃ replies s, (Bounded.Scanner.scanning 0).calls buffer n = .ok (replies, s) ∧
      replies.map (Option.map (Except.map Bounded.Decoded.toInstruction)) =
        (Walk.start buffer).replies n ∧
      s.toWalk buffer = (Walk.start buffer).after n ∧
      ∀ d, some (.ok d) ∈ replies → Bounded.Sound buffer d) ∧
    Bounded.disassemble buffer = .ok (disassemble buffer) := by
  refine ⟨?_, ?_, Bounded.disassemble_eq_ok small⟩
  · intro offset
    obtain ⟨item, decoded, view⟩ := Bounded.decode_eq_ok small offset
    refine ⟨item, decoded, view, ?_⟩
    rintro d rfl
    exact (Bounded.within_of_decode small decoded).sound small
  · intro n
    obtain ⟨replies, s, called, same, state, within⟩ :=
      Bounded.Scanner.calls_eq_ok small n (.scanning 0)
    refine ⟨replies, s, called, same, state, ?_⟩
    intro d member
    exact (within d member).sound small

/- A jump that ends with its buffer, and the last of all offsets. -/
theorem words_stay_in_range_edge :
    (∃ d, Bounded.decode [0xEA, 0x4C, 0x34, 0x12] 1 = .ok (.ok d) ∧
      d.raw = .ok [0x4C, 0x34, 0x12] ∧ ∃ stop, d.next = .ok stop ∧ stop.toNat = 4) ∧
    Bounded.decode [0xEA, 0x4C, 0x34, 0x12] 0xFFFFFFFFFFFFFFFF =
      .ok (.error (.endOfStream 0xFFFFFFFFFFFFFFFF)) := by
  obtain ⟨decoding, -, -⟩ := words_stay_in_range [0xEA, 0x4C, 0x34, 0x12] (by decide)
  constructor
  · obtain ⟨item, decoded, view, sound⟩ := decoding 1
    have jump : Instruction.decode [0xEA, 0x4C, 0x34, 0x12] 1 =
        .ok ⟨1, 0x4C, ⟨.jmp, .absolute⟩, 0x1234, 3⟩ := by decide +kernel
    cases item with
    | error fault => cases view.trans jump
    | ok d =>
      have same : d.toInstruction = _ := Except.ok.inj (view.trans jump)
      obtain ⟨-, ⟨stop, next, stop_eq, -⟩, raw, -⟩ := sound d rfl
      rw [same] at raw stop_eq
      exact ⟨d, decoded, raw, stop, next, stop_eq⟩
  · obtain ⟨item, decoded, view, -⟩ := decoding 0xFFFFFFFFFFFFFFFF
    have nothing : Instruction.decode [0xEA, 0x4C, 0x34, 0x12] 0xFFFFFFFFFFFFFFFF = _ :=
      Instruction.decode_of_le (by decide)
    cases item with
    | error fault =>
      cases view.trans nothing
      exact decoded
    | ok d => cases view.trans nothing

end Mos6502
