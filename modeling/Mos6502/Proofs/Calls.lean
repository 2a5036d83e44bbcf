import Mos6502.Proofs.Walk

/-! Calling a walk for items one by one. Each call takes the next of the items that are left, so the
replies to any number of calls, and the state behind them, are told by that number alone. -/
namespace Mos6502

namespace Walk

/- The state behind `n` calls. -/
def after : Nat → Walk → Walk
  | 0, w => w
  | n + 1, w => after n w.next.2

/- The replies to `n` calls. -/
def replies (n : Nat) (w : Walk) : List (Option Item) :=
  (List.range n).map fun k => w.items[k]?

/- The step that yields nothing is the last one to change the walk. -/
theorem next_of_next_none {w w' : Walk} (ended : w.next = (none, w')) : w'.next = (none, w') := by
  match w with
  | .scanning _ [] => cases ended; rfl
  | .done => cases ended; rfl
  | .failed => cases ended; rfl
  | .scanning offset (byte :: rest) =>
    simp only [next] at ended
    split at ended <;> cases ended

theorem next_of_fault {w w' : Walk} {fault : DecodeError}
    (yielded : w.next = (some (.error fault), w')) : w' = .failed := by
  match w with
  | .scanning _ [] => cases yielded
  | .done => cases yielded
  | .failed => cases yielded
  | .scanning offset (byte :: rest) =>
    simp only [next] at yielded
    split at yielded <;> cases yielded
    rfl

theorem next_fst (w : Walk) : w.next.1 = w.items.head? := by
  cases yielded : w.next with
  | mk reply w' =>
    cases reply with
    | none => simp [items_of_next_none yielded]
    | some item => simp [items_of_next_some yielded]

@[simp] theorem items_next (w : Walk) : w.next.2.items = w.items.tail := by
  cases yielded : w.next with
  | mk reply w' =>
    cases reply with
    | none => simp [items_of_next_none yielded, items_of_next_none (next_of_next_none yielded)]
    | some item => simp [items_of_next_some yielded]

theorem after_succ (n : Nat) (w : Walk) : w.after (n + 1) = (w.after n).next.2 := by
  induction n generalizing w with
  | zero => rfl
  | succ n ih => exact ih w.next.2

theorem after_add (m n : Nat) (w : Walk) : w.after (m + n) = (w.after m).after n := by
  induction n with
  | zero => rfl
  | succ n ih => rw [← Nat.add_assoc, after_succ, after_succ, ih]

@[simp] theorem items_after (n : Nat) (w : Walk) : (w.after n).items = w.items.drop n := by
  induction n with
  | zero => rfl
  | succ n ih => rw [after_succ, items_next, ih, List.tail_drop]

@[simp] theorem length_replies (n : Nat) (w : Walk) : (w.replies n).length = n := by
  simp [replies]

theorem getElem?_replies {n k : Nat} (w : Walk) (inside : k < n) :
    (w.replies n)[k]? = some w.items[k]? := by
  simp [replies, inside]

theorem replies_succ (n : Nat) (w : Walk) :
    w.replies (n + 1) = w.next.1 :: w.next.2.replies n := by
  have tail (k : Nat) : w.items.tail[k]? = w.items[k + 1]? := List.getElem?_tail
  simp only [replies, List.range_succ_eq_map, List.map_cons, List.map_map, next_fst, items_next,
    tail, List.head?_eq_getElem?]
  rfl

theorem replies_add (m n : Nat) (w : Walk) :
    w.replies (m + n) = w.replies m ++ (w.after m).replies n := by
  simp only [replies, List.range_add, List.map_append, List.map_map, items_after,
    List.getElem?_drop]
  rfl

/- Nothing follows a fault. -/
theorem getElem?_items_of_fault {w : Walk} {j k : Nat} {fault : DecodeError}
    (faulty : w.items[j]? = some (.error fault)) (behind : j < k) : w.items[k]? = none := by
  have call : (w.after j).next.1 = some (.error fault) := by
    rw [next_fst, items_after, List.head?_drop, faulty]
  have failed : w.after (j + 1) = .failed := by
    rw [after_succ]
    exact next_of_fault (Prod.ext call rfl)
  have nothing : w.items.drop (j + 1) = [] := by
    rw [← items_after, failed]
    exact items_of_next_none rfl
  exact List.getElem?_eq_none (Nat.le_trans (List.drop_eq_nil_iff.mp nothing) behind)

end Walk

theorem Program.length_le_size (program : List Command) : program.length ≤ size program := by
  induction program with
  | nil => exact Nat.le_refl 0
  | cons c program ih =>
    have positive : 0 < c.length := Nat.succ_pos _
    rw [size_cons, List.length_cons]
    omega

namespace Walk

/- Where instruction `k` of a buffer starts, and behind the last one where that ends. -/
def boundary (buffer : List UInt8) (k : Nat) : Nat :=
  (((start buffer).instructions.take k).map Instruction.length).sum

/- A walk that a call does not change is never changed again. -/
theorem after_of_idle {w : Walk} (idle : w.next = (none, w)) (n : Nat) : w.after n = w := by
  induction n with
  | zero => rfl
  | succ n ih => rw [after, idle, ih]

/- As many calls as there are commands pass through their code. -/
theorem after_encode (offset : Nat) (program : List Command) (rest : List UInt8) :
    (scanning offset (Program.encode program ++ rest)).after program.length =
      .scanning (offset + Program.size program) rest := by
  induction program generalizing offset with
  | nil => rfl
  | cons c program ih =>
    have yielded := next_encode c offset (Program.encode program ++ rest)
    rw [← List.append_assoc] at yielded
    rw [Program.encode_cons, Program.size_cons, ← Nat.add_assoc, List.length_cons, after, yielded,
      ih]

end Walk

namespace Dissection

@[simp] theorem length_instructions_bytes (d : Dissection) :
    (Walk.start d.bytes).instructions.length = d.program.length := by
  rw [Walk.start, d.instructions_bytes, Program.length_place]

@[simp] theorem boundary_bytes (d : Dissection) (k : Nat) :
    Walk.boundary d.bytes k = Program.size (d.program.take k) := by
  have lengths : (Program.place 0 d.program).map Instruction.length =
      d.program.map Command.length := Program.map_place (fun _ _ => rfl) 0 d.program
  rw [Walk.boundary, Walk.start, d.instructions_bytes, List.map_take, lengths, ← List.map_take,
    Program.size]

theorem after_bytes_of_le (d : Dissection) {n : Nat} (inside : n ≤ d.program.length) :
    (Walk.start d.bytes).after n =
      .scanning (Walk.boundary d.bytes n) (d.bytes.drop (Walk.boundary d.bytes n)) := by
  have split : d.bytes =
      Program.encode (d.program.take n) ++ (Program.encode (d.program.drop n) ++ d.tail) := by
    rw [bytes, ← List.append_assoc, ← Program.encode_append, List.take_append_drop]
  have behind : d.bytes.drop (Program.size (d.program.take n)) =
      Program.encode (d.program.drop n) ++ d.tail := by
    rw [split]
    exact List.drop_left' (Program.length_encode _)
  have passed :=
    Walk.after_encode 0 (d.program.take n) (Program.encode (d.program.drop n) ++ d.tail)
  rw [← split, List.length_take_of_le inside, Nat.zero_add] at passed
  rw [boundary_bytes, behind]
  exact passed

theorem after_bytes_of_lt (d : Dissection) {n : Nat} (outside : d.program.length < n) :
    (Walk.start d.bytes).after n = if d.stub.isSome then .failed else .done := by
  obtain ⟨more, rfl⟩ := Nat.exists_eq_add_of_lt outside
  have passed := Walk.after_encode 0 d.program d.tail
  rw [Nat.add_assoc, Walk.after_add, Walk.start, bytes, passed, Walk.after]
  obtain ⟨program, stub⟩ := d
  cases stub with
  | none => exact Walk.after_of_idle rfl more
  | some s =>
    have yielded := Walk.next_stub s (0 + Program.size program)
    change ((Walk.scanning _ s.bytes).next.2).after more = _
    rw [yielded]
    exact Walk.after_of_idle rfl more

theorem stub_eq_none_iff (d : Dissection) :
    d.stub = none ↔ Walk.boundary d.bytes d.program.length = d.bytes.length := by
  rw [boundary_bytes, List.take_length, length_bytes]
  obtain ⟨program, stub⟩ := d
  cases stub with
  | none => simp [tail]
  | some s => simp [tail, Stub.bytes]

end Dissection

namespace Walk

section Boundaries

variable (buffer : List UInt8)

theorem offset_eq_boundary {k : Nat} {i : Instruction}
    (here : (start buffer).instructions[k]? = some i) :
    i.offset = boundary buffer k ∧ i.next = boundary buffer (k + 1) ∧
      boundary buffer k < boundary buffer (k + 1) := by
  obtain ⟨d, rfl⟩ := Dissection.exists_bytes buffer
  rw [start, d.instructions_bytes, Program.getElem?_place, Option.map_eq_some_iff] at here
  obtain ⟨c, at_k, rfl⟩ := here
  have step : Program.size (d.program.take (k + 1)) =
      Program.size (d.program.take k) + c.length := by
    rw [List.take_add_one, at_k, Program.size_append]
    rfl
  rw [d.boundary_bytes, d.boundary_bytes, step, c.next_place, Nat.zero_add]
  exact ⟨rfl, rfl, Nat.lt_add_of_pos_right (Nat.succ_pos _)⟩

theorem boundary_le (k : Nat) : boundary buffer k ≤ buffer.length := by
  obtain ⟨d, rfl⟩ := Dissection.exists_bytes buffer
  have split := congrArg Program.size (List.take_append_drop k d.program)
  rw [Program.size_append] at split
  rw [d.boundary_bytes, d.length_bytes]
  omega

theorem offset_lt_length {i : Instruction} (walked : i ∈ (start buffer).instructions) :
    i.offset < buffer.length := by
  obtain ⟨k, here⟩ := List.mem_iff_getElem?.mp walked
  obtain ⟨start, -, step⟩ := offset_eq_boundary buffer here
  have inside := boundary_le buffer (k + 1)
  omega

theorem length_instructions_le : (start buffer).instructions.length ≤ buffer.length := by
  obtain ⟨d, rfl⟩ := Dissection.exists_bytes buffer
  have bound := Program.length_le_size d.program
  rw [d.length_instructions_bytes, d.length_bytes]
  omega

theorem fault?_eq_none_iff :
    (start buffer).fault? = none ↔
      boundary buffer (start buffer).instructions.length = buffer.length := by
  obtain ⟨d, rfl⟩ := Dissection.exists_bytes buffer
  rw [d.length_instructions_bytes, ← d.stub_eq_none_iff, start, d.fault?_bytes, Dissection.fault?,
    Option.map_eq_none_iff]

/- The state behind any number of calls. The end of the data is noticed one call late. -/
theorem after_start_of_le {n : Nat} (inside : n ≤ (start buffer).instructions.length) :
    (start buffer).after n =
      .scanning (boundary buffer n) (buffer.drop (boundary buffer n)) := by
  obtain ⟨d, rfl⟩ := Dissection.exists_bytes buffer
  rw [d.length_instructions_bytes] at inside
  exact d.after_bytes_of_le inside

theorem after_start_of_lt {n : Nat} (outside : (start buffer).instructions.length < n) :
    (start buffer).after n =
      if boundary buffer (start buffer).instructions.length = buffer.length then .done
      else .failed := by
  obtain ⟨d, rfl⟩ := Dissection.exists_bytes buffer
  rw [d.length_instructions_bytes] at outside ⊢
  rw [d.after_bytes_of_lt outside]
  by_cases whole : d.stub = none
  · rw [if_pos (d.stub_eq_none_iff.mp whole), whole]
    rfl
  · rw [if_neg (mt d.stub_eq_none_iff.mpr whole), if_pos (Option.isSome_iff_ne_none.mpr whole)]

theorem offset?_after_start {n offset : Nat}
    (at_offset : ((start buffer).after n).offset? = some offset) :
    n ≤ (start buffer).instructions.length ∧ offset = boundary buffer n := by
  by_cases inside : n ≤ (start buffer).instructions.length
  · rw [after_start_of_le buffer inside] at at_offset
    exact ⟨inside, (Option.some.inj at_offset).symm⟩
  · rw [after_start_of_lt buffer (Nat.lt_of_not_le inside)] at at_offset
    split at at_offset <;> cases at_offset

/- As long as a walk scans, every call moves it on. -/
theorem offset?_after_start_lt {n offset further : Nat}
    (here : ((start buffer).after n).offset? = some offset)
    (behind : ((start buffer).after (n + 1)).offset? = some further) : offset < further := by
  obtain ⟨-, rfl⟩ := offset?_after_start buffer here
  obtain ⟨inside, rfl⟩ := offset?_after_start buffer behind
  exact (offset_eq_boundary buffer (List.getElem?_eq_getElem inside)).2.2

theorem after_start_eq_done {n : Nat} (ended : (start buffer).after n = .done) :
    (start buffer).instructions.length < n ∧
      boundary buffer (start buffer).instructions.length = buffer.length := by
  by_cases inside : n ≤ (start buffer).instructions.length
  · rw [after_start_of_le buffer inside] at ended
    cases ended
  · have outside := Nat.lt_of_not_le inside
    refine ⟨outside, ?_⟩
    rw [after_start_of_lt buffer outside] at ended
    split at ended
    · assumption
    · cases ended

end Boundaries

end Walk

end Mos6502
