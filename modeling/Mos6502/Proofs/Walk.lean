import Mos6502.Proofs.Program
import Mos6502.Walk

/-! What a walk yields. Over the code of a program it yields the program's instructions, each where
the one before it ends; what is left behind them ends the walk, with a fault if it is not empty. -/
namespace Mos6502

namespace Walk

/- The instructions among items, up to the first fault. -/
def instructionsOf : List Item → List Instruction
  | .ok i :: rest => i :: instructionsOf rest
  | _ => []

def faultOf? : List Item → Option DecodeError
  | [] => none
  | .ok _ :: rest => faultOf? rest
  | .error fault :: _ => some fault

/- The instructions a walk still yields before it ends. -/
def instructions (w : Walk) : List Instruction :=
  instructionsOf w.items

/- The fault that ends a walk, if one does. -/
def fault? (w : Walk) : Option DecodeError :=
  faultOf? w.items

/- The end of the last of them, or the start of the buffer when there is none. -/
def reach (w : Walk) : Nat :=
  (w.instructions.getLast?.map Instruction.next).getD 0

theorem instructionsOf_map_ok (run : List Instruction) (rest : List Item) :
    instructionsOf (run.map .ok ++ rest) = run ++ instructionsOf rest := by
  induction run with
  | nil => rfl
  | cons i run ih => simp only [List.map_cons, List.cons_append, instructionsOf, ih]

theorem faultOf?_map_ok (run : List Instruction) (rest : List Item) :
    faultOf? (run.map .ok ++ rest) = faultOf? rest := by
  induction run with
  | nil => rfl
  | cons i run ih => simp only [List.map_cons, List.cons_append, faultOf?, ih]

theorem drainInto_of_next_none (seen : Array Item) {w w' : Walk} (ended : w.next = (none, w')) :
    drainInto seen w = (seen, w') := by
  rw [drainInto]
  split <;> simp_all

theorem drainInto_of_next_some (seen : Array Item) {w w' : Walk} {item : Item}
    (yielded : w.next = (some item, w')) : drainInto seen w = drainInto (seen.push item) w' := by
  rw [drainInto]
  split <;> simp_all

theorem drainInto_snd (seen seen' : Array Item) (w : Walk) :
    (drainInto seen w).2 = (drainInto seen' w).2 := by
  fun_induction drainInto seen w generalizing seen' with
  | case1 seen w w' ended => rw [drainInto_of_next_none seen' ended]
  | case2 seen w item w' yielded _ ih => rw [drainInto_of_next_some seen' yielded, ih]

theorem drain_of_next_none {w w' : Walk} (ended : w.next = (none, w')) : w.drain = ([], w') := by
  simp only [drain, drainInto_of_next_none #[] ended]

theorem drain_of_next_some {w w' : Walk} {item : Item} (yielded : w.next = (some item, w')) :
    w.drain = (item :: w'.drain.1, w'.drain.2) := by
  apply Prod.ext
  · rw [drain_fst, drain_fst, items_of_next_some yielded]
  · simp only [drain, drainInto_of_next_some #[] yielded]
    exact drainInto_snd _ _ _

theorem next_encode (c : Command) (offset : Nat) (rest : List UInt8) :
    (scanning offset (c.encode ++ rest)).next =
      (some (.ok (c.place offset)), .scanning (offset + c.length) rest) := by
  have decoded := c.decodeHead_encode offset rest
  have behind : (c.operandBytes ++ rest).drop ((c.place offset).length - 1) = rest :=
    List.drop_left' c.length_operandBytes
  simp only [Command.encode, List.cons_append] at decoded ⊢
  simp only [next, decoded, behind, c.next_place]

theorem next_stub (s : Stub) (offset : Nat) :
    (scanning offset s.bytes).next = (some (.error (s.fault offset)), .failed) := by
  have decoded := s.decodeHead_bytes offset
  simp only [Stub.bytes] at decoded ⊢
  simp only [next, decoded]

/-- A walk passes through code without looking at what follows it. -/
theorem drain_encode (offset : Nat) (program : List Command) (rest : List UInt8) :
    (scanning offset (Program.encode program ++ rest)).drain =
      ((Program.place offset program).map .ok ++
          (scanning (offset + Program.size program) rest).drain.1,
        (scanning (offset + Program.size program) rest).drain.2) := by
  -- Each command moves the offset, so the induction is for all offsets at once.
  induction program generalizing offset with
  | nil => rfl
  | cons c program ih =>
    have yielded := next_encode c offset (Program.encode program ++ rest)
    rw [← List.append_assoc] at yielded
    rw [Program.encode_cons, Program.size_cons, ← Nat.add_assoc, drain_of_next_some yielded, ih]
    rfl

end Walk

namespace Dissection

def fault? (d : Dissection) (offset : Nat) : Option DecodeError :=
  d.stub.map fun s => s.fault (offset + Program.size d.program)

theorem drain_bytes (d : Dissection) (offset : Nat) :
    (Walk.scanning offset d.bytes).drain =
      ((Program.place offset d.program).map .ok ++ (d.fault? offset).toList.map .error,
        if d.stub.isSome then .failed else .done) := by
  obtain ⟨program, stub⟩ := d
  rw [bytes, Walk.drain_encode]
  cases stub with
  | none =>
    have ended : (Walk.scanning (offset + Program.size program) []).drain = ([], .done) :=
      Walk.drain_of_next_none rfl
    simp only [tail, Option.map_none, Option.getD_none, ended, fault?, Option.toList_none,
      List.map_nil, Option.isSome_none, Bool.false_eq_true, if_false]
  | some s =>
    have ended : Walk.failed.drain = ([], .failed) := Walk.drain_of_next_none rfl
    have yielded := Walk.next_stub s (offset + Program.size program)
    simp only [tail, Option.map_some, Option.getD_some, Walk.drain_of_next_some yielded, ended,
      fault?, Option.toList_some, List.map_cons, List.map_nil, Option.isSome_some, if_true]

theorem items_bytes (d : Dissection) (offset : Nat) :
    (Walk.scanning offset d.bytes).items =
      (Program.place offset d.program).map .ok ++ (d.fault? offset).toList.map .error := by
  rw [← Walk.drain_fst, drain_bytes]

theorem instructions_bytes (d : Dissection) (offset : Nat) :
    (Walk.scanning offset d.bytes).instructions = Program.place offset d.program := by
  rw [Walk.instructions, items_bytes, Walk.instructionsOf_map_ok]
  cases d.fault? offset <;> simp [Walk.instructionsOf]

theorem fault?_bytes (d : Dissection) (offset : Nat) :
    (Walk.scanning offset d.bytes).fault? = d.fault? offset := by
  rw [Walk.fault?, items_bytes, Walk.faultOf?_map_ok]
  cases d.fault? offset <;> rfl

theorem isDone_drain_bytes (d : Dissection) (offset : Nat) :
    (Walk.scanning offset d.bytes).drain.2 = .done ↔ d.stub = none := by
  rw [drain_bytes]
  cases d.stub <;> simp

theorem stub_fault (d : Dissection) (offset : Nat) (fault : DecodeError)
    (cut : d.fault? offset = some fault) :
    ∃ opcode, d.bytes[Program.size d.program]? = some opcode ∧
      0 < d.bytes.length - Program.size d.program ∧
      d.bytes.length - Program.size d.program < (Descriptor.ofOpcode opcode).length ∧
      fault = .truncated (offset + Program.size d.program) (Descriptor.ofOpcode opcode).length
        (d.bytes.length - Program.size d.program) := by
  obtain ⟨s, has, rfl⟩ := Option.map_eq_some_iff.mp cut
  have tail : d.tail = s.bytes := by rw [Dissection.tail, has]; rfl
  have left : d.bytes.length - Program.size d.program = s.bytes.length := by
    rw [bytes, List.length_append, Program.length_encode, tail]
    omega
  refine ⟨s.opcode, ?_, ?_, ?_, ?_⟩
  · rw [bytes, tail, ← Program.length_encode, List.getElem?_append_right (Nat.le_refl _),
      Nat.sub_self]
    rfl
  · rw [left]
    exact Nat.succ_pos _
  · rw [left]
    exact Nat.succ_lt_succ s.short
  · rw [left]
    rfl

end Dissection

/- A walk yields instructions and then at most one fault. -/
theorem Walk.items_start (buffer : List UInt8) :
    (start buffer).items =
      (start buffer).instructions.map .ok ++ (start buffer).fault?.toList.map .error := by
  obtain ⟨d, rfl⟩ := Dissection.exists_bytes buffer
  rw [start, d.items_bytes, d.instructions_bytes, d.fault?_bytes]

theorem Walk.drain_start_done (buffer : List UInt8) :
    (start buffer).drain.2 = .done ↔ (start buffer).fault? = none := by
  obtain ⟨d, rfl⟩ := Dissection.exists_bytes buffer
  rw [start, d.isDone_drain_bytes, d.fault?_bytes, Dissection.fault?, Option.map_eq_none_iff]

/- A buffer that is walked to its end is the code of a program. -/
theorem Walk.exists_program {buffer : List UInt8} (done : (start buffer).drain.2 = .done) :
    ∃ program, buffer = Program.encode program ∧
      (start buffer).instructions = Program.place 0 program := by
  obtain ⟨⟨program, stub⟩, rfl⟩ := Dissection.exists_bytes buffer
  obtain rfl : stub = none := (Dissection.isDone_drain_bytes _ 0).mp done
  exact ⟨program, List.append_nil _, Dissection.instructions_bytes _ 0⟩

/- The instructions of a buffer follow each other without a gap. -/
theorem Walk.consecutive_offsets (buffer : List UInt8) :
    (∀ i, (start buffer).instructions[0]? = some i → i.offset = 0) ∧
      ∀ k i j, (start buffer).instructions[k]? = some i →
        (start buffer).instructions[k + 1]? = some j → j.offset = i.offset + i.length := by
  obtain ⟨d, rfl⟩ := Dissection.exists_bytes buffer
  rw [start, d.instructions_bytes]
  constructor
  · intro i first
    rw [Program.getElem?_place, Option.map_eq_some_iff] at first
    obtain ⟨c, -, rfl⟩ := first
    rfl
  · intro k i j
    exact Program.offset_place_succ 0 d.program k

theorem Walk.collect_start (buffer : List UInt8) :
    (start buffer).collect.1 =
      match (start buffer).fault? with
      | none => .ok (start buffer).instructions
      | some fault => .error fault := by
  rw [collect_fst, items_start]
  induction (start buffer).instructions with
  | nil => cases (start buffer).fault? <;> rfl
  | cons i run ih =>
    rw [List.map_cons, List.cons_append, List.mapM_cons, ih]
    cases (start buffer).fault? <;> rfl

theorem disassemble_eq (buffer : List UInt8) :
    disassemble buffer =
      match (Walk.start buffer).fault? with
      | none => .ok ((Walk.start buffer).instructions.map Instruction.text)
      | some fault => .error fault := by
  rw [disassemble, Walk.collect_start]
  cases (Walk.start buffer).fault? <;> rfl

/-- The instructions of a walk are the buffer cut into pieces. They start at its first byte, each
begins where the one before it ends, and their bytes are those of the buffer up to the end of the
last. That is the whole buffer, or what is left is too short for the opcode it starts with. -/
theorem walk_partitions_buffer (buffer : List UInt8) :
    (Walk.start buffer).items =
      (Walk.start buffer).instructions.map .ok ++ (Walk.start buffer).fault?.toList.map .error ∧
    (∀ i, (Walk.start buffer).instructions[0]? = some i → i.offset = 0) ∧
    (∀ (k : Nat) (i j : Instruction), (Walk.start buffer).instructions[k]? = some i →
      (Walk.start buffer).instructions[k + 1]? = some j → j.offset = i.offset + i.length) ∧
    ((Walk.start buffer).instructions.mapM Instruction.bytes?).map List.flatten =
      some (buffer.take (Walk.start buffer).reach) ∧
    ((Walk.start buffer).fault? = none → (Walk.start buffer).reach = buffer.length ∧
      ((Walk.start buffer).instructions.mapM Instruction.bytes?).map List.flatten = some buffer) ∧
    (∀ fault, (Walk.start buffer).fault? = some fault →
      let left := buffer.length - (Walk.start buffer).reach
      ∃ opcode, buffer[(Walk.start buffer).reach]? = some opcode ∧
        0 < left ∧ left < (Descriptor.ofOpcode opcode).length ∧
        fault = .truncated (Walk.start buffer).reach (Descriptor.ofOpcode opcode).length left) ∧
    ∀ offset, .error (.endOfStream offset) ∉ (Walk.start buffer).items := by
  obtain ⟨first, behind⟩ := Walk.consecutive_offsets buffer
  refine ⟨Walk.items_start buffer, first, behind, ?_⟩
  obtain ⟨d, rfl⟩ := Dissection.exists_bytes buffer
  have stop := Program.end_place 0 d.program
  have code : d.bytes.take (Program.size d.program) = Program.encode d.program :=
    List.take_left' (Program.length_encode d.program)
  simp only [Walk.reach, Walk.start, d.instructions_bytes, d.fault?_bytes, d.items_bytes, stop,
    Nat.zero_add, Program.bytes?_place, Option.map_some, ← List.flatMap_def, code]
  refine ⟨rfl, ?_, ?_, ?_⟩
  · intro whole
    have empty : d.tail = [] := by rw [Dissection.tail, Option.map_eq_none_iff.mp whole]; rfl
    have all : d.bytes = Program.encode d.program := by
      rw [Dissection.bytes, empty, List.append_nil]
    rw [all, Program.length_encode]
    exact ⟨rfl, rfl⟩
  · intro fault cut
    simpa only [Nat.zero_add] using d.stub_fault 0 fault cut
  · intro offset yielded
    rcases List.mem_append.mp yielded with yielded | yielded
    · simp at yielded
    · obtain ⟨fault, cut, same⟩ := List.mem_map.mp yielded
      obtain ⟨opcode, -, -, -, rfl⟩ := d.stub_fault 0 fault (by simpa using cut)
      cases same

/-- Walking assembled code yields what was assembled: each command in turn, with its own opcode and
operand, behind all the bytes before it, and nothing else. -/
theorem walk_inverts_assembly (program : List Command) :
    let walked := (Walk.start (program.flatMap Command.encode)).drain
    walked.1.length = program.length ∧ walked.2 = .done ∧
    ∀ (k : Nat) (c : Command), program[k]? = some c → walked.1[k]? = some (.ok {
      offset := ((program.take k).map Command.length).sum
      opcode := c.opcode
      descriptor := .ofOpcode c.opcode
      operand := c.operand
      length := (Descriptor.ofOpcode c.opcode).length }) := by
  have walked := Dissection.drain_bytes ⟨program, none⟩ 0
  have bytes : Dissection.bytes ⟨program, none⟩ = program.flatMap Command.encode :=
    List.append_nil _
  have nothing : Dissection.fault? ⟨program, none⟩ 0 = none := rfl
  rw [bytes, nothing, Option.toList_none, List.map_nil, List.append_nil] at walked
  simp only [Walk.start, walked, List.length_map, Program.length_place]
  refine ⟨trivial, rfl, ?_⟩
  intro k c listed
  rw [List.getElem?_map, Program.getElem?_place, listed, Nat.zero_add]
  rfl

end Mos6502
