import Mos6502.Proofs.Composition
import Mos6502.Proofs.Line

/-! One byte of a buffer replaced by another. Where an instruction ends depends on opcodes alone, so
as long as no opcode gives way to one of another length, every instruction keeps its place, and all
but the one with the byte in it stay the same. -/
namespace Mos6502

namespace Command

/- The operand may become anything, the opcode any other of that length. -/
theorem exists_set (c : Command) (k : Nat) (v : UInt8)
    (keeps : k = 0 → (Descriptor.ofOpcode v).length = c.length) :
    ∃ c' : Command, c'.encode = c.encode.set k v ∧ c'.length = c.length := by
  have patched : ∃ c' : Command, c'.encode = c.encode.set k v := by
    cases k with
    | zero =>
      apply exists_encode_eq
      simpa using (Nat.succ.inj (keeps rfl)).symm
    | succ k =>
      apply exists_encode_eq
      simp [descriptor]
  obtain ⟨c', encoded⟩ := patched
  refine ⟨c', encoded, ?_⟩
  simpa using congrArg List.length encoded

end Command

theorem Stub.exists_set (s : Stub) (k : Nat) (v : UInt8)
    (keeps : k = 0 → (Descriptor.ofOpcode v).length = (Descriptor.ofOpcode s.opcode).length) :
    ∃ s' : Stub, s'.bytes = s.bytes.set k v ∧ ∀ offset, s'.fault offset = s.fault offset := by
  cases k with
  | zero =>
    have same := keeps rfl
    have short : s.operand.length < (Descriptor.ofOpcode v).mode.operandSize := by
      rw [Nat.succ.inj same]
      exact s.short
    refine ⟨⟨v, s.operand, short⟩, rfl, ?_⟩
    intro offset
    simp [fault, bytes, same]
  | succ k =>
    refine ⟨⟨s.opcode, s.operand.set k v, by simpa using s.short⟩, rfl, ?_⟩
    intro offset
    simp [fault, bytes]

namespace Program

theorem getElem?_encode_start {program : List Command} {k : Nat} {c : Command}
    (here : program[k]? = some c) :
    (encode program)[size (program.take k)]? = some c.opcode :=
  getElem?_encode_within here (Nat.succ_pos _)

theorem getElem?_place_zero {program : List Command} {k : Nat} {c : Command}
    (here : program[k]? = some c) :
    (place 0 program)[k]? = some (c.place (size (program.take k))) := by
  simp [getElem?_place, here]

/- The byte lies in one of the commands, and only that one has to change. -/
theorem exists_set (program : List Command) (v : UInt8) {p : Nat} (inside : p < size program)
    (keeps : ∀ k c, program[k]? = some c → size (program.take k) = p →
      (Descriptor.ofOpcode v).length = c.length) :
    ∃ k c c', program[k]? = some c ∧ c'.length = c.length ∧
      size (program.take k) ≤ p ∧ p < size (program.take k) + c.length ∧
      encode (program.set k c') = (encode program).set p v := by
  induction program generalizing p with
  | nil => exact absurd inside (Nat.not_lt_zero p)
  | cons d program ih =>
    by_cases within : p < d.length
    · obtain ⟨d', encoded, length⟩ := d.exists_set p v fun zero => keeps 0 d rfl zero.symm
      refine ⟨0, d, d', rfl, length, Nat.zero_le p, ?_, ?_⟩
      · simpa [size] using within
      · rw [List.set_cons_zero, encode_cons, encode_cons, encoded,
          List.set_append_left _ _ (by simpa using within)]
    · obtain ⟨m, rfl⟩ := Nat.exists_eq_add_of_le (Nat.le_of_not_lt within)
      simp only [size_cons, Nat.add_lt_add_iff_left] at inside
      have behind : ∀ k c, program[k]? = some c → size (program.take k) = m →
          (Descriptor.ofOpcode v).length = c.length := by
        intro k c here start
        apply keeps (k + 1) c here
        simp [start]
      obtain ⟨k, c, c', here, length, above, below, encoded⟩ := ih inside behind
      refine ⟨k + 1, c, c', here, length, ?_, ?_, ?_⟩
      · simpa using above
      · simpa [Nat.add_assoc] using below
      · rw [List.set_cons_succ, encode_cons, encode_cons, encoded,
          List.set_append_right _ _ (by simp), d.length_encode, Nat.add_sub_cancel_left]

theorem place_set (offset : Nat) {program : List Command} {k : Nat} {c c' : Command}
    (here : program[k]? = some c) (length : c'.length = c.length) :
    place offset (program.set k c') =
      (place offset program).set k (c'.place (offset + size (program.take k))) := by
  induction program generalizing offset k with
  | nil => simp at here
  | cons d program ih =>
    cases k with
    | zero =>
      obtain rfl : d = c := by simpa using here
      simp only [List.set_cons_zero, place, length]
      rfl
    | succ k =>
      simp only [List.set_cons_succ, place, List.take_succ_cons, size_cons, ← Nat.add_assoc]
      rw [ih (offset + d.length) here]

end Program

/- The second run is the first, but for one instruction with the byte at `p` in it, whose place
another takes. -/
def SameBut (p : Nat) (run run' : List Instruction) : Prop :=
  run' = run ∨ ∃ k i j, run[k]? = some i ∧ run' = run.set k j ∧
    j.offset = i.offset ∧ j.length = i.length ∧ i.offset ≤ p ∧ p < i.next

namespace SameBut

variable {p : Nat} {run run' : List Instruction}

theorem spans (same : SameBut p run run') :
    run'.map (fun i => (i.offset, i.length)) = run.map (fun i => (i.offset, i.length)) := by
  rcases same with rfl | ⟨k, i, j, here, rfl, offset, length, -, -⟩
  · rfl
  · have bound := (List.getElem?_eq_some_iff.mp here).1
    apply List.ext_getElem?
    intro m
    simp only [List.getElem?_map]
    by_cases there : k = m
    · subst there
      simp only [List.getElem?_set_self bound, here, Option.map_some, offset, length]
    · rw [List.getElem?_set_ne there]

theorem elsewhere (same : SameBut p run run') {k : Nat} {i : Instruction}
    (here : run[k]? = some i) (apart : ¬ (i.offset ≤ p ∧ p < i.next)) : run'[k]? = some i := by
  rcases same with rfl | ⟨m, i', j, there, rfl, -, -, above, below⟩
  · exact here
  · have differ : m ≠ k := by
      rintro rfl
      obtain rfl : i' = i := Option.some.inj (there.symm.trans here)
      exact apart ⟨above, below⟩
    rw [List.getElem?_set_ne differ, here]

theorem map {α : Type} (same : SameBut p run run') (f : Instruction → α) :
    ∃ k, ∀ m : Nat, m ≠ k → (run'.map f)[m]? = (run.map f)[m]? := by
  rcases same with rfl | ⟨k, i, j, -, rfl, -⟩
  · exact ⟨0, fun _ _ => rfl⟩
  · refine ⟨k, ?_⟩
    intro m differ
    simp [List.getElem?_set_ne differ.symm]

end SameBut

/- The walk reads the byte at `p` as an opcode, be it one whose operand is cut off. -/
def Walk.OpcodeAt (buffer : List UInt8) (p : Nat) : Prop :=
  (∃ i ∈ (start buffer).instructions, i.offset = p) ∨
    ∃ fault, (start buffer).fault? = some fault ∧ fault.offset = p

namespace Dissection

theorem opcodeAt_command (d : Dissection) {k : Nat} {c : Command}
    (here : d.program[k]? = some c) :
    Walk.OpcodeAt d.bytes (Program.size (d.program.take k)) ∧
      d.bytes[Program.size (d.program.take k)]? = some c.opcode := by
  have opcode := Program.getElem?_encode_start here
  constructor
  · refine .inl ⟨c.place (Program.size (d.program.take k)), ?_, rfl⟩
    rw [Walk.start, d.instructions_bytes]
    exact List.mem_of_getElem? (Program.getElem?_place_zero here)
  · rw [bytes, List.getElem?_append_left (List.getElem?_eq_some_iff.mp opcode).1, opcode]

theorem opcodeAt_stub (d : Dissection) {s : Stub} (has : d.stub = some s) :
    Walk.OpcodeAt d.bytes (Program.size d.program) ∧
      d.bytes[Program.size d.program]? = some s.opcode := by
  constructor
  · refine .inr ⟨s.fault (Program.size d.program), ?_, rfl⟩
    rw [Walk.start, d.fault?_bytes, fault?, has, Nat.zero_add]
    rfl
  · rw [bytes, tail, has, List.getElem?_append_right (by simp), Program.length_encode, Nat.sub_self]
    rfl

theorem exists_set (d : Dissection) (v : UInt8) {p : Nat} {old : UInt8}
    (here : d.bytes[p]? = some old)
    (keeps : Walk.OpcodeAt d.bytes p →
      (Descriptor.ofOpcode v).length = (Descriptor.ofOpcode old).length) :
    ∃ d' : Dissection, d'.bytes = d.bytes.set p v ∧ d'.fault? 0 = d.fault? 0 ∧
      SameBut p (Program.place 0 d.program) (Program.place 0 d'.program) := by
  have opcode_kept {q : Nat} {opcode : UInt8} (start : q = p)
      (read : Walk.OpcodeAt d.bytes q ∧ d.bytes[q]? = some opcode) :
      (Descriptor.ofOpcode v).length = (Descriptor.ofOpcode opcode).length := by
    subst start
    obtain rfl := Option.some.inj (read.2.symm.trans here)
    exact keeps read.1
  by_cases inside : p < Program.size d.program
  · obtain ⟨k, c, c', at_k, length, above, below, encoded⟩ :=
      Program.exists_set d.program v inside fun k c at_k start =>
        opcode_kept start (d.opcodeAt_command at_k)
    have sizes : Program.size (d.program.set k c') = Program.size d.program := by
      simpa using congrArg List.length encoded
    refine ⟨⟨d.program.set k c', d.stub⟩, ?_, ?_, ?_⟩
    · rw [bytes, bytes, List.set_append_left _ _ (by simpa using inside), ← encoded]
      rfl
    · rw [fault?, fault?, sizes]
    · rw [Program.place_set 0 at_k length, Nat.zero_add]
      exact .inr ⟨k, _, _, Program.getElem?_place_zero at_k, rfl, rfl, length, above, below⟩
  · obtain ⟨m, rfl⟩ := Nat.exists_eq_add_of_le (Nat.le_of_not_lt inside)
    cases has : d.stub with
    | none =>
      have bound := (List.getElem?_eq_some_iff.mp here).1
      simp only [length_bytes, tail, has, Option.map_none, Option.getD_none,
        List.length_nil] at bound
      omega
    | some s =>
      obtain ⟨s', patched, same⟩ := s.exists_set m v fun zero =>
        opcode_kept (by rw [zero]; rfl) (d.opcodeAt_stub has)
      refine ⟨⟨d.program, some s'⟩, ?_, ?_, .inl rfl⟩
      · rw [bytes, bytes, List.set_append_right _ _ (by simp), Program.length_encode,
          Nat.add_sub_cancel_left]
        simp only [tail, has, Option.map_some, Option.getD_some, patched]
      · simp only [fault?, has, Option.map_some, same]

end Dissection

/- Both walks end alike, and one instruction at most is another. -/
theorem Walk.sameBut_set {buffer : List UInt8} (v : UInt8) {p : Nat} {old : UInt8}
    (here : buffer[p]? = some old)
    (keeps : OpcodeAt buffer p →
      (Descriptor.ofOpcode v).length = (Descriptor.ofOpcode old).length) :
    (start (buffer.set p v)).fault? = (start buffer).fault? ∧
      SameBut p (start buffer).instructions (start (buffer.set p v)).instructions := by
  obtain ⟨d, rfl⟩ := Dissection.exists_bytes buffer
  obtain ⟨d', patched, fault, same⟩ := d.exists_set v here keeps
  rw [← patched, start, start, d.fault?_bytes, d'.fault?_bytes, d.instructions_bytes,
    d'.instructions_bytes]
  exact ⟨fault, same⟩

/-- A byte replaced in a buffer, where it is no opcode, or the new one is as long as the old. The
walk passes the same boundaries and ends the same way, and each instruction without the byte in it
is the same as before. So a listing in any layout counts or fails as before, and has at most one line
that is not as it was. -/
theorem patch_is_local (buffer : List UInt8) (p : Nat) (old v : UInt8)
    (here : buffer[p]? = some old)
    (keeps : Walk.OpcodeAt buffer p →
      (Descriptor.ofOpcode v).length = (Descriptor.ofOpcode old).length) :
    let run := (Walk.start buffer).instructions
    let run' := (Walk.start (buffer.set p v)).instructions
    run'.map (fun i => (i.offset, i.length)) = run.map (fun i => (i.offset, i.length)) ∧
    run'.length = run.length ∧
    (Walk.start (buffer.set p v)).fault? = (Walk.start buffer).fault? ∧
    (Walk.start (buffer.set p v)).drain.2 = (Walk.start buffer).drain.2 ∧
    (∀ (k : Nat) (i : Instruction), run[k]? = some i → ¬ (i.offset ≤ p ∧ p < i.next) →
      run'[k]? = some i) ∧
    ∀ layout : Layout,
      let listing := Listing.write layout buffer {}
      let listing' := Listing.write layout (buffer.set p v) {}
      listing'.result = listing.result ∧
      ∃ text text' : String,
        listing.sink.kept.toList = utf8 text ∧ listing'.sink.kept.toList = utf8 text' ∧
        text = String.join ((lines text).map (· ++ "\n")) ∧
        text' = String.join ((lines text').map (· ++ "\n")) ∧
        (lines text').length = (lines text).length ∧
        ∃ k, ∀ m : Nat, m ≠ k → (lines text')[m]? = (lines text)[m]? := by
  intro run run'
  obtain ⟨fault, same⟩ := Walk.sameBut_set v here keeps
  have spans := same.spans
  have length : run'.length = run.length := by simpa using congrArg List.length spans
  refine ⟨spans, length, fault, ?_, fun _ _ => same.elsewhere, ?_⟩
  · rw [Walk.drain_start, Walk.drain_start, fault]
  · intro layout listing listing'
    constructor
    · simp only [listing, listing', Listing.result_write_unlimited, fault]
      rw [← length]
    · refine ⟨layout.text run, layout.text run', ?_, ?_, layout.text_listing buffer,
        layout.text_listing (buffer.set p v), ?_, ?_⟩
      · simp only [listing, Listing.write_unlimited, run]
      · simp only [listing', Listing.write_unlimited, run']
      · simpa [run, run', Layout.lines_listing] using length
      · simp only [run, run', Layout.lines_listing]
        exact same.map layout.line

/- The first opcode of three, the last of which is cut off, exchanged for another of two bytes. -/
theorem patch_is_local_opcode :
    let buffer : List UInt8 := [0xA9, 0x05, 0xEA, 0x20, 0x00]
    (Walk.start (buffer.set 0 0xA5)).fault? = (Walk.start buffer).fault? ∧
      (Walk.start (buffer.set 0 0xA5)).instructions[1]? =
        some ⟨2, 0xEA, ⟨.nop, .implied⟩, 0, 1⟩ := by
  intro buffer
  have nop : (Walk.start buffer).instructions[1]? = some ⟨2, 0xEA, ⟨.nop, .implied⟩, 0, 1⟩ := by
    decide +kernel
  obtain ⟨-, -, fault, -, elsewhere, -⟩ :=
    patch_is_local buffer 0 0xA9 0xA5 rfl fun _ => by decide
  exact ⟨fault, elsewhere 1 _ nop (by decide)⟩

end Mos6502
