import Mos6502.Proofs.Listing

/-! Walks of joined buffers. What a walk of the front reads stays as it is; the rest is walked as a
buffer of its own and only stands further back. -/
namespace Mos6502

def Instruction.shift (p : Nat) (i : Instruction) : Instruction :=
  { i with offset := p + i.offset }

namespace DecodeError

def offset : DecodeError → Nat
  | .endOfStream offset => offset
  | .truncated offset _ _ => offset

def shift (p : Nat) : DecodeError → DecodeError
  | .endOfStream offset => .endOfStream (p + offset)
  | .truncated offset needed available => .truncated (p + offset) needed available

end DecodeError

def ListingError.shift (p : Nat) : ListingError → ListingError
  | .undecodable fault => .undecodable (fault.shift p)
  | .unwritable fault => .unwritable fault

namespace Walk

def shiftItem (p : Nat) (item : Item) : Item :=
  (item.map (Instruction.shift p)).mapError (DecodeError.shift p)

/- Where the walk of a buffer stops: at its end, or at the fault. -/
def stop (buffer : List UInt8) : Nat :=
  match (start buffer).fault? with
  | none => buffer.length
  | some fault => fault.offset

end Walk

theorem Program.place_add (p offset : Nat) (program : List Command) :
    place (p + offset) program = (place offset program).map (Instruction.shift p) := by
  induction program generalizing offset with
  | nil => rfl
  | cons c program ih =>
    rw [place, place, List.map_cons, Nat.add_assoc, ih]
    rfl

namespace Dissection

theorem fault?_add (d : Dissection) (p offset : Nat) :
    d.fault? (p + offset) = (d.fault? offset).map (DecodeError.shift p) := by
  rw [fault?, fault?, Option.map_map, Nat.add_assoc]
  rfl

theorem stop_bytes (d : Dissection) : Walk.stop d.bytes = Program.size d.program := by
  rw [Walk.stop, Walk.start, d.fault?_bytes]
  obtain ⟨program, stub⟩ := d
  cases stub with
  | none =>
    change (bytes ⟨program, none⟩).length = _
    simp [tail]
  | some s => exact Nat.zero_add _

theorem drop_stop_bytes (d : Dissection) : d.bytes.drop (Walk.stop d.bytes) = d.tail := by
  rw [stop_bytes, bytes]
  exact List.drop_left' (Program.length_encode d.program)

end Dissection

namespace Walk

theorem instructions_scanning (p : Nat) (rest : List UInt8) :
    (scanning p rest).instructions = (start rest).instructions.map (Instruction.shift p) := by
  obtain ⟨d, rfl⟩ := Dissection.exists_bytes rest
  rw [start, d.instructions_bytes, d.instructions_bytes]
  exact Program.place_add p 0 d.program

theorem fault?_scanning (p : Nat) (rest : List UInt8) :
    (scanning p rest).fault? = (start rest).fault?.map (DecodeError.shift p) := by
  obtain ⟨d, rfl⟩ := Dissection.exists_bytes rest
  rw [start, d.fault?_bytes, d.fault?_bytes]
  exact d.fault?_add p 0

/- A walk that starts further on yields the same items, only further on. -/
theorem items_scanning (p : Nat) (rest : List UInt8) :
    (scanning p rest).items = (start rest).items.map (shiftItem p) := by
  obtain ⟨d, rfl⟩ := Dissection.exists_bytes rest
  have program := Program.place_add p 0 d.program
  have fault := d.fault?_add p 0
  rw [Nat.add_zero] at program fault
  rw [start, d.items_bytes, d.items_bytes, program, fault, List.map_append]
  congr 1
  · simp only [List.map_map]
    rfl
  · cases d.fault? 0 <;> rfl

/- The front is passed through as code; where it is cut off, the walk goes on from the cut. -/
theorem items_append (a b : List UInt8) :
    (start (a ++ b)).items = (start a).instructions.map .ok ++
      (scanning (stop a) (a.drop (stop a) ++ b)).items := by
  obtain ⟨d, rfl⟩ := Dissection.exists_bytes a
  have passed := drain_encode 0 d.program (d.tail ++ b)
  rw [← List.append_assoc] at passed
  rw [start, start, d.instructions_bytes, d.drop_stop_bytes, d.stop_bytes, ← drain_fst, ← drain_fst,
    Dissection.bytes, passed, Nat.zero_add]

theorem stop_eq_length {buffer : List UInt8} (whole : (start buffer).fault? = none) :
    stop buffer = buffer.length := by
  rw [stop, whole]

/- The instructions are those of a program whose code reaches that far. -/
theorem exists_program_of_stop (buffer : List UInt8) :
    ∃ program, (start buffer).instructions = Program.place 0 program ∧
      buffer.take (stop buffer) = Program.encode program := by
  obtain ⟨d, rfl⟩ := Dissection.exists_bytes buffer
  refine ⟨d.program, d.instructions_bytes 0, ?_⟩
  rw [d.stop_bytes]
  exact List.take_left' (Program.length_encode d.program)

/- Every instruction of a walk is a command at some place. -/
theorem exists_place {buffer : List UInt8} {i : Instruction}
    (walked : i ∈ (start buffer).instructions) :
    ∃ (c : Command) (offset : Nat), i = c.place offset := by
  obtain ⟨program, placed, -⟩ := exists_program_of_stop buffer
  rw [placed] at walked
  obtain ⟨c, -, offset, same⟩ := Program.exists_of_mem_place walked
  exact ⟨c, offset, same⟩

theorem flatMap_bytes (buffer : List UInt8) :
    (start buffer).instructions.flatMap Instruction.bytes = buffer.take (stop buffer) := by
  obtain ⟨program, placed, code⟩ := exists_program_of_stop buffer
  rw [placed, code, Program.flatMap_bytes_place]

theorem drain_start (buffer : List UInt8) :
    (start buffer).drain =
      ((start buffer).instructions.map .ok ++ (start buffer).fault?.toList.map .error,
        if (start buffer).fault?.isSome then .failed else .done) := by
  obtain ⟨d, rfl⟩ := Dissection.exists_bytes buffer
  rw [start, d.drain_bytes, d.instructions_bytes, d.fault?_bytes, Dissection.fault?,
    Option.isSome_map]

/- A fault tells of an opcode at the stop with too few bytes behind it. -/
theorem fault_at_stop {buffer : List UInt8} {fault : DecodeError}
    (cut : (start buffer).fault? = some fault) :
    ∃ opcode, buffer[stop buffer]? = some opcode ∧ 0 < buffer.length - stop buffer ∧
      buffer.length - stop buffer < (Descriptor.ofOpcode opcode).length ∧
      fault = .truncated (stop buffer) (Descriptor.ofOpcode opcode).length
        (buffer.length - stop buffer) := by
  obtain ⟨d, rfl⟩ := Dissection.exists_bytes buffer
  rw [start, d.fault?_bytes] at cut
  rw [d.stop_bytes]
  simpa only [Nat.zero_add] using d.stub_fault 0 fault cut

theorem instructions_append {a : List UInt8} (whole : (start a).fault? = none) (b : List UInt8) :
    (start (a ++ b)).instructions =
      (start a).instructions ++ (start b).instructions.map (Instruction.shift a.length) := by
  rw [← instructions_scanning, instructions, items_append, instructionsOf_map_ok,
    stop_eq_length whole, List.drop_length]
  rfl

theorem fault?_append {a : List UInt8} (whole : (start a).fault? = none) (b : List UInt8) :
    (start (a ++ b)).fault? = (start b).fault?.map (DecodeError.shift a.length) := by
  rw [← fault?_scanning, fault?, items_append, faultOf?_map_ok, stop_eq_length whole,
    List.drop_length]
  rfl

end Walk

namespace Instruction

theorem address_shift (i : Instruction) (p : Nat) (origin : UInt16) :
    (i.shift p).address origin = i.address (UInt16.ofNat (origin.toNat + p)) := by
  apply UInt16.toNat_inj.mp
  simp only [address, shift, UInt16.toNat_ofNat']
  omega

theorem destination_shift (i : Instruction) (p : Nat) (origin : UInt16) :
    (i.shift p).destination origin = i.destination (UInt16.ofNat (origin.toNat + p)) := by
  have same : (origin.toNat + (i.shift p).next + i.displacement) % 2 ^ 16 =
      ((UInt16.ofNat (origin.toNat + p)).toNat + i.next + i.displacement : Int) % 2 ^ 16 := by
    simp only [next, shift, UInt16.toNat_ofNat']
    omega
  simp only [destination, UInt16.ofInt]
  exact congrArg (fun n => UInt16.ofNat (Int.toNat n)) same

end Instruction

namespace Layout

/- The layout for a part of the buffer that begins `p` bytes further on. -/
def advance (layout : Layout) (p : Nat) : Layout :=
  { layout with origin := UInt16.ofNat (layout.origin.toNat + p) }

theorem line_shift (layout : Layout) (p : Nat) (i : Instruction) :
    layout.line (i.shift p) = (layout.advance p).line i := by
  have address : layout.addressField (i.shift p) = (layout.advance p).addressField i := by
    rw [addressField, addressField, i.address_shift]
    rfl
  have assembly : layout.assembly (i.shift p) = (layout.advance p).assembly i := by
    cases style : layout.branches with
    | binary =>
      simp only [Layout.assembly, advance, style]
      rfl
    | target =>
      simp only [Layout.assembly, advance, style, Instruction.resolvedText, i.destination_shift]
      rfl
  rw [line, line, address, assembly]
  rfl

theorem text_shift (layout : Layout) (p : Nat) (run : List Instruction) :
    layout.text (run.map (Instruction.shift p)) = (layout.advance p).text run := by
  simp only [text, List.map_map, Function.comp_def, line_shift]

end Layout

theorem disassemble_append {a : List UInt8} (whole : (Walk.start a).fault? = none)
    (b : List UInt8) :
    disassemble (a ++ b) =
      ((disassemble b).map ((Walk.start a).instructions.map Instruction.text ++ ·)).mapError
        (DecodeError.shift a.length) := by
  rw [disassemble_eq, disassemble_eq, Walk.instructions_append whole, Walk.fault?_append whole]
  cases (Walk.start b).fault? with
  | none =>
    have text (i : Instruction) : (i.shift a.length).text = i.text := rfl
    have lines : ((Walk.start a).instructions ++
        (Walk.start b).instructions.map (Instruction.shift a.length)).map Instruction.text =
        (Walk.start a).instructions.map Instruction.text ++
          (Walk.start b).instructions.map Instruction.text := by
      simp only [List.map_append, List.map_map, Function.comp_def, text]
    exact congrArg Except.ok lines
  | some fault => rfl

namespace Listing

theorem kept_append (layout : Layout) {a : List UInt8} (whole : (Walk.start a).fault? = none)
    (b : List UInt8) :
    (write layout (a ++ b) {}).sink.kept =
      (write layout a {}).sink.kept ++ (write (layout.advance a.length) b {}).sink.kept := by
  simp only [write_unlimited, Walk.instructions_append whole, Layout.text_append, Layout.text_shift,
    utf8_append, List.append_toArray]

theorem result_append (layout : Layout) {a : List UInt8} (whole : (Walk.start a).fault? = none)
    (b : List UInt8) :
    (write layout (a ++ b) {}).result =
      ((write (layout.advance a.length) b {}).result.map
        ((Walk.start a).instructions.length + ·)).mapError (ListingError.shift a.length) := by
  rw [result_write_unlimited, result_write_unlimited, Walk.instructions_append whole,
    Walk.fault?_append whole, List.length_append, List.length_map]
  cases (Walk.start b).fault? <;> rfl

end Listing

/-- A walk of two joined buffers yields the instructions of the first, then what a walk of the rest
yields, moved back by where the first one stops. Where the first one ends without a fault, texts and
listings are joined too, the second with its origin moved on. -/
theorem walk_append_shifted (a b : List UInt8) :
    (Walk.start (a ++ b)).items =
      (Walk.start a).instructions.map .ok ++
        (Walk.start (a.drop (Walk.stop a) ++ b)).items.map (Walk.shiftItem (Walk.stop a)) ∧
    ((Walk.start a).drain.2 = .done →
      (∃ lines, disassemble a = .ok lines ∧
        disassemble (a ++ b) =
          ((disassemble b).map (lines ++ ·)).mapError (DecodeError.shift a.length)) ∧
      ∀ layout : Layout,
        let front := Listing.write layout a {}
        let back :=
          Listing.write { layout with origin := .ofNat (layout.origin.toNat + a.length) } b {}
        let whole := Listing.write layout (a ++ b) {}
        whole.sink.kept = front.sink.kept ++ back.sink.kept ∧
        ∃ n, front.result = .ok n ∧
          whole.result = (back.result.map (n + ·)).mapError (ListingError.shift a.length) ∧
          ((Walk.start b).drain.2 = .done →
            ∃ m, back.result = .ok m ∧ whole.result = .ok (n + m))) := by
  constructor
  · rw [Walk.items_append, Walk.items_scanning]
  · intro done
    have whole := (Walk.drain_start_done a).mp done
    constructor
    · refine ⟨_, ?_, disassemble_append whole b⟩
      rw [disassemble_eq, whole]
    · intro layout
      have joined := Listing.result_append layout whole b
      refine ⟨Listing.kept_append layout whole b, (Walk.start a).instructions.length, ?_, joined,
        ?_⟩
      · rw [Listing.result_write_unlimited, whole]
      · intro ended
        have counted := Listing.result_write_unlimited (layout.advance a.length) b
        rw [(Walk.drain_start_done b).mp ended] at counted
        rw [counted] at joined
        exact ⟨_, counted, joined⟩

end Mos6502
