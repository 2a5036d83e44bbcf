import Mathlib.Data.List.Forall2
import Mos6502.Proofs.Line

/-! What a listing with addresses tells. The addresses give the lengths, although they wrap; the
lengths tell apart the modes that share a syntax; so only the illegal opcodes, which all look alike,
are lost. -/
namespace Mos6502

/- Equal, up to which of the illegal opcodes it is. -/
def Command.Alike (c d : Command) : Prop :=
  c = d ∨ c.descriptor.isIllegal = true ∧ d.descriptor.isIllegal = true

namespace Command.Alike

variable {c d : Command}

theorem length (alike : c.Alike d) : c.length = d.length := by
  rcases alike with rfl | ⟨c_illegal, d_illegal⟩
  · rfl
  · have c_table := Descriptor.ofOpcode_of_isIllegal c.opcode c_illegal
    have d_table := Descriptor.ofOpcode_of_isIllegal d.opcode d_illegal
    exact congrArg Descriptor.length (c_table.trans d_table.symm)

end Command.Alike

theorem Command.encode_of_isIllegal {c : Command} (unofficial : c.descriptor.isIllegal = true) :
    c.encode = [c.opcode] := by
  have table := Descriptor.ofOpcode_of_isIllegal c.opcode unofficial
  rw [encode, operandBytes, descriptor, table]
  rfl

namespace Program

/- The next address is only known modulo 2^16, but no command is long enough to hide in that. Behind
the last command the size of the code stands in for it. -/
theorem length_of_lines {layout : Layout} (addressed : layout.addresses = true) {offset : Nat}
    {c d : Command} {p q : List Command}
    (behind : (place (offset + c.length) p).map layout.line =
      (place (offset + d.length) q).map layout.line)
    (sizes : size (c :: p) = size (d :: q)) : c.length = d.length := by
  cases p with
  | nil =>
    cases q with
    | nil => simpa [size] using sizes
    | cons d' q => cases behind
  | cons c' p =>
    cases q with
    | nil => cases behind
    | cons d' q =>
      have lines := (List.cons.inj behind).1
      have address := congrArg UInt16.toNat (Layout.columns_of_line addressed lines).1
      have c_short := c.length_le_three
      have d_short := d.length_le_three
      simp only [Instruction.address, Command.place, UInt16.toNat_ofNat'] at address
      omega

theorem alike_of_lines {layout : Layout} (addressed : layout.addresses = true) {offset : Nat}
    {p q : List Command}
    (lines : (place offset p).map layout.line = (place offset q).map layout.line)
    (sizes : size p = size q) : List.Forall₂ Command.Alike p q := by
  induction p generalizing offset q with
  | nil =>
    cases q with
    | nil => exact .nil
    | cons d q => cases lines
  | cons c p ih =>
    cases q with
    | nil => cases lines
    | cons d q =>
      obtain ⟨head, behind⟩ := List.cons.inj lines
      -- A text alone does not tell zero page from absolute, so the lengths come first.
      have length := length_of_lines addressed behind sizes
      have text := (Layout.columns_of_line addressed head).2
      have alike : c.Alike d := Command.eq_or_illegal length text
      rw [← length] at behind
      have rest : size p = size q := by
        simp only [size, List.map_cons, List.sum_cons] at sizes ⊢
        omega
      exact .cons alike (ih behind rest)

theorem spans_of_alike {p q : List Command} (alike : List.Forall₂ Command.Alike p q)
    (offset : Nat) :
    (place offset p).map (fun i => (i.offset, i.length)) =
      (place offset q).map (fun i => (i.offset, i.length)) := by
  induction alike generalizing offset with
  | nil => rfl
  | @cons c d p q head _ ih =>
    rw [place, place, List.map_cons, List.map_cons, ← head.length, ih]
    simp only [Command.place, head.length]

/- An illegal opcode stands `k` bytes into the code. -/
def IllegalAt (offset : Nat) (program : List Command) (k : Nat) : Prop :=
  ∃ i ∈ place offset program, i.offset = offset + k ∧
    (encode program)[k]? = some i.opcode ∧ (Descriptor.ofOpcode i.opcode).isIllegal = true

theorem illegalAt_zero {c : Command} (unofficial : c.descriptor.isIllegal = true) (offset : Nat)
    (program : List Command) : IllegalAt offset (c :: program) 0 :=
  ⟨c.place offset, List.mem_cons_self .., rfl, rfl, unofficial⟩

theorem illegalAt_cons (c : Command) {offset k : Nat} {program : List Command}
    (behind : IllegalAt (offset + c.length) program k) :
    IllegalAt offset (c :: program) (c.length + k) := by
  obtain ⟨i, placed, position, opcode, unofficial⟩ := behind
  refine ⟨i, List.mem_cons_of_mem _ placed, ?_, ?_, unofficial⟩
  · rw [position, Nat.add_assoc]
  · rw [getElem?_encode_cons, opcode]

theorem bytes_of_alike {p q : List Command} (alike : List.Forall₂ Command.Alike p q)
    (offset k : Nat) :
    (encode p)[k]? = (encode q)[k]? ∨ IllegalAt offset p k ∧ IllegalAt offset q k := by
  induction alike generalizing offset k with
  | nil => exact .inl rfl
  | @cons c d p q head _ ih =>
    -- Either `k` lies in the first command, or it lies as far behind it on both sides.
    by_cases within : k < c.length
    · rcases head with rfl | ⟨c_illegal, d_illegal⟩
      · left
        rw [← c.length_encode] at within
        simp only [encode, List.flatMap_cons, List.getElem?_append_left within]
      · right
        rw [← c.length_encode, Command.encode_of_isIllegal c_illegal] at within
        obtain rfl : k = 0 := Nat.lt_one_iff.mp within
        exact ⟨illegalAt_zero c_illegal offset p, illegalAt_zero d_illegal offset q⟩
    · obtain ⟨m, rfl⟩ := Nat.exists_eq_add_of_le (Nat.le_of_not_lt within)
      have c_bytes := getElem?_encode_cons c p m
      have d_bytes := getElem?_encode_cons d q m
      rw [← head.length] at d_bytes
      rcases ih (offset + c.length) m with same | ⟨c_illegal, d_illegal⟩
      · left
        rw [c_bytes, d_bytes, same]
      · right
        have d_behind := illegalAt_cons d (head.length ▸ d_illegal)
        rw [← head.length] at d_behind
        exact ⟨illegalAt_cons c c_illegal, d_behind⟩

end Program

/- The byte at `k` is an opcode, and an illegal one. -/
def Walk.IllegalAt (buffer : List UInt8) (k : Nat) : Prop :=
  ∃ i ∈ (start buffer).instructions, i.offset = k ∧ buffer[k]? = some i.opcode ∧
    (Descriptor.ofOpcode i.opcode).isIllegal = true

/-- Two buffers of one length, both walked to their ends, with one listing that shows addresses:
their instructions have the same places and lengths, and the buffers differ at most where each has
an illegal opcode. -/
theorem listing_determines_buffer (layout : Layout) (addressed : layout.addresses = true)
    (first second : List UInt8) (length : first.length = second.length)
    (first_done : (Walk.start first).drain.2 = .done)
    (second_done : (Walk.start second).drain.2 = .done)
    (same : (Listing.write layout first {}).sink.kept =
      (Listing.write layout second {}).sink.kept) :
    (Walk.start first).instructions.map (fun i => (i.offset, i.length)) =
      (Walk.start second).instructions.map (fun i => (i.offset, i.length)) ∧
    ∀ k : Nat, first[k]? = second[k]? ∨ Walk.IllegalAt first k ∧ Walk.IllegalAt second k := by
  obtain ⟨p, first_code, first_run⟩ := Walk.exists_program first_done
  obtain ⟨q, second_code, second_run⟩ := Walk.exists_program second_done
  rw [Listing.write_unlimited, Listing.write_unlimited, first_run, second_run] at same
  have text : layout.text (Program.place 0 p) = layout.text (Program.place 0 q) :=
    utf8_injective (congrArg Array.toList same)
  have sizes : Program.size p = Program.size q := by
    rw [← Program.length_encode, ← Program.length_encode, ← first_code, ← second_code, length]
  have alike := Program.alike_of_lines addressed (Layout.lines_of_text text) sizes
  rw [first_run, second_run]
  refine ⟨Program.spans_of_alike alike 0, ?_⟩
  intro k
  have bytes := Program.bytes_of_alike alike 0 k
  simp only [Program.IllegalAt, Nat.zero_add] at bytes
  simp only [Walk.IllegalAt, first_run, second_run]
  rwa [first_code, second_code]

/- Two illegal opcodes in front of a branch, with addresses that wrap. -/
theorem listing_determines_buffer_wrapped :
    let layout : Layout := { addresses := true, origin := 0xFFFE, branches := .target }
    let first : List UInt8 := [0x02, 0xA5, 0x10, 0xD0, 0xFB]
    let second : List UInt8 := [0x12, 0xA5, 0x10, 0xD0, 0xFB]
    (Listing.write layout first {}).sink.kept = (Listing.write layout second {}).sink.kept ∧
    (Walk.start first).instructions.map (fun i => (i.offset, i.length)) =
      (Walk.start second).instructions.map (fun i => (i.offset, i.length)) ∧
    ∀ k : Nat, first[k]? = second[k]? ∨ Walk.IllegalAt first k ∧ Walk.IllegalAt second k := by
  intro layout first second
  have same : (Listing.write layout first {}).sink.kept =
      (Listing.write layout second {}).sink.kept := by decide +kernel
  have first_done : (Walk.start first).drain.2 = .done := by decide +kernel
  have second_done : (Walk.start second).drain.2 = .done := by decide +kernel
  exact ⟨same, listing_determines_buffer layout rfl first second rfl first_done second_done same⟩

end Mos6502
