import Mos6502.Proofs.Disassembly

/-! Buffers that end inside an instruction. The opcode alone says how many bytes are missing, so the
fault stays where it is until just as many have been added, and any bytes will do. -/
namespace Mos6502

namespace Stub

variable (s : Stub)

def needed : Nat :=
  (Descriptor.ofOpcode s.opcode).length

theorem fault_eq (offset : Nat) : s.fault offset = .truncated offset s.needed s.bytes.length :=
  rfl

theorem needed_le_three : s.needed ≤ 3 :=
  Nat.succ_le_succ (Descriptor.ofOpcode s.opcode).mode.operandSize_le_two

theorem length_bytes_pos : 1 ≤ s.bytes.length :=
  Nat.succ_pos _

theorem length_bytes_lt : s.bytes.length < s.needed :=
  Nat.succ_lt_succ s.short

/- More of the command, and still not all of it. -/
def extend (more : List UInt8) (short : more.length < s.needed - s.bytes.length) : Stub where
  opcode := s.opcode
  operand := s.operand ++ more
  short := by
    simp only [needed, Descriptor.length, AddressingMode.length, bytes, List.length_cons] at short
    simp only [List.length_append]
    omega

variable {s} {more : List UInt8}

@[simp] theorem bytes_extend (short : more.length < s.needed - s.bytes.length) :
    (s.extend more short).bytes = s.bytes ++ more :=
  rfl

theorem fault_extend (short : more.length < s.needed - s.bytes.length) (offset : Nat) :
    (s.extend more short).fault offset =
      .truncated offset s.needed (s.bytes.length + more.length) := by
  simp only [fault_eq, bytes_extend, List.length_append]
  rfl

theorem exists_complete (fills : more.length = s.needed - s.bytes.length) :
    ∃ c : Command, c.encode = s.bytes ++ more := by
  have short := s.short
  have filled : (s.operand ++ more).length = (Descriptor.ofOpcode s.opcode).mode.operandSize := by
    simp only [needed, Descriptor.length, AddressingMode.length, bytes, List.length_cons] at fills
    simp only [List.length_append]
    omega
  exact Command.exists_encode_eq s.opcode filled

end Stub

namespace Dissection

theorem disassemble_bytes (d : Dissection) :
    disassemble d.bytes =
      match d.stub with
      | none => .ok ((Program.place 0 d.program).map Instruction.text)
      | some s => .error (s.fault (Program.size d.program)) := by
  simp only [disassemble_eq, Walk.start, d.fault?_bytes, d.instructions_bytes, fault?, Nat.zero_add]
  cases d.stub <;> rfl

end Dissection

namespace Program

variable (program : List Command) (s : Stub) (more : List UInt8)

theorem disassemble_encode :
    disassemble (encode program) = .ok ((place 0 program).map Instruction.text) := by
  simpa [Dissection.bytes, Dissection.tail] using
    Dissection.disassemble_bytes ⟨program, none⟩

theorem disassemble_encode_stub :
    disassemble (encode program ++ s.bytes) = .error (s.fault (size program)) :=
  Dissection.disassemble_bytes ⟨program, some s⟩

theorem disassemble_encode_short (short : more.length < s.needed - s.bytes.length) :
    disassemble (encode program ++ s.bytes ++ more) =
      .error (.truncated (size program) s.needed (s.bytes.length + more.length)) := by
  have extended := disassemble_encode_stub program (s.extend more short)
  simpa only [Stub.bytes_extend, Stub.fault_extend, List.append_assoc] using extended

/- The bytes that were missing complete one more command. -/
theorem disassemble_encode_complete (fills : more.length = s.needed - s.bytes.length) :
    ∃ text, disassemble (encode program ++ s.bytes ++ more) =
      .ok ((place 0 program).map Instruction.text ++ [text]) := by
  obtain ⟨c, encoded⟩ := Stub.exists_complete fills
  have whole : encode (program ++ [c]) = encode program ++ s.bytes ++ more := by
    simp [encode, encoded]
  have disassembled := disassemble_encode (program ++ [c])
  refine ⟨(c.place (size program)).text, ?_⟩
  simpa only [whole, place_append, Nat.zero_add, place, List.map_append, List.map_cons,
    List.map_nil] using disassembled

/- Nothing is missing, or what is missing is told by a stub at the end. -/
theorem exists_code (buffer : List UInt8) :
    (∃ program, buffer = encode program) ∨
      ∃ program, ∃ s : Stub, buffer = encode program ++ s.bytes := by
  obtain ⟨⟨program, stub⟩, rfl⟩ := Dissection.exists_bytes buffer
  cases stub with
  | none => exact .inl ⟨program, List.append_nil _⟩
  | some s => exact .inr ⟨program, s, rfl⟩

end Program

/-- A buffer that cannot be disassembled ends inside an instruction, and the fault says where that
one begins, how long it is and how much of it there is. What stands before it can be disassembled.
With the missing bytes, whatever they are, there is just one line more; with fewer of them the fault
is the same and only counts them. So no buffer lacks more than two bytes. -/
theorem truncation_is_repairable (buffer : List UInt8) :
    (∀ fault, disassemble buffer = .error fault →
      ∃ offset needed available : Nat, fault = .truncated offset needed available ∧
        offset + available = buffer.length ∧
        1 ≤ available ∧ available < needed ∧ needed ≤ 3 ∧
        ∃ texts : List String, disassemble (buffer.take offset) = .ok texts ∧
          (∀ t : List UInt8, t.length = needed - available →
            ∃ text, disassemble (buffer ++ t) = .ok (texts ++ [text])) ∧
          ∀ t : List UInt8, t.length < needed - available →
            disassemble (buffer ++ t) =
              .error (.truncated offset needed (available + t.length))) ∧
    ∃ n ≤ 2, ∀ t : List UInt8, t.length = n → ∃ texts, disassemble (buffer ++ t) = .ok texts := by
  rcases Program.exists_code buffer with ⟨program, rfl⟩ | ⟨program, s, rfl⟩
  · have disassembled := Program.disassemble_encode program
    constructor
    · intro fault failed
      cases disassembled.symm.trans failed
    · refine ⟨0, by decide, ?_⟩
      intro t empty
      obtain rfl := List.length_eq_zero_iff.mp empty
      exact ⟨_, by simpa using disassembled⟩
  · have needed := s.needed_le_three
    have positive := s.length_bytes_pos
    constructor
    · intro fault failed
      obtain rfl := Except.error.inj ((Program.disassemble_encode_stub program s).symm.trans failed)
      refine ⟨Program.size program, s.needed, s.bytes.length, rfl, ?_, positive,
        s.length_bytes_lt, needed, (Program.place 0 program).map Instruction.text, ?_, ?_, ?_⟩
      · simp
      · have code : (Program.encode program ++ s.bytes).take (Program.size program) =
            Program.encode program := List.take_left' (Program.length_encode program)
        simpa only [code] using Program.disassemble_encode program
      · intro t fills
        exact Program.disassemble_encode_complete program s t fills
      · intro t short
        exact Program.disassemble_encode_short program s t short
    · refine ⟨s.needed - s.bytes.length, by omega, ?_⟩
      intro t fills
      obtain ⟨text, disassembled⟩ := Program.disassemble_encode_complete program s t fills
      exact ⟨_, disassembled⟩

/- A subroutine call of which only the opcode is there. -/
theorem truncation_is_repairable_call :
    disassemble [0xEA, 0x20] = .error (.truncated 1 3 1) ∧
      (∀ low : UInt8, disassemble [0xEA, 0x20, low] = .error (.truncated 1 3 2)) ∧
      ∀ low high : UInt8, ∃ text, disassemble [0xEA, 0x20, low, high] = .ok ["nop", text] := by
  have failed : disassemble [0xEA, 0x20] = .error (.truncated 1 3 1) := by decide +kernel
  have before : disassemble [0xEA] = .ok ["nop"] := by decide +kernel
  obtain ⟨offset, needed, available, fault, -, -, -, -, texts, front, complete, short⟩ :=
    (truncation_is_repairable [0xEA, 0x20]).1 _ failed
  obtain ⟨rfl, rfl, rfl⟩ := DecodeError.truncated.inj fault
  obtain rfl : ["nop"] = texts := Except.ok.inj (before.symm.trans front)
  refine ⟨failed, ?_, ?_⟩
  · intro low
    exact short [low] (by decide : 1 < 2)
  · intro low high
    exact complete [low, high] rfl

end Mos6502
