import Mos6502.Proofs.Composition

/-! Disassembling a buffer at once, beside listing it line by line. Both go through the same walk,
so they count and fail alike. The list of texts is lost with a fault; the listing keeps the lines in
front of it, and these are the texts of the buffer cut off there. -/
namespace Mos6502

namespace Walk

theorem start_encode (program : List Command) :
    (start (Program.encode program)).instructions = Program.place 0 program ∧
      (start (Program.encode program)).fault? = none := by
  have code : Dissection.bytes ⟨program, none⟩ = Program.encode program := List.append_nil _
  rw [← code]
  constructor
  · exact Dissection.instructions_bytes _ 0
  · exact Dissection.fault?_bytes _ 0

/- What stands before the stop is a buffer of its own, with the same instructions and no fault. -/
theorem start_take_stop (buffer : List UInt8) :
    (start (buffer.take (stop buffer))).instructions = (start buffer).instructions ∧
      (start (buffer.take (stop buffer))).fault? = none := by
  obtain ⟨program, placed, code⟩ := exists_program_of_stop buffer
  rw [code, placed]
  exact start_encode program

theorem offset_of_fault {buffer : List UInt8} {fault : DecodeError}
    (cut : (start buffer).fault? = some fault) : fault.offset = stop buffer := by
  simp only [stop, cut]

end Walk

theorem disassemble_take_stop (buffer : List UInt8) :
    disassemble (buffer.take (Walk.stop buffer)) =
      .ok ((Walk.start buffer).instructions.map Instruction.text) := by
  obtain ⟨same, whole⟩ := Walk.start_take_stop buffer
  rw [disassemble_eq, whole, same]

theorem disassemble_eq_ok {buffer : List UInt8} {texts : List String}
    (disassembled : disassemble buffer = .ok texts) :
    (Walk.start buffer).fault? = none ∧
      texts = (Walk.start buffer).instructions.map Instruction.text := by
  rw [disassemble_eq] at disassembled
  cases cut : (Walk.start buffer).fault? with
  | none =>
    simp only [cut] at disassembled
    exact ⟨rfl, (Except.ok.inj disassembled).symm⟩
  | some fault =>
    simp only [cut] at disassembled
    cases disassembled

theorem disassemble_eq_error {buffer : List UInt8} {fault : DecodeError} :
    disassemble buffer = .error fault ↔ (Walk.start buffer).fault? = some fault := by
  rw [disassemble_eq]
  cases (Walk.start buffer).fault? <;> simp

namespace Layout

/- Without columns, and with branches in binary, the line is the text alone. -/
theorem line_plain (origin : UInt16) (i : Instruction) : line { origin } i = i.text := by
  simp [line, assembly]

theorem text_plain (origin : UInt16) (run : List Instruction) :
    text { origin } run = String.join ((run.map Instruction.text).map (· ++ "\n")) := by
  simp only [text, line_plain, List.map_map, Function.comp_def]

end Layout

theorem Listing.result_eq_disassemble (layout : Layout) (buffer : List UInt8) :
    (write layout buffer {}).result =
      ((disassemble buffer).map List.length).mapError .undecodable := by
  rw [result_write_unlimited, disassemble_eq]
  cases (Walk.start buffer).fault? with
  | none => simp [Except.map, Except.mapError]
  | some fault => rfl

/-- A listing ends as the disassembly of its buffer does, with the number of texts or with the same
fault, whatever the layout. In the plain layout its lines are the texts; behind a fault there are
none, and in front of it stand those of the buffer cut off at the fault. -/
theorem listing_streams_disassembly (buffer : List UInt8) :
    (∀ layout : Layout, (Listing.write layout buffer {}).result =
      ((disassemble buffer).map List.length).mapError .undecodable) ∧
    ∀ origin : UInt16,
      let layout : Layout := { addresses := false, bytes := false, origin, branches := .binary }
      let listing := Listing.write layout buffer {}
      (∀ texts, disassemble buffer = .ok texts →
        listing.result = .ok texts.length ∧
        listing.sink.kept.toList = utf8 (String.join (texts.map (· ++ "\n")))) ∧
      (∀ fault, disassemble buffer = .error fault →
        listing.result = .error (.undecodable fault) ∧
        ∃ texts, disassemble (buffer.take fault.offset) = .ok texts ∧
          listing.sink.kept.toList = utf8 (String.join (texts.map (· ++ "\n")))) := by
  constructor
  · intro layout
    exact Listing.result_eq_disassemble layout buffer
  · intro origin layout listing
    have ended : listing.result = _ := Listing.result_eq_disassemble layout buffer
    have kept : listing.sink.kept.toList = utf8 (String.join
        (((Walk.start buffer).instructions.map Instruction.text).map (· ++ "\n"))) := by
      rw [← Layout.text_plain origin]
      simp only [listing, Listing.write_unlimited]
      rfl
    constructor
    · intro texts disassembled
      obtain ⟨-, same⟩ := disassemble_eq_ok disassembled
      rw [disassembled] at ended
      rw [← same] at kept
      exact ⟨ended, kept⟩
    · intro fault disassembled
      have cut := Walk.offset_of_fault (disassemble_eq_error.mp disassembled)
      rw [disassembled] at ended
      refine ⟨ended, _, ?_, kept⟩
      rw [cut]
      exact disassemble_take_stop buffer

/- A jump that is cut off behind two instructions. -/
example : disassemble [0xA9, 0x05, 0xEA, 0x4C, 0x00] = .error (.truncated 3 3 2) ∧
    disassemble [0xA9, 0x05, 0xEA] = .ok ["lda #$0005", "nop"] := by
  decide +kernel

end Mos6502
