import Mos6502.Dump
import Mos6502.Proofs.Calls
import Mos6502.Proofs.Disassembly
import Mos6502.Proofs.Options

/-! The dump of a program beside its listing. Both go through the same walk, so a dump shows the
lines of a plain listing, each behind the offset of its instruction. What cuts a listing off is a
failure of the conversion; in a dump it is one more line. -/
namespace Mos6502

theorem DecodeError.printable_message (fault : DecodeError) : Printable fault.message.toList := by
  unfold message
  split
  all_goals
    simp only [String.toList_append, printable_append, Nat.toString_eq_repr, Nat.toList_repr,
      printable_toDigits, and_true]
    decide

/- A header counts program units in one byte, so six digits are enough for any offset. -/
theorem Cartridge.length_program_lt {rom : List UInt8} {c : Cartridge} (loaded : load rom = .ok c) :
    c.program.length < 16 ^ 6 := by
  obtain ⟨⟨sized, -⟩, -⟩ := (load_eq_ok_iff rom c).mp loaded
  have units := c.header.programUnits.toNat_lt
  rw [sized, Header.programLength, Header.programUnit]
  omega

namespace Dump

/- The lines that a terminal shows. -/
def shown (bytes : List UInt8) : List String :=
  (Walk.start bytes).instructions.map line ++
    (Walk.start bytes).fault?.toList.map DecodeError.message

theorem writes_offset {bytes : List UInt8} (small : bytes.length < 16 ^ 6) {i : Instruction}
    (walked : i ∈ (Walk.start bytes).instructions) :
    Numeral.Writes 16 6 i.offset (Numeral.upperHex 6 i.offset).toList ∧
      ∀ digit ∈ (Numeral.upperHex 6 i.offset).toList, digit ∈ "0123456789ABCDEF".toList := by
  have fits : i.offset < 16 ^ 6 := Nat.lt_trans (Walk.offset_lt_length bytes walked) small
  exact ⟨Numeral.writes_upperHex fits, Numeral.mem_upperHex fits⟩

theorem printable_line {bytes : List UInt8} (small : bytes.length < 16 ^ 6) {i : Instruction}
    (walked : i ∈ (Walk.start bytes).instructions) : Printable (line i).toList := by
  obtain ⟨offset, -⟩ := writes_offset small walked
  obtain ⟨c, start, rfl⟩ := Walk.exists_place walked
  simp only [line, String.toList_append, printable_append]
  exact ⟨⟨printable_of_digits offset.digits, by decide⟩, Layout.printable_assembly {} c start⟩

theorem printable_shown {bytes : List UInt8} (small : bytes.length < 16 ^ 6) :
    ∀ text ∈ shown bytes, Printable text.toList := by
  intro text member
  rcases List.mem_append.mp member with member | member
  · obtain ⟨i, walked, rfl⟩ := List.mem_map.mp member
    exact printable_line small walked
  · obtain ⟨fault, -, rfl⟩ := List.mem_map.mp member
    exact fault.printable_message

/- Only the message of a fault is painted. -/
theorem account_effects (coloured : Bool) (bytes : List UInt8) :
    Effect.account (effects coloured bytes) =
      { printed :=
          String.join ((Walk.start bytes).instructions.map fun i => line i ++ "\n") ++
            String.join ((Walk.start bytes).fault?.toList.map fun fault =>
              Colour.red.paint coloured fault.message ++ "\n") } := by
  have texts : effects coloured bytes =
      ((Walk.start bytes).instructions.map fun i => line i ++ "\n").map .print ++
        (((Walk.start bytes).fault?.toList.map fun fault =>
          Colour.red.paint coloured fault.message ++ "\n").map .print ++ []) := by
    rw [effects, Walk.drain_fst, Walk.items_start]
    simp [itemText, Function.comp_def]
  rw [texts, Effect.account_map_print, Effect.account_map_print]
  simp [Effect.account]

theorem plain_effects {bytes : List UInt8} (small : bytes.length < 16 ^ 6) (coloured : Bool) :
    Colour.plain (Effect.account (effects coloured bytes)).printed =
      String.join ((shown bytes).map (· ++ "\n")) := by
  have free : ∀ text ∈ shown bytes, '\x1b' ∉ text.toList :=
    fun text member => (printable_shown small text member).not_mem (by decide)
  obtain ⟨front, back⟩ := List.forall_mem_append.mp free
  have began := Colour.plain_lines front .red false
  have ended := Colour.plain_lines back .red coloured ""
  have nothing : Colour.plain "" = "" := rfl
  simp only [List.map_map, Function.comp_def, String.append_empty, nothing] at began ended
  rw [account_effects, shown, List.map_append, String.join_append, List.map_map, List.map_map]
  exact (began _).trans (congrArg _ ended)

theorem run_of_read {tree : FileTree} {path : String} {bytes : List UInt8}
    (held : tree.read path = .ok bytes) (program : String) (others : List String)
    (coloured : Bool) :
    run program (path :: others) coloured tree =
      .ending none (Effect.account (effects coloured bytes)).printed tree := by
  have printed := account_effects coloured bytes
  obtain ⟨-, performed⟩ := Effect.perform_still (by rw [printed]) (by rw [printed]) tree ""
  simp only [run, held, performed, String.empty_append]
  rw [printed]

theorem lines_shown {bytes : List UInt8} (small : bytes.length < 16 ^ 6) :
    lines (String.join ((shown bytes).map (· ++ "\n"))) = shown bytes :=
  lines_join fun text member => (printable_shown small text member).not_mem (by decide)

/- A line of the dump is one of the listing behind the offset. -/
theorem shown_eq_zipWith (bytes : List UInt8) :
    shown bytes =
      List.zipWith (fun i text => Numeral.upperHex 6 i.offset ++ " " ++ text)
        (Walk.start bytes).instructions ((Walk.start bytes).instructions.map Instruction.text) ++
      (Walk.start bytes).fault?.toList.map DecodeError.message := by
  rw [shown, List.zipWith_map_right, List.zipWith_self]
  rfl

end Dump

theorem Layout.lines_plain (origin : UInt16) (buffer : List UInt8) :
    lines (text { origin } (Walk.start buffer).instructions) =
      (Walk.start buffer).instructions.map Instruction.text := by
  rw [lines_listing]
  exact List.map_congr_left fun i _ => line_plain origin i

/- What a conversion leaves of a program for others to look at. -/
theorem Converter.read_program {settings : Settings} {coloured : Bool} {tree : FileTree}
    {rom : List UInt8} {c : Cartridge} (readable : tree.read settings.filename = .ok rom)
    (succeeds : Effect.unhindered tree (effects settings coloured rom) = true)
    (loaded : Cartridge.load rom = .ok c) (listed : settings.splitOnly = false) :
    let outcome := run settings coloured tree
    outcome.tree.read (programPath settings) = .ok c.program ∧
      outcome.tree.read (listingPath settings) = .ok (contents settings c.program) ∧
      outcome.exitCode = (if (Walk.start c.program).fault?.isSome then 1 else 0) ∧
      ∀ fault, (Walk.start c.program).fault? = some fault →
        outcome.stderr = "Error: " ++ fault.message ++ "\n" := by
  intro outcome
  obtain ⟨tree', ended, installs⟩ : ∃ tree', outcome = _ ∧ _ :=
    run_of_listing readable succeeds loaded listed
  rw [ended, Outcome.tree_ending, Outcome.exitCode_ending, Outcome.stderr_ending,
    Option.isSome_map]
  refine ⟨installs.holds (programPath settings, c.program) (by simp),
    installs.holds (listingPath settings, contents settings c.program) (by simp), rfl, ?_⟩
  intro fault cut
  rw [cut]
  rfl

/-- A plain conversion, and then a dump of the program region it wrote. The dump succeeds and shows
the lines of the listing, each behind the offset of its instruction in six digits. Nothing follows
if the conversion succeeded too; otherwise there is one more line, with the fault that was
reported. -/
theorem dump_agrees_with_listing (settings : Settings) (coloured painted : Bool) (tree : FileTree)
    (rom : List UInt8) (c : Cartridge) (name : String) (others : List String)
    (readable : tree.read settings.filename = .ok rom)
    (succeeds : Effect.unhindered tree (Converter.effects settings coloured rom) = true)
    (loaded : Cartridge.load rom = .ok c) (listed : settings.splitOnly = false)
    (plain : settings.addresses = false ∧ settings.bytes = false ∧ settings.branches = .binary) :
    let converted := Converter.run settings coloured tree
    let dumped := Dump.run name (Converter.programPath settings :: others) painted converted.tree
    let run := (Walk.start c.program).instructions
    converted.tree.read (Converter.programPath settings) = .ok c.program ∧
    dumped.exitCode = 0 ∧ dumped.stderr = "" ∧ dumped.tree = converted.tree ∧
    (∀ i ∈ run, Numeral.Writes 16 6 i.offset (Numeral.upperHex 6 i.offset).toList ∧
      ∀ digit ∈ (Numeral.upperHex 6 i.offset).toList, digit ∈ "0123456789ABCDEF".toList) ∧
    (∀ i, run[0]? = some i → i.offset = 0) ∧
    (∀ k i j, run[k]? = some i → run[k + 1]? = some j → j.offset = i.offset + i.length) ∧
    ∃ (text : String) (after : List String),
      converted.tree.read (Converter.listingPath settings) = .ok (utf8 text) ∧
      text = String.join ((lines text).map (· ++ "\n")) ∧
      lines text = run.map Instruction.text ∧
      Colour.plain dumped.stdout =
        String.join ((lines (Colour.plain dumped.stdout)).map (· ++ "\n")) ∧
      lines (Colour.plain dumped.stdout) =
        List.zipWith (fun i line => Numeral.upperHex 6 i.offset ++ " " ++ line) run (lines text) ++
          after ∧
      (converted.exitCode = 0 ∧ after = [] ∨
        ∃ fault : DecodeError, converted.exitCode = 1 ∧
          converted.stderr = "Error: " ++ fault.message ++ "\n" ∧ after = [fault.message]) := by
  intro converted dumped run
  obtain ⟨region, listing, code, reported⟩ :=
    Converter.read_program readable succeeds loaded listed
  have layout : settings.layout = { origin := settings.origin } := by
    simp [Settings.layout, plain]
  have texts : lines (settings.layout.text run) = run.map Instruction.text := by
    rw [layout]
    exact Layout.lines_plain settings.origin c.program
  have small := Cartridge.length_program_lt loaded
  have ended : dumped = _ := Dump.run_of_read region name others painted
  have seen : Colour.plain dumped.stdout =
      String.join ((Dump.shown c.program).map (· ++ "\n")) := by
    rw [ended, Outcome.stdout_ending]
    exact Dump.plain_effects small painted
  obtain ⟨first, consecutive⟩ := Walk.consecutive_offsets c.program
  refine ⟨region, by rw [ended]; rfl, by rw [ended]; rfl, by rw [ended]; rfl,
    fun i walked => Dump.writes_offset small walked, first, consecutive,
    settings.layout.text run, (Walk.start c.program).fault?.toList.map DecodeError.message,
    listing, settings.layout.text_listing _, texts, ?_, ?_, ?_⟩
  · rw [seen, Dump.lines_shown small]
  · rw [seen, Dump.lines_shown small, texts]
    exact Dump.shown_eq_zipWith c.program
  · cases cut : (Walk.start c.program).fault? with
    | none =>
      rw [cut] at code
      exact .inl ⟨code, rfl⟩
    | some fault =>
      rw [cut] at code
      exact .inr ⟨fault, code, reported fault cut, rfl⟩

/- A jump to a subroutine with half its address, at the end of idle code: the conversion fails, and
the dump ends with its complaint. -/
theorem dump_agrees_with_listing_idle :
    let c := Cartridge.idle 16382 (some ⟨0x20, [0x00], by decide⟩)
    let settings : Settings := { filename := "a.nes" }
    let converted := Converter.run settings false (.holding "a.nes" c.image)
    let dumped := Dump.run "dump" [Converter.programPath settings] true converted.tree
    let shown := lines (Colour.plain dumped.stdout)
    converted.exitCode = 1 ∧ dumped.exitCode = 0 ∧ shown.length = 16383 ∧
      ∃ complaint, converted.stderr = "Error: " ++ complaint ++ "\n" ∧
        shown.getLast? = some complaint := by
  obtain ⟨count, size⟩ : ∃ count, count = 16382 := ⟨_, rfl⟩
  rw [← size]
  intro c settings converted dumped shown
  have loaded : Cartridge.load c.image = .ok c := Cartridge.load_idle (by rw [size]; rfl)
  have cut : (Walk.start c.program).fault? = some (.truncated count 3 2) := Cartridge.fault?_idle ..
  have many : (Walk.start c.program).instructions.length = count := by
    rw [Cartridge.instructions_idle, Program.length_place, List.length_replicate]
  have readable := FileTree.read_holding c.image
  have succeeds := Converter.unhindered_alone settings false c.image rfl
  obtain ⟨-, -, failed, -⟩ := Converter.read_program readable succeeds loaded rfl
  rw [cut] at failed
  obtain ⟨-, succeeded, -, -, -, -, -, text, after, -, -, texts, -, seen, ends⟩ :=
    dump_agrees_with_listing settings false true _ c.image c "dump" [] readable succeeds loaded rfl
      ⟨rfl, rfl, rfl⟩
  rcases ends with ⟨code, -⟩ | ⟨fault, -, reported, rfl⟩
  · cases failed.symm.trans code
  · have seen : shown = _ := seen
    refine ⟨failed, succeeded, ?_, fault.message, reported, ?_⟩
    · rw [seen, texts]
      simp [many, size]
    · rw [seen, List.getLast?_concat]

end Mos6502
