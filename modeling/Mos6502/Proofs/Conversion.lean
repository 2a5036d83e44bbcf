import Mos6502.Converter
import Mos6502.Proofs.ByteColumn
import Mos6502.Proofs.Effect
import Mos6502.Proofs.Image

/-! What a conversion leaves behind where no file operation is refused. An image that cannot be
loaded leaves nothing; otherwise the regions are written, then what could be listed of the program,
and the run succeeds unless the program is cut off at its end. Other places are left as they were:
places of a file tree, so that a second name for a written file is not spoken of. -/
namespace Mos6502

namespace Converter

/- The line about the cartridge. -/
def opening (c : Cartridge) : String :=
  "Cartridge: " ++ c.summary ++ "\n"

def closing (coloured : Bool) : String :=
  Colour.green.paint coloured "Converted ROM" ++ "\n"

def traceLines (settings : Settings) (coloured : Bool) (run : List Instruction) : List String :=
  if settings.verbose then
    run.map fun i => Colour.green.paint coloured (settings.layout.traceLine i) ++ "\n"
  else []

def countLine (settings : Settings) (count : Nat) : String :=
  let path := listingPath settings
  s!"{count} instructions written to {path}\n"

/- Everything up to the listing. -/
def splitting (settings : Settings) (c : Cartridge) : List Effect :=
  .print (opening c) :: splitEffects settings c

/- The text of a listing, and what is printed behind it. -/
def contents (settings : Settings) (program : List UInt8) : List UInt8 :=
  utf8 (settings.layout.text (Walk.start program).instructions)

def reporting (settings : Settings) (coloured : Bool) (program : List UInt8) : List Effect :=
  (traceLines settings coloured (Walk.start program).instructions).map .print ++
    match (Walk.start program).fault? with
    | none =>
      [.print (countLine settings (Walk.start program).instructions.length),
        .print (closing coloured)]
    | some fault => [.fail { message := fault.message }, .print (closing coloured)]

variable {settings : Settings} {coloured : Bool} {rom : List UInt8} {c : Cartridge}

theorem effects_of_error {e : LoadError} (refused : Cartridge.load rom = .error e) :
    effects settings coloured rom = [.fail e.explanation] := by
  rw [effects, refused]

theorem effects_of_split (loaded : Cartridge.load rom = .ok c) (split : settings.splitOnly = true) :
    effects settings coloured rom = splitting settings c ++ [.print (closing coloured)] := by
  simp only [effects, loaded, if_pos split]
  rfl

theorem effects_of_listing (loaded : Cartridge.load rom = .ok c)
    (listed : settings.splitOnly = false) :
    effects settings coloured rom =
      (splitting settings c ++ [.createDirectories (assemblyDirectory settings)]) ++
        .writeFile "Creating" (listingPath settings) (contents settings c.program) ::
          reporting settings coloured c.program := by
  have traced (report : Instruction × String → Effect)
      (told : ∀ i, report (i, settings.layout.line i) =
        .print (Colour.green.paint coloured (settings.layout.traceLine i) ++ "\n")) :
      (if settings.verbose then
          (Listing.write settings.layout c.program {}).written.toList else []).map report =
        (traceLines settings coloured (Walk.start c.program).instructions).map .print := by
    unfold traceLines
    rw [Listing.write_unlimited]
    split <;> simp [told]
  simp only [effects, loaded, listed, Bool.false_eq_true, if_false, listingEffects]
  rw [traced _ (fun _ => rfl), Listing.result_write_unlimited, Listing.write_unlimited]
  cases fault : (Walk.start c.program).fault? <;>
    simp [splitting, reporting, contents, fault, countLine, closing, opening, ListingError.explanation]

theorem account_splitting (settings : Settings) (c : Cartridge) (back : List Effect) :
    Effect.account (splitting settings c ++ back) =
      { Effect.account back with
        printed := opening c ++ (Effect.account back).printed
        directories := binaryDirectory settings :: (Effect.account back).directories
        files := (programPath settings, c.program) :: (graphicsPath settings, c.graphics) ::
          (Effect.account back).files } :=
  rfl

/- What is printed behind the trace: nothing, if the listing ended early. -/
def conclusion (settings : Settings) (coloured : Bool) (program : List UInt8) : String :=
  match (Walk.start program).fault? with
  | none => countLine settings (Walk.start program).instructions.length ++ closing coloured
  | some _ => ""

theorem account_reporting (settings : Settings) (coloured : Bool) (program : List UInt8) :
    Effect.account (reporting settings coloured program) =
      { printed :=
          String.join (traceLines settings coloured (Walk.start program).instructions) ++
            conclusion settings coloured program
        failure := (Walk.start program).fault?.map fun fault => { message := fault.message } } := by
  unfold reporting conclusion
  rw [Effect.account_map_print]
  cases (Walk.start program).fault? <;> simp [Effect.account]

theorem perform_reporting (settings : Settings) (coloured : Bool) (program : List UInt8)
    (tree : FileTree) (stdout : String) :
    Effect.unhindered tree (reporting settings coloured program) = true ∧
      Outcome.perform tree stdout (reporting settings coloured program) =
        .ending ((Walk.start program).fault?.map fun fault => { message := fault.message })
          (stdout ++ (String.join (traceLines settings coloured (Walk.start program).instructions) ++
            conclusion settings coloured program)) tree := by
  have reported := account_reporting settings coloured program
  have still := Effect.perform_still (by rw [reported]) (by rw [reported]) tree stdout
  rwa [reported] at still

theorem account_of_split (loaded : Cartridge.load rom = .ok c)
    (split : settings.splitOnly = true) :
    Effect.account (effects settings coloured rom) =
      { printed := opening c ++ closing coloured
        directories := [binaryDirectory settings]
        files := [(programPath settings, c.program), (graphicsPath settings, c.graphics)] } := by
  rw [effects_of_split loaded split, account_splitting]
  simp [Effect.account]

theorem account_of_listing (loaded : Cartridge.load rom = .ok c)
    (listed : settings.splitOnly = false) :
    Effect.account (effects settings coloured rom) =
      { printed :=
          opening c ++ String.join
              (traceLines settings coloured (Walk.start c.program).instructions) ++
            conclusion settings coloured c.program
        directories := [binaryDirectory settings, assemblyDirectory settings]
        files :=
          [(programPath settings, c.program), (graphicsPath settings, c.graphics),
            (listingPath settings, contents settings c.program)]
        failure :=
          (Walk.start c.program).fault?.map fun fault => { message := fault.message } } := by
  rw [effects_of_listing loaded listed, List.append_assoc, account_splitting]
  simp only [List.singleton_append, Effect.account, account_reporting, String.append_assoc]

/- The names of the files differ, so the files do, wherever they lie. -/
theorem apart_paths (settings : Settings) :
    [programPath settings, graphicsPath settings, listingPath settings].Pairwise
      FileTree.Apart := by
  have program : Path.IsProper "prg.bin" := by decide
  have graphics : Path.IsProper "chr.chr" := by decide
  have listing : Path.IsProper "code.asm" := by decide
  simp only [List.pairwise_cons, List.forall_mem_cons, List.not_mem_nil, false_implies,
    implies_true, and_true, List.Pairwise.nil]
  refine ⟨⟨?_, ?_⟩, ?_⟩
  · exact fun _ _ => FileTree.resolve_join_ne program graphics (by decide)
  · exact fun _ _ => FileTree.resolve_join_ne program listing (by decide)
  · exact fun _ _ => FileTree.resolve_join_ne graphics listing (by decide)

theorem apart_files (settings : Settings) (coloured : Bool) (rom : List UInt8) :
    (Effect.account (effects settings coloured rom)).files.Pairwise
      fun file other => FileTree.Apart file.1 other.1 := by
  have part : ((Effect.account (effects settings coloured rom)).files.map Prod.fst).Sublist
      [programPath settings, graphicsPath settings, listingPath settings] := by
    cases loaded : Cartridge.load rom with
    | error e => simp [effects_of_error loaded, Effect.account]
    | ok c =>
      cases split : settings.splitOnly with
      | true => simp [account_of_split loaded split]
      | false => simp [account_of_listing loaded split]
  exact List.pairwise_map.mp ((apart_paths settings).sublist part)

variable {tree : FileTree}

theorem run_of_error {e : LoadError} (readable : tree.read settings.filename = .ok rom)
    (refused : Cartridge.load rom = .error e) :
    run settings coloured tree = .failure e.explanation "" tree := by
  rw [run, readable]
  simp only [effects_of_error refused]
  rfl

/-- A run that meets no refusal ends as its account says. -/
theorem run_unhindered (readable : tree.read settings.filename = .ok rom)
    (succeeds : Effect.unhindered tree (effects settings coloured rom) = true) :
    let account := Effect.account (effects settings coloured rom)
    ∃ tree', run settings coloured tree = .ending account.failure account.printed tree' ∧
      tree.Installs tree' account.directories account.files := by
  obtain ⟨tree', performed, -, installs⟩ :=
    Effect.perform_unhindered succeeds (apart_files settings coloured rom) ""
  refine ⟨tree', ?_, installs⟩
  rw [run, readable]
  simpa using performed

theorem run_of_split (readable : tree.read settings.filename = .ok rom)
    (succeeds : Effect.unhindered tree (effects settings coloured rom) = true)
    (loaded : Cartridge.load rom = .ok c) (split : settings.splitOnly = true) :
    ∃ tree', run settings coloured tree = .ending none (opening c ++ closing coloured) tree' ∧
      tree.Installs tree' [binaryDirectory settings]
        [(programPath settings, c.program), (graphicsPath settings, c.graphics)] := by
  have ended := run_unhindered readable succeeds
  rwa [account_of_split loaded split] at ended

theorem run_of_listing (readable : tree.read settings.filename = .ok rom)
    (succeeds : Effect.unhindered tree (effects settings coloured rom) = true)
    (loaded : Cartridge.load rom = .ok c) (listed : settings.splitOnly = false) :
    ∃ tree', run settings coloured tree =
        .ending ((Walk.start c.program).fault?.map fun fault => { message := fault.message })
          (opening c ++ String.join
              (traceLines settings coloured (Walk.start c.program).instructions) ++
            conclusion settings coloured c.program) tree' ∧
      tree.Installs tree' [binaryDirectory settings, assemblyDirectory settings]
        [(programPath settings, c.program), (graphicsPath settings, c.graphics),
          (listingPath settings, contents settings c.program)] := by
  have ended := run_unhindered readable succeeds
  rwa [account_of_listing loaded listed] at ended

end Converter

/- A working directory with one file in it. -/
def FileTree.holding (name : String) (contents : List UInt8) : FileTree :=
  ⟨[(Location.working.child name, .file contents)]⟩

theorem FileTree.read_holding (contents : List UInt8) :
    (holding "a.nes" contents).read "a.nes" = .ok contents :=
  rfl

namespace Cartridge

/- One program unit of idle code, cut off by a stub. -/
def idle (count : Nat) (stub : Option Stub) : Cartridge :=
  ⟨⟨1, 0, 0, 0, Vector.replicate 8 0⟩,
    Dissection.bytes ⟨List.replicate count ⟨0xEA, 0, by decide⟩, stub⟩, []⟩

theorem instructions_idle (count : Nat) (stub : Option Stub) :
    (Walk.start (idle count stub).program).instructions =
      Program.place 0 (List.replicate count ⟨0xEA, 0, by decide⟩) :=
  Dissection.instructions_bytes _ 0

theorem size_idle (count : Nat) :
    Program.size (List.replicate count ⟨0xEA, 0, by decide⟩) = count := by
  have one : Command.length ⟨0xEA, 0, by decide⟩ = 1 := rfl
  simp [Program.size, one]

theorem fault?_idle (count : Nat) (stub : Option Stub) :
    (Walk.start (idle count stub).program).fault? = stub.map fun s => s.fault count := by
  rw [idle, Walk.start, Dissection.fault?_bytes, Dissection.fault?, size_idle, Nat.zero_add]

theorem load_idle {count : Nat} {stub : Option Stub}
    (full : count + ((stub.map Stub.bytes).getD []).length = 16384) :
    load (idle count stub).image = .ok (idle count stub) := by
  have program : (idle count stub).program.length = 16384 := by
    rw [idle, Dissection.length_bytes, size_idle, ← full]
    rfl
  exact (load_eq_ok_iff _ _).mpr ⟨⟨program, rfl⟩, List.prefix_rfl⟩

end Cartridge

namespace Location

/- The location is the place itself or lies inside it. -/
def Within (place location : Location) : Prop :=
  location.anchor = place.anchor ∧ place.inner <:+ location.inner

theorem within_self (place : Location) : place.Within place :=
  ⟨rfl, List.suffix_rfl⟩

theorem within_child (place : Location) (name : String) : place.Within (place.child name) :=
  ⟨rfl, List.suffix_cons _ _⟩

theorem not_within_sibling {here location : Location} {name other : String} (differ : name ≠ other)
    (inside : (here.child other).Within location) : ¬ (here.child name).Within location := by
  intro within
  have same := List.suffix_of_suffix_length_le inside.2 within.2 (by simp [child])
  exact differ (List.cons.inj (same.eq_of_length (by simp [child]))).1.symm

end Location

namespace Converter

variable {settings : Settings} {coloured : Bool} {rom : List UInt8} {c : Cartridge}

/- Splitting has nothing to do with the directory of the listing. Only the way to the place of both
directories may lead through it, and is paved then. -/
theorem assembly_of_split {tree tree' : FileTree} {program graphics : List UInt8}
    (installs : tree.Installs tree' [binaryDirectory settings]
      [(programPath settings, program), (graphicsPath settings, graphics)]) :
    ∃ assembly, tree'.resolve (assemblyDirectory settings) = .ok assembly ∧
      ∀ location, assembly.Within location →
        tree'.lookup location = tree.lookup location ∨
          tree.lookup location = none ∧ tree'.lookup location = some .directory ∧
            tree'.OnWay settings.out location := by
  have binary : Path.IsProper "binary" := by decide
  have assembly : Path.IsProper "assembly" := by decide
  obtain ⟨place, resolved⟩ := FileTree.resolve_of_read (installs.holds _ (List.mem_cons_self ..))
  obtain ⟨here, out, directory, -⟩ := FileTree.resolve_join_join binary (by decide) resolved
  refine ⟨here.child "assembly", ?_, ?_⟩
  · rw [assemblyDirectory, FileTree.resolve_of_ne_empty _ (Path.join_ne_empty _ assembly),
      FileTree.reach_join _ _ assembly, out]
    exact FileTree.follow_of_proper assembly directory
  · intro location within
    have outside : ¬ (here.child "binary").Within location :=
      Location.not_within_sibling (by decide) within
    have elsewhere (name : String) (proper : Path.IsProper name) :
        tree'.resolve (Path.join (binaryDirectory settings) name) ≠ .ok location := by
      intro resolved
      obtain ⟨same, reached, -, rfl⟩ := FileTree.resolve_join_join binary proper resolved
      obtain rfl := Except.ok.inj (reached.symm.trans out)
      exact outside (Location.within_child _ name)
    have apart : ∀ file ∈ [(programPath settings, program), (graphicsPath settings, graphics)],
        tree'.resolve file.1 ≠ .ok location := by
      simp only [List.forall_mem_cons, List.not_mem_nil, false_implies, implies_true, and_true]
      exact ⟨elsewhere "prg.bin" (by decide), elsewhere "chr.chr" (by decide)⟩
    rcases installs.frame location apart with same | ⟨absent, made, path, listed, way⟩
    · exact .inl same
    · obtain rfl := List.mem_singleton.mp listed
      rcases FileTree.onWay_join binary out way with way | rfl
      · exact .inr ⟨absent, made, way⟩
      · exact absurd (Location.within_self _) outside

/- Where there is only the image, nothing stands in the way. -/
theorem unhindered_alone (settings : Settings) (coloured : Bool) (rom : List UInt8)
    (here : settings.out = ".") :
    Effect.unhindered (.holding "a.nes" rom) (effects settings coloured rom) = true := by
  have binary : binaryDirectory settings = "./binary" := by rw [binaryDirectory, here]; rfl
  have program : programPath settings = "./binary/prg.bin" := by rw [programPath, binary]; rfl
  have graphics : graphicsPath settings = "./binary/chr.chr" := by rw [graphicsPath, binary]; rfl
  have assembly : assemblyDirectory settings = "./assembly" := by rw [assemblyDirectory, here]; rfl
  have listing : listingPath settings = "./assembly/code.asm" := by rw [listingPath, assembly]; rfl
  cases loaded : Cartridge.load rom with
  | error e =>
    rw [effects_of_error loaded]
    rfl
  | ok c =>
    cases split : settings.splitOnly with
    | true =>
      rw [effects_of_split loaded split, splitting, splitEffects, binary, program, graphics]
      rfl
    | false =>
      have front (summary : String) (first second third : List UInt8) :
          Effect.unhindered (.holding "a.nes" rom) ([.print summary,
            .createDirectories "./binary", .writeFile "Writing" "./binary/prg.bin" first,
            .writeFile "Writing" "./binary/chr.chr" second, .createDirectories "./assembly",
            .writeFile "Creating" "./assembly/code.asm" third] ++ []) = true := rfl
      obtain ⟨middle, same⟩ := Effect.perform_front rfl
        (front (opening c) c.program c.graphics (contents settings c.program))
      have printed := (perform_reporting settings coloured c.program middle "").1
      rw [← (same _ "").2] at printed
      rw [effects_of_listing loaded split, splitting, splitEffects, binary, program, graphics,
        assembly, listing]
      exact printed

end Converter

/-- A conversion that succeeds. It does so for the images that can be loaded, unless a program that
is to be listed is cut off. The files then hold the two regions of the image and the listing,
whatever was there before, and nothing else has changed but for directories that were missing on the
way to them. A run that only splits leaves the directory of the listing alone, unless the place of
both directories is given as a way through it. -/
theorem successful_conversion (settings : Settings) (coloured : Bool) (tree : FileTree)
    (rom : List UInt8) (readable : tree.read settings.filename = .ok rom)
    (succeeds : Effect.unhindered tree (Converter.effects settings coloured rom) = true) :
    let outcome := Converter.run settings coloured tree
    (outcome.exitCode = 0 ↔ ∃ c, Cartridge.load rom = .ok c ∧
      (settings.splitOnly = true ∨ (Walk.start c.program).drain.2 = .done)) ∧
    (outcome.exitCode = 0 → ∃ c, Cartridge.load rom = .ok c ∧
      16 + 16384 * (rom.getD 4 0).toNat + 8192 * (rom.getD 5 0).toNat ≤ rom.length ∧
      c.program = (rom.drop 16).take (16384 * (rom.getD 4 0).toNat) ∧
      c.graphics =
        (rom.drop (16 + 16384 * (rom.getD 4 0).toNat)).take (8192 * (rom.getD 5 0).toNat) ∧
      outcome.stderr = "" ∧
      (settings.splitOnly = false →
        ∃ text, utf8 text = (Listing.write settings.layout c.program {}).sink.kept.toList ∧
          tree.Installs outcome.tree
            [Converter.binaryDirectory settings, Converter.assemblyDirectory settings]
            [(Converter.programPath settings, c.program),
              (Converter.graphicsPath settings, c.graphics),
              (Converter.listingPath settings, utf8 text)] ∧
          outcome.stdout = Converter.opening c ++
            String.join
              (Converter.traceLines settings coloured (Walk.start c.program).instructions) ++
            Converter.countLine settings (lines text).length ++ Converter.closing coloured) ∧
      (settings.splitOnly = true →
        outcome.stdout = Converter.opening c ++ Converter.closing coloured ∧
        tree.Installs outcome.tree [Converter.binaryDirectory settings]
          [(Converter.programPath settings, c.program),
            (Converter.graphicsPath settings, c.graphics)] ∧
        ∃ assembly, outcome.tree.resolve (Converter.assemblyDirectory settings) = .ok assembly ∧
          ∀ location, assembly.Within location →
            outcome.tree.lookup location = tree.lookup location ∨
              tree.lookup location = none ∧ outcome.tree.lookup location = some .directory ∧
                outcome.tree.OnWay settings.out location)) := by
  intro outcome
  cases loaded : Cartridge.load rom with
  | error e =>
    have failed : outcome = .failure e.explanation "" tree := Converter.run_of_error readable loaded
    simp [failed, Outcome.failure]
  | ok c =>
    obtain ⟨enough, program, graphics⟩ := Cartridge.load_regions loaded
    cases split : settings.splitOnly with
    | true =>
      obtain ⟨tree', ended, installs⟩ : ∃ tree', outcome = _ ∧ _ :=
        Converter.run_of_split readable succeeds loaded split
      have left : tree' = outcome.tree := by simp [ended]
      rw [left] at installs
      refine ⟨by simp [ended], fun _ => ?_⟩
      refine ⟨c, rfl, enough, program, graphics, by simp [ended], by simp, fun _ => ?_⟩
      exact ⟨by simp [ended], installs, Converter.assembly_of_split installs⟩
    | false =>
      obtain ⟨tree', ended, installs⟩ : ∃ tree', outcome = _ ∧ _ :=
        Converter.run_of_listing readable succeeds loaded split
      have left : tree' = outcome.tree := by simp [ended]
      rw [left] at installs
      refine ⟨by simp [ended, Walk.drain_start_done], fun exit => ?_⟩
      have whole : (Walk.start c.program).fault? = none := by simpa [ended] using exit
      refine ⟨c, rfl, enough, program, graphics, by simp [ended, whole], fun _ => ?_, by simp⟩
      refine ⟨settings.layout.text (Walk.start c.program).instructions, ?_, installs, ?_⟩
      · rw [Listing.write_unlimited]
      · rw [settings.layout.lines_listing, List.length_map]
        simp [ended, whole, Converter.conclusion, String.append_assoc]

/- Idle code, converted where there is only its image. -/
theorem successful_conversion_idle :
    let c := Cartridge.idle 16384 none
    let settings : Settings := { filename := "a.nes" }
    let outcome := Converter.run settings false (.holding "a.nes" c.image)
    outcome.exitCode = 0 ∧ outcome.tree.read (Converter.programPath settings) = .ok c.program ∧
      outcome.stdout =
        Converter.opening c ++ Converter.countLine settings 16384 ++ "Converted ROM\n" := by
  -- With a name for the number of commands, nothing is ever counted out.
  obtain ⟨count, size⟩ : ∃ count, count = 16384 := ⟨_, rfl⟩
  rw [← size]
  intro c settings outcome
  have loaded : Cartridge.load c.image = .ok c := Cartridge.load_idle size
  obtain ⟨exit, converted⟩ := successful_conversion settings false _ c.image
    (FileTree.read_holding c.image) (Converter.unhindered_alone settings false c.image rfl)
  have done : outcome.exitCode = 0 :=
    exit.mpr ⟨c, loaded, .inr ((Dissection.isDone_drain_bytes ⟨_, none⟩ 0).mpr rfl)⟩
  obtain ⟨c', same, -, -, -, -, listed, -⟩ := converted done
  obtain rfl := Except.ok.inj (loaded.symm.trans same)
  obtain ⟨text, kept, installs, stdout⟩ := listed rfl
  have counted : (lines text).length = count := by
    rw [Listing.write_unlimited] at kept
    rw [utf8_injective kept, Layout.lines_listing, List.length_map, Cartridge.instructions_idle,
      Program.length_place, List.length_replicate]
  refine ⟨done, installs.holds _ (List.mem_cons_self ..), ?_⟩
  have quiet : String.join
      (Converter.traceLines settings false (Walk.start c.program).instructions) = "" := rfl
  rw [stdout, counted, quiet, String.append_empty]
  rfl

/- The way to the two directories leads through one of them here, and so it is made. -/
theorem split_paves_way_out :
    let settings : Settings := { filename := "a.nes", out := "assembly/..", splitOnly := true }
    let rom := Header.bytes ⟨0, 0, 0, 0, Vector.replicate 8 0⟩
    let tree : FileTree := .holding "a.nes" rom
    let outcome := Converter.run settings false tree
    let assembly := Location.working.child "assembly"
    tree.read settings.filename = .ok rom ∧
      Effect.unhindered tree (Converter.effects settings false rom) = true ∧
      outcome.exitCode = 0 ∧
      outcome.tree.resolve (Converter.assemblyDirectory settings) = .ok assembly ∧
      tree.lookup assembly = none ∧ outcome.tree.lookup assembly = some .directory := by
  decide +kernel

/-- A conversion that fails although no file operation does. Either the image cannot be loaded, and
nothing has happened; or its program is cut off within the last two bytes, and the files hold all
that stands before. -/
theorem failed_conversion (settings : Settings) (coloured : Bool) (tree : FileTree)
    (rom : List UInt8) (readable : tree.read settings.filename = .ok rom)
    (succeeds : Effect.unhindered tree (Converter.effects settings coloured rom) = true)
    (failed : (Converter.run settings coloured tree).exitCode = 1) :
    let outcome := Converter.run settings coloured tree
    (∃ e, Cartridge.load rom = .error e ∧ outcome.tree = tree ∧ outcome.stdout = "" ∧
      outcome.stderr = e.explanation.report) ∨
    ∃ c p opcode, Cartridge.load rom = .ok c ∧ settings.splitOnly = false ∧
      let fault : DecodeError :=
        .truncated p (Descriptor.ofOpcode opcode).length (c.program.length - p)
      let run := (Walk.start c.program).instructions
      (Walk.start c.program).drain = (run.map .ok ++ [.error fault], .failed) ∧
      c.program[p]? = some opcode ∧ p < c.program.length ∧ c.program.length - 2 ≤ p ∧
      run.flatMap Instruction.bytes = c.program.take p ∧
      c.program = (rom.drop 16).take (16384 * (rom.getD 4 0).toNat) ∧
      c.graphics =
        (rom.drop (16 + 16384 * (rom.getD 4 0).toNat)).take (8192 * (rom.getD 5 0).toNat) ∧
      lines (settings.layout.text run) = run.map settings.layout.line ∧
      tree.Installs outcome.tree
        [Converter.binaryDirectory settings, Converter.assemblyDirectory settings]
        [(Converter.programPath settings, c.program),
          (Converter.graphicsPath settings, c.graphics),
          (Converter.listingPath settings, utf8 (settings.layout.text run))] ∧
      outcome.stdout =
        Converter.opening c ++ String.join (Converter.traceLines settings coloured run) ∧
      outcome.stderr = "Error: " ++ fault.message ++ "\n" := by
  intro outcome
  cases loaded : Cartridge.load rom with
  | error e =>
    have ended : outcome = .failure e.explanation "" tree := Converter.run_of_error readable loaded
    exact .inl ⟨e, rfl, by simp [ended, Outcome.failure]⟩
  | ok c =>
    right
    obtain ⟨-, program, graphics⟩ := Cartridge.load_regions loaded
    cases split : settings.splitOnly with
    | true =>
      obtain ⟨tree', ended, -⟩ := Converter.run_of_split readable succeeds loaded split
      simp [ended] at failed
    | false =>
      obtain ⟨tree', ended, installs⟩ : ∃ tree', outcome = _ ∧ _ :=
        Converter.run_of_listing readable succeeds loaded split
      have left : tree' = outcome.tree := by simp [ended]
      rw [left] at installs
      cases cut : (Walk.start c.program).fault? with
      | none =>
        change outcome.exitCode = 1 at failed
        simp [ended, cut] at failed
      | some fault =>
        obtain ⟨opcode, here, positive, short, rfl⟩ := Walk.fault_at_stop cut
        have three : (Descriptor.ofOpcode opcode).length ≤ 3 :=
          Nat.succ_le_succ (Descriptor.ofOpcode opcode).mode.operandSize_le_two
        refine ⟨c, Walk.stop c.program, opcode, rfl, rfl, ?_, here, by omega, by omega,
          Walk.flatMap_bytes _, program, graphics, settings.layout.lines_listing _, installs, ?_, ?_⟩
        · rw [Walk.drain_start, cut]
          rfl
        · simp [ended, cut, Converter.conclusion]
        · simp [ended, cut, Explanation.report]

/- A jump to a subroutine with half its address, at the end of idle code. -/
theorem failed_conversion_idle :
    let c := Cartridge.idle 16382 (some ⟨0x20, [0x00], by decide⟩)
    let settings : Settings := { filename := "a.nes", verbose := true }
    let outcome := Converter.run settings false (.holding "a.nes" c.image)
    outcome.exitCode = 1 ∧ outcome.tree.read (Converter.programPath settings) = .ok c.program ∧
      outcome.stderr = "Error: " ++ (DecodeError.truncated 16382 3 2).message ++ "\n" := by
  obtain ⟨count, size⟩ : ∃ count, count = 16382 := ⟨_, rfl⟩
  rw [← size]
  intro c settings outcome
  have loaded : Cartridge.load c.image = .ok c := Cartridge.load_idle (by rw [size]; rfl)
  have cut : (Walk.start c.program).fault? = some (.truncated count 3 2) := Cartridge.fault?_idle ..
  have readable := FileTree.read_holding c.image
  have succeeds := Converter.unhindered_alone settings false c.image rfl
  obtain ⟨tree', ended, -⟩ := Converter.run_of_listing readable succeeds loaded rfl
  have failed : outcome.exitCode = 1 := by simp [outcome, ended, cut]
  rcases failed_conversion settings false _ c.image readable succeeds failed with
    ⟨e, refused, -⟩ | ⟨c', p, opcode, same, -, drained, -, -, -, -, -, -, -, installs, -, stderr⟩
  · cases refused.symm.trans loaded
  · obtain rfl := Except.ok.inj (loaded.symm.trans same)
    rw [Walk.drain_start, cut] at drained
    have last := List.append_cancel_left (Prod.mk.inj drained).1
    rw [Except.error.inj (List.cons.inj last).1]
    exact ⟨failed, installs.holds _ (List.mem_cons_self ..), stderr⟩

end Mos6502
