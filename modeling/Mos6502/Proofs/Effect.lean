import Mos6502.Effect
import Mos6502.Proofs.FileTree

/-! What a list of effects comes to. As long as no file operation is refused, a tool prints what the
list prints before its first failure, ends as that failure says, and leaves in the tree just the
files that the list writes, beside directories made for them. -/
namespace Mos6502

namespace Effect

/- What a list of effects is about, up to its first failure. -/
structure Account where
  printed : String := ""
  directories : List String := []
  files : List (String × List UInt8) := []
  failure : Option Explanation := none

def account : List Effect → Account
  | [] => {}
  | .print text :: rest => { account rest with printed := text ++ (account rest).printed }
  | .createDirectories path :: rest =>
    { account rest with directories := path :: (account rest).directories }
  | .writeFile _ path contents :: rest =>
    { account rest with files := (path, contents) :: (account rest).files }
  | .fail explanation :: _ => { failure := some explanation }

/- Whether all file operations up to the first failure succeed. -/
def unhindered (tree : FileTree) : List Effect → Bool
  | [] => true
  | .print _ :: rest => unhindered tree rest
  | .createDirectories path :: rest =>
    match tree.createDirectories path with
    | (tree, .ok ()) => unhindered tree rest
    | (_, .error _) => false
  | .writeFile _ path contents :: rest =>
    match tree.write path contents with
    | .ok tree => unhindered tree rest
    | .error _ => false
  | .fail _ :: _ => true

end Effect

namespace FileTree

/- The second tree is the first with those files in it. Directories have been made on the way to
those places only, and where nothing was. -/
structure Installs (tree tree' : FileTree) (directories : List String)
    (files : List (String × List UInt8)) : Prop where
  holds : ∀ file ∈ files, tree'.read file.1 = .ok file.2
  frame : ∀ location, (∀ file ∈ files, tree'.resolve file.1 ≠ .ok location) →
    tree'.lookup location = tree.lookup location ∨
      tree.lookup location = none ∧ tree'.lookup location = some .directory ∧
        ∃ path ∈ directories, tree'.OnWay path location

/- In no tree do the two lead to the same place. -/
def Apart (path path' : String) : Prop :=
  ∀ (tree : FileTree) (location : Location), tree.resolve path = .ok location →
    tree.resolve path' ≠ .ok location

namespace Installs

variable {tree middle tree' : FileTree} {directories : List String}
  {files : List (String × List UInt8)}

theorem refl (tree : FileTree) : tree.Installs tree [] [] where
  holds := nofun
  frame _ _ := .inl rfl

theorem createDirectories {path : String} (paved : tree.Paves (middle.OnWay path) middle)
    (keeps : middle.Keeps tree') (rest : middle.Installs tree' directories files) :
    tree.Installs tree' (path :: directories) files where
  holds := rest.holds
  frame := by
    intro location elsewhere
    rcases rest.frame location elsewhere with same | ⟨absent, made, other, listed, way⟩
    · rcases paved location with before | ⟨absent, made, way⟩
      · exact .inl (same.trans before)
      · exact .inr ⟨absent, same.trans made, path, List.mem_cons_self ..,
          way.mono keeps List.prefix_rfl⟩
    · rcases paved location with before | ⟨-, made_before, -⟩
      · exact .inr ⟨before ▸ absent, made, other, List.mem_cons_of_mem _ listed, way⟩
      · rw [made_before] at absent
        cases absent

theorem writeFile {path : String} {contents : List UInt8} {location : Location}
    (resolved : tree.resolve path = .ok location) (absent : tree.lookup location ≠ some .directory)
    (apart : ∀ file ∈ files, Apart path file.1)
    (keeps : (tree.insert location (.file contents)).Keeps tree')
    (rest : (tree.insert location (.file contents)).Installs tree' directories files) :
    tree.Installs tree' directories ((path, contents) :: files) where
  holds := by
    have still : tree'.resolve path = .ok location :=
      ((keeps_insert _ absent).trans keeps).resolve resolved
    have written := lookup_insert_self tree (.file contents) (inner_ne_nil tree absent)
    refine List.forall_mem_cons.mpr ⟨?_, rest.holds⟩
    -- No later file lies there, and a file is not made into a directory.
    rcases rest.frame location (fun file listed => apart file listed tree' location still) with
      same | ⟨free, -, -⟩
    · exact read_of_lookup still (same.trans written)
    · rw [written] at free
      cases free
  frame := by
    intro other elsewhere
    obtain ⟨here, behind⟩ := List.forall_mem_cons.mp elsewhere
    have differ : other ≠ location := by
      rintro rfl
      exact here (((keeps_insert _ absent).trans keeps).resolve resolved)
    have before := lookup_insert_of_ne tree (.file contents) differ
    rw [← before]
    exact rest.frame other behind

end Installs

end FileTree

namespace Outcome

/- The end of a tool that met this failure, or none. -/
def ending (failure? : Option Explanation) (stdout : String) (tree : FileTree) : Outcome :=
  match failure? with
  | none => ⟨0, stdout, "", tree⟩
  | some explanation => failure explanation stdout tree

@[simp] theorem exitCode_ending (failure? : Option Explanation) (stdout : String)
    (tree : FileTree) : (ending failure? stdout tree).exitCode = if failure?.isSome then 1 else 0 := by
  cases failure? <;> rfl

@[simp] theorem stdout_ending (failure? : Option Explanation) (stdout : String) (tree : FileTree) :
    (ending failure? stdout tree).stdout = stdout := by
  cases failure? <;> rfl

@[simp] theorem stderr_ending (failure? : Option Explanation) (stdout : String) (tree : FileTree) :
    (ending failure? stdout tree).stderr = (failure?.map Explanation.report).getD "" := by
  cases failure? <;> rfl

@[simp] theorem tree_ending (failure? : Option Explanation) (stdout : String) (tree : FileTree) :
    (ending failure? stdout tree).tree = tree := by
  cases failure? <;> rfl

end Outcome

namespace Effect

open FileTree

theorem unhindered_createDirectories {tree : FileTree} {path : String} {rest : List Effect}
    (succeeds : unhindered tree (.createDirectories path :: rest) = true) :
    ∃ middle, tree.createDirectories path = (middle, .ok ()) ∧ unhindered middle rest = true := by
  simp only [unhindered] at succeeds
  split at succeeds
  · rename_i middle made
    exact ⟨middle, made, succeeds⟩
  · cases succeeds

theorem unhindered_writeFile {tree : FileTree} {purpose path : String} {contents : List UInt8}
    {rest : List Effect} (succeeds : unhindered tree (.writeFile purpose path contents :: rest) = true) :
    ∃ location, tree.resolve path = .ok location ∧ tree.lookup location ≠ some .directory ∧
      tree.write path contents = .ok (tree.insert location (.file contents)) ∧
      unhindered (tree.insert location (.file contents)) rest = true := by
  simp only [unhindered] at succeeds
  split at succeeds
  · rename_i middle written
    obtain ⟨location, resolved, absent, rfl⟩ := write_eq_ok written
    exact ⟨location, resolved, absent, written, succeeds⟩
  · cases succeeds

/-- Effects that meet no refusal do what their account says. -/
theorem perform_unhindered {tree : FileTree} {effects : List Effect}
    (succeeds : unhindered tree effects = true)
    (apart : (account effects).files.Pairwise fun file other => Apart file.1 other.1)
    (stdout : String) :
    ∃ tree', Outcome.perform tree stdout effects =
        .ending (account effects).failure (stdout ++ (account effects).printed) tree' ∧
      tree.Keeps tree' ∧
      tree.Installs tree' (account effects).directories (account effects).files := by
  induction effects generalizing tree stdout with
  | nil => exact ⟨tree, by simp [Outcome.perform, account, Outcome.ending], .refl tree, .refl tree⟩
  | cons effect rest ih =>
    cases effect with
    | print text =>
      obtain ⟨tree', performed, kept⟩ := ih succeeds apart (stdout ++ text)
      refine ⟨tree', ?_, kept⟩
      rw [Outcome.perform, performed, account, String.append_assoc]
    | createDirectories path =>
      obtain ⟨middle, made, succeeds⟩ := unhindered_createDirectories succeeds
      have paved := tree.createDirectories_paves path
      rw [made] at paved
      obtain ⟨tree', performed, keeps, installs⟩ := ih succeeds apart stdout
      refine ⟨tree', ?_, paved.keeps.trans keeps, installs.createDirectories paved keeps⟩
      rw [Outcome.perform, made]
      exact performed
    | writeFile purpose path contents =>
      obtain ⟨location, resolved, absent, written, succeeds⟩ := unhindered_writeFile succeeds
      obtain ⟨first, apart⟩ := List.pairwise_cons.mp apart
      obtain ⟨tree', performed, keeps, installs⟩ := ih succeeds apart stdout
      refine ⟨tree', ?_, (keeps_insert _ absent).trans keeps,
        installs.writeFile resolved absent first keeps⟩
      rw [Outcome.perform, written]
      exact performed
    | fail explanation =>
      exact ⟨tree, by simp [Outcome.perform, account, Outcome.ending], .refl tree, .refl tree⟩

/- Printing touches nothing but the output. -/
theorem account_map_print (texts : List String) (rest : List Effect) :
    account (texts.map .print ++ rest) =
      { account rest with printed := String.join texts ++ (account rest).printed } := by
  induction texts with
  | nil => simp
  | cons text texts ih => simp [account, ih, String.append_assoc]

/-- Effects up to some point lead to the same tree whatever comes behind. -/
theorem perform_front {tree : FileTree} {front : List Effect}
    (whole : (account front).failure = none) {back : List Effect}
    (succeeds : unhindered tree (front ++ back) = true) :
    ∃ middle, ∀ back stdout,
      Outcome.perform tree stdout (front ++ back) =
        Outcome.perform middle (stdout ++ (account front).printed) back ∧
      unhindered tree (front ++ back) = unhindered middle back := by
  induction front generalizing tree with
  | nil => exact ⟨tree, by simp [account]⟩
  | cons effect front ih =>
    cases effect with
    | print text =>
      obtain ⟨middle, same⟩ := ih whole succeeds
      refine ⟨middle, ?_⟩
      intro back stdout
      obtain ⟨performed, hindered⟩ := same back (stdout ++ text)
      refine ⟨?_, hindered⟩
      rw [List.cons_append, Outcome.perform, performed, account, String.append_assoc]
    | createDirectories path =>
      obtain ⟨tree', made, succeeds⟩ := unhindered_createDirectories succeeds
      obtain ⟨middle, same⟩ := ih whole succeeds
      refine ⟨middle, ?_⟩
      intro back stdout
      simp only [List.cons_append, Outcome.perform, unhindered, made]
      exact same back stdout
    | writeFile purpose path contents =>
      obtain ⟨location, -, -, written, succeeds⟩ := unhindered_writeFile succeeds
      obtain ⟨middle, same⟩ := ih whole succeeds
      refine ⟨middle, ?_⟩
      intro back stdout
      simp only [List.cons_append, Outcome.perform, unhindered, written]
      exact same back stdout
    | fail explanation => cases whole

/- Effects without files or directories in them meet no refusal and leave the tree as it is. -/
theorem perform_still {effects : List Effect} (none_made : (account effects).directories = [])
    (none_written : (account effects).files = []) (tree : FileTree) (stdout : String) :
    unhindered tree effects = true ∧ Outcome.perform tree stdout effects =
      .ending (account effects).failure (stdout ++ (account effects).printed) tree := by
  induction effects generalizing stdout with
  | nil => exact ⟨rfl, by simp [Outcome.perform, account, Outcome.ending]⟩
  | cons effect rest ih =>
    cases effect with
    | print text =>
      obtain ⟨still, performed⟩ := ih none_made none_written (stdout ++ text)
      refine ⟨still, ?_⟩
      rw [Outcome.perform, performed, account, String.append_assoc]
    | createDirectories path => cases none_made
    | writeFile purpose path contents => cases none_written
    | fail explanation => exact ⟨rfl, by simp [Outcome.perform, account, Outcome.ending]⟩

end Effect

end Mos6502
