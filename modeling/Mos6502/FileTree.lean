/-! A file system in memory, of directories and files without links. The root, the working
directory and those above it are there whatever the tree holds, and how they lie in one another is
not known: what is named from two of them is in two places here. -/
namespace Mos6502

namespace Path

def names : List Char → List String
  | [] => [""]
  | c :: rest =>
    if c = '/' then "" :: names rest
    else
      match names rest with
      | [] => [c.toString]
      | first :: more => (c.toString ++ first) :: more

/-- Empty names and single dots lead nowhere. -/
def properNames (path : String) : List String :=
  (names path.toList).filter fun name => name ≠ "" ∧ name ≠ "."

def join (base name : String) : String :=
  if base = "" ∨ base.toList.getLast? = some '/' then base ++ name else base ++ "/" ++ name

end Path

inductive FileError where
  | notFound
  | exists
  | notDirectory
  | isDirectory
deriving DecidableEq, Repr

def FileError.message : FileError → String
  | .notFound => "No such file or directory (os error 2)"
  | .exists => "File exists (os error 17)"
  | .notDirectory => "Not a directory (os error 20)"
  | .isDirectory => "Is a directory (os error 21)"

inductive Anchor where
  /-- So many levels above the working directory. -/
  | above (levels : Nat)
  | root
deriving DecidableEq, Repr

/-- The names that lead from an anchor to a place, the last name first. -/
structure Location where
  anchor : Anchor
  inner : List String
deriving DecidableEq, Repr

namespace Location

def working : Location :=
  ⟨.above 0, []⟩

def child (location : Location) (name : String) : Location :=
  ⟨location.anchor, name :: location.inner⟩

def parent : Location → Location
  | ⟨anchor, _ :: inner⟩ => ⟨anchor, inner⟩
  | ⟨.above levels, []⟩ => ⟨.above (levels + 1), []⟩
  | ⟨.root, []⟩ => ⟨.root, []⟩

def start (path : String) : Location :=
  if path.toList.head? = some '/' then ⟨.root, []⟩ else working

end Location

inductive Entry where
  | directory
  | file (contents : List UInt8)
deriving DecidableEq, Repr

structure FileTree where
  entries : List (Location × Entry) := []
deriving DecidableEq, Repr

namespace FileTree

def lookup (tree : FileTree) (location : Location) : Option Entry :=
  match location.inner with
  | [] => some .directory
  | _ :: _ => tree.entries.lookup location

def insert (tree : FileTree) (location : Location) (entry : Entry) : FileTree :=
  ⟨(location, entry) :: tree.entries.filter (·.1 ≠ location)⟩

def follow (tree : FileTree) (here : Location) (name : String) : Except FileError Location :=
  match tree.lookup here with
  | none => .error .notFound
  | some (.file _) => .error .notDirectory
  | some .directory =>
    .ok (if name = "" ∨ name = "." then here
      else if name = ".." then here.parent
      else here.child name)

/-- Every name but the last has to lead into a directory; nothing need be found at the last. -/
def resolve (tree : FileTree) (path : String) : Except FileError Location :=
  if path = "" then .error .notFound
  else (Path.names path.toList).foldlM tree.follow (Location.start path)

def read (tree : FileTree) (path : String) : Except FileError (List UInt8) := do
  match tree.lookup (← tree.resolve path) with
  | none => .error .notFound
  | some .directory => .error .isDirectory
  | some (.file contents) => .ok contents

def write (tree : FileTree) (path : String) (contents : List UInt8) : Except FileError FileTree := do
  let location ← tree.resolve path
  match tree.lookup location with
  | some .directory => .error .isDirectory
  | _ => .ok (tree.insert location (.file contents))

def ensureDirectory (tree : FileTree) (start : Location) (names : List String) :
    Except FileError FileTree := do
  let location ← names.foldlM tree.follow start
  match tree.lookup location with
  | none => .ok (tree.insert location .directory)
  | some .directory => .ok tree
  | some (.file _) => .error .exists

/-- Makes a directory, and before it those it lies in where they are missing. Directories made
before a failure stay. -/
def ensureDirectories (tree : FileTree) (start : Location) :
    List String → FileTree × Except FileError Unit
  | [] => (tree, .ok ())
  | name :: outer =>
    match tree.ensureDirectory start (name :: outer).reverse with
    | .ok tree => (tree, .ok ())
    | .error .notFound =>
      match tree.ensureDirectories start outer with
      | (tree, .error e) => (tree, .error e)
      | (tree, .ok ()) =>
        match tree.ensureDirectory start (name :: outer).reverse with
        | .ok tree => (tree, .ok ())
        | .error e => (tree, .error e)
    | .error e => (tree, .error e)

def createDirectories (tree : FileTree) (path : String) : FileTree × Except FileError Unit :=
  tree.ensureDirectories (Location.start path) (Path.properNames path).reverse

end FileTree

end Mos6502
