import Mos6502.FileTree
import Mos6502.Printing

/-! What a tool does, as a list of effects. The first that fails is the last. -/
namespace Mos6502

inductive Effect where
  | print (text : String)
  | createDirectories (path : String)
  | writeFile (purpose path : String) (contents : List UInt8)
  | fail (explanation : Explanation)
deriving DecidableEq, Repr

structure Outcome where
  exitCode : Nat
  stdout : String
  stderr : String
  tree : FileTree

namespace Outcome

def failure (explanation : Explanation) (stdout : String) (tree : FileTree) : Outcome :=
  ⟨1, stdout, explanation.report, tree⟩

def perform (tree : FileTree) (stdout : String) : List Effect → Outcome
  | [] => ⟨0, stdout, "", tree⟩
  | .print text :: rest => perform tree (stdout ++ text) rest
  | .createDirectories path :: rest =>
    match tree.createDirectories path with
    | (tree, .ok ()) => perform tree stdout rest
    | (tree, .error e) => failure { message := e.message } stdout tree
  | .writeFile purpose path contents :: rest =>
    match tree.write path contents with
    | .ok tree => perform tree stdout rest
    | .error e =>
      failure { message := purpose ++ " " ++ path, cause := e.message } stdout tree
  | .fail explanation :: _ => failure explanation stdout tree

end Outcome

end Mos6502
