import Mos6502.Effect
import Mos6502.Walk

/-! The dump: prints any file as instructions, each behind its offset. -/
namespace Mos6502.Dump

def line (i : Instruction) : String :=
  Numeral.upperHex 6 i.offset ++ " " ++ i.text

/-- A fault ends the dump with its message, and is no failure. -/
def itemText (coloured : Bool) : Item → String
  | .ok i => line i
  | .error fault => Colour.red.paint coloured fault.message

def effects (coloured : Bool) (bytes : List UInt8) : List Effect :=
  (Walk.start bytes).drain.1.map fun item => .print (itemText coloured item ++ "\n")

def missingArgument (program : String) : Explanation :=
  { message := "Syntax: " ++ program ++ " <filename>" }

def run (program : String) (arguments : List String) (coloured : Bool) (tree : FileTree) :
    Outcome :=
  match arguments with
  | [] => .failure (missingArgument program) "" tree
  | path :: _ =>
    match tree.read path with
    | .error e => .failure { message := e.message } "" tree
    | .ok bytes => .perform tree "" (effects coloured bytes)

end Mos6502.Dump
