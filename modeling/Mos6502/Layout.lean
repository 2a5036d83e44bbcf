import Mos6502.Instruction.Text

/-! How a line of a listing looks, and the settings of the converter, which say so. -/
namespace Mos6502

inductive BranchStyle where
  | binary
  | target
deriving DecidableEq, Repr

namespace BranchStyle

def name : BranchStyle → String
  | .binary => "binary"
  | .target => "target"

/-- Reads a name. Ignoring case concerns ASCII letters only. -/
def ofName? (ignoreCase : Bool) (text : String) : Option BranchStyle :=
  let text := if ignoreCase then text.toLower else text
  if text = "binary" then some .binary
  else if text = "target" then some .target
  else none

end BranchStyle

structure Layout where
  addresses : Bool := false
  bytes : Bool := false
  origin : UInt16 := 0x8000
  branches : BranchStyle := .binary
deriving DecidableEq, Repr

namespace Layout

def addressField (layout : Layout) (i : Instruction) : String :=
  Numeral.upperHex 4 (i.address layout.origin).toNat ++ " "

/-- Two digits and a blank for each byte, filled up with blanks to the width of three. -/
def byteField (bytes : List UInt8) : String :=
  String.ofList ((bytes.flatMap fun byte =>
    (Numeral.upperHex 2 byte.toNat).toList ++ [' ']).rightpad 9 ' ')

def assembly (layout : Layout) (i : Instruction) : String :=
  match layout.branches with
  | .binary => i.text
  | .target => i.resolvedText layout.origin

def line (layout : Layout) (i : Instruction) : String :=
  (if layout.addresses then layout.addressField i else "") ++
    (if layout.bytes then byteField i.bytes else "") ++ layout.assembly i

def traceLine (layout : Layout) (i : Instruction) : String :=
  { layout with addresses := true }.line i

end Layout

structure Settings where
  filename : String
  out : String := "."
  splitOnly : Bool := false
  addresses : Bool := false
  bytes : Bool := false
  origin : UInt16 := 0x8000
  branches : BranchStyle := .binary
  verbose : Bool := false
deriving DecidableEq, Repr

def Settings.layout (settings : Settings) : Layout :=
  { addresses := settings.addresses
    bytes := settings.bytes
    origin := settings.origin
    branches := settings.branches }

end Mos6502
