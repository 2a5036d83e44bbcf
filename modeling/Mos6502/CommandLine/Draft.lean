import Mos6502.CommandLine.Switch
import Mos6502.Layout

/-! Settings in the making. Each option can be given once, and its value is checked as it enters. -/
namespace Mos6502.CommandLine

structure Draft where
  filename : Option String := none
  out : Option String := none
  origin : Option UInt16 := none
  branches : Option BranchStyle := none
  splitOnly : Bool := false
  addresses : Bool := false
  bytes : Bool := false
  verbose : Bool := false
deriving DecidableEq, Repr

namespace Draft

def hasFlag (draft : Draft) : Flag → Bool
  | .splitOnly => draft.splitOnly
  | .addresses => draft.addresses
  | .bytes => draft.bytes
  | .verbose => draft.verbose

def setFlag (draft : Draft) : Flag → Draft
  | .splitOnly => { draft with splitOnly := true }
  | .addresses => { draft with addresses := true }
  | .bytes => { draft with bytes := true }
  | .verbose => { draft with verbose := true }

def hasParameter (draft : Draft) : Parameter → Bool
  | .out => draft.out.isSome
  | .origin => draft.origin.isSome
  | .branches => draft.branches.isSome

def raise (draft : Draft) (flag : Flag) : Except UsageError Draft :=
  if draft.hasFlag flag then .error (.repeated flag.name)
  else .ok (draft.setFlag flag)

/-- A second value is refused before it is looked at. -/
def assign (draft : Draft) (parameter : Parameter) (text : String) : Except UsageError Draft :=
  if draft.hasParameter parameter then
    .error (.repeated parameter.name)
  else
    match parameter with
    | .out =>
      if text = "" then .error (.emptyValue parameter.name)
      else .ok { draft with out := some text }
    | .origin =>
      match Address.parse text with
      | .ok origin => .ok { draft with origin := some origin }
      | .error fault => .error (.badAddress fault)
    | .branches =>
      match BranchStyle.ofName? false text with
      | some style => .ok { draft with branches := some style }
      | none => .error (.unknownStyle text)

def name (draft : Draft) (filename : String) : Except UsageError Draft :=
  if filename = "" then .error (.emptyValue "filename")
  else .ok { draft with filename := some filename }

def finish (draft : Draft) : Except UsageError Settings :=
  match draft.filename with
  | none => .error .missingFilename
  | some filename =>
    .ok { filename
          out := draft.out.getD "."
          splitOnly := draft.splitOnly
          addresses := draft.addresses
          bytes := draft.bytes
          origin := draft.origin.getD 0x8000
          branches := draft.branches.getD .binary
          verbose := draft.verbose }

end Draft

end Mos6502.CommandLine
