import Mos6502.Converter
import Mos6502.Dump

/-! The program. Started under the name `dump` it dumps a file; under any other it converts one. -/
namespace Mos6502.Main

/-- What the operating system said, in its own words where they are known. The sign of an error
number depends on the call. -/
def reason : IO.Error → String
  | .noFileOrDirectory .. => FileError.notFound.message
  | .alreadyExists .. => FileError.exists.message
  | e@(.inappropriateType _ code _) =>
    if code = 20 ∨ code = -20 then FileError.notDirectory.message
    else if code = 21 ∨ code = -21 then FileError.isDirectory.message
    else toString e
  | e => toString e

def giveUp (explanation : Explanation) : IO UInt32 := do
  (← IO.getStderr).putStr explanation.report
  return 1

def ensureDirectory (path : String) : IO Unit := do
  match ← (IO.FS.createDir path).toBaseIO with
  | .ok () => return
  | .error e =>
    match ← (IO.FS.realPath path).toBaseIO with
    | .ok found => unless ← found.isDir do throw e
    | .error _ => throw e

def ensureDirectories (start : String) : List String → IO Unit
  | [] => return
  | name :: outer => do
    let path := start ++ "/".intercalate (name :: outer).reverse
    match ← (ensureDirectory path).toBaseIO with
    | .ok () => return
    | .error (.noFileOrDirectory ..) =>
      ensureDirectories start outer
      ensureDirectory path
    | .error e => throw e

def createDirectories (path : String) : IO Unit :=
  ensureDirectories (if path.toList.head? = some '/' then "/" else "")
    (Path.properNames path).reverse

def perform : List Effect → IO UInt32
  | [] => return 0
  | .print text :: rest => do
    (← IO.getStdout).putStr text
    perform rest
  | .createDirectories path :: rest => do
    match ← (createDirectories path).toBaseIO with
    | .ok () => perform rest
    | .error e => giveUp { message := reason e }
  | .writeFile purpose path contents :: rest => do
    match ← (IO.FS.writeBinFile path ⟨contents.toArray⟩).toBaseIO with
    | .ok () => perform rest
    | .error e => giveUp { message := purpose ++ " " ++ path, cause := reason e }
  | .fail explanation :: _ => giveUp explanation

/-- Colours are on for a terminal, unless the environment says otherwise. -/
def coloured : IO Bool := do
  if ((← IO.getEnv "CLICOLOR_FORCE").getD "0") ≠ "0" then return true
  if (← IO.getEnv "NO_COLOR").isSome then return false
  if ((← IO.getEnv "CLICOLOR").getD "1") = "0" then return false
  (← IO.getStdout).isTty

def convert (arguments : List String) : IO UInt32 := do
  match CommandLine.parse arguments with
  | .error .help =>
    (← IO.getStdout).putStr CommandLine.usage
    return 0
  | .error e =>
    (← IO.getStderr).putStr ("error: " ++ e.message ++ "\n")
    return UInt32.ofNat e.exitCode
  | .ok settings =>
    match ← (IO.FS.readBinFile settings.filename).toBaseIO with
    | .error e => giveUp { message := "Reading " ++ settings.filename, cause := reason e }
    | .ok rom => perform (Converter.effects settings (← coloured) rom.data.toList)

def dump (program : String) (arguments : List String) : IO UInt32 := do
  match arguments with
  | [] => giveUp (Dump.missingArgument program)
  | path :: _ =>
    match ← (IO.FS.readBinFile path).toBaseIO with
    | .error e => giveUp { message := reason e }
    | .ok bytes => perform (Dump.effects (← coloured) bytes.data.toList)

end Mos6502.Main

def main (arguments : List String) : IO UInt32 := do
  let program := (← IO.appPath).fileName.getD ""
  if program = "dump" then Mos6502.Main.dump program arguments
  else Mos6502.Main.convert arguments
