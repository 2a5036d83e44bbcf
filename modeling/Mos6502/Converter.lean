import Mos6502.Cartridge.Read
import Mos6502.CommandLine
import Mos6502.Effect
import Mos6502.Listing

/-! The converter: splits a cartridge image into its regions and lists the program. -/
namespace Mos6502.Converter

def binaryDirectory (settings : Settings) : String :=
  Path.join settings.out "binary"

def programPath (settings : Settings) : String :=
  Path.join (binaryDirectory settings) "prg.bin"

def graphicsPath (settings : Settings) : String :=
  Path.join (binaryDirectory settings) "chr.chr"

def assemblyDirectory (settings : Settings) : String :=
  Path.join settings.out "assembly"

def listingPath (settings : Settings) : String :=
  Path.join (assemblyDirectory settings) "code.asm"

def splitEffects (settings : Settings) (cartridge : Cartridge) : List Effect :=
  [.createDirectories (binaryDirectory settings),
    .writeFile "Writing" (programPath settings) cartridge.program,
    .writeFile "Writing" (graphicsPath settings) cartridge.graphics]

/-- Listing writes what could be listed; a fault in the program is told only then. -/
def listingEffects (settings : Settings) (coloured : Bool) (program : List UInt8) : List Effect :=
  let listing := Listing.write settings.layout program {}
  let traced := if settings.verbose then listing.written.toList else []
  [.createDirectories (assemblyDirectory settings),
    .writeFile "Creating" (listingPath settings) listing.sink.kept.toList] ++
  traced.map (fun (i, _) =>
    .print (Colour.green.paint coloured (settings.layout.traceLine i) ++ "\n")) ++
  match listing.result with
  | .ok count =>
    let path := listingPath settings
    [.print s!"{count} instructions written to {path}\n"]
  | .error e => [.fail e.explanation]

def effects (settings : Settings) (coloured : Bool) (rom : List UInt8) : List Effect :=
  match Cartridge.load rom with
  | .error e => [.fail e.explanation]
  | .ok cartridge =>
    [.print ("Cartridge: " ++ cartridge.summary ++ "\n")] ++
    splitEffects settings cartridge ++
    (if settings.splitOnly then [] else listingEffects settings coloured cartridge.program) ++
    [.print (Colour.green.paint coloured "Converted ROM" ++ "\n")]

def run (settings : Settings) (coloured : Bool) (tree : FileTree) : Outcome :=
  match tree.read settings.filename with
  | .error e =>
    .failure { message := "Reading " ++ settings.filename, cause := e.message } "" tree
  | .ok rom => .perform tree "" (effects settings coloured rom)

end Mos6502.Converter
