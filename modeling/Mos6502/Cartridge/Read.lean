import Mos6502.Cartridge.Header

/-! Cartridges: a header, a program region and a graphics region, in that order. They are loaded from
an image in memory, or read one after the other from a source. -/
namespace Mos6502

structure Cartridge where
  header : Header
  program : List UInt8
  graphics : List UInt8
deriving DecidableEq, Repr

namespace Cartridge

def image (cartridge : Cartridge) : List UInt8 :=
  cartridge.header.bytes ++ cartridge.program ++ cartridge.graphics

def cut (region : Region) (size : Nat) (bytes : List UInt8) :
    Except LoadError (List UInt8 × List UInt8) :=
  let front := bytes.take size
  if front.length < size then .error (.unreadable region .endOfData)
  else .ok (front, bytes.drop size)

/-- What follows the graphics region is left alone. -/
def load (rom : List UInt8) : Except LoadError Cartridge := do
  let (front, rest) ← cut .header Header.size rom
  let header ← Header.parse front
  let (program, rest) ← cut (.program header.programLength) header.programLength rest
  let (graphics, _) ← cut (.graphics header.graphicsLength) header.graphicsLength rest
  return { header, program, graphics }

def summary (cartridge : Cartridge) : String :=
  let header := cartridge.header
  let programSize := cartridge.program.length / 1024
  let graphicsSize := cartridge.graphics.length / 1024
  let mapper := header.mapper.toNat
  let mirroring := header.mirroring.text
  let battery := header.hasBattery
  let trainer := header.hasTrainer
  s!"PRG: {programSize}KB, CHR: {graphicsSize}KB, mapper: {mapper}, mirroring: {mirroring}, " ++
    s!"battery: {battery}, trainer: {trainer}" ++
    if header.isNes2 then " (NES 2.0)" else ""

end Cartridge

def Source.readRegion (source : Source) (region : Region) (size : Nat) :
    Except LoadError (List UInt8) × Source :=
  match source.readExact size with
  | (.error fault, source') => (.error (.unreadable region fault), source')
  | (.ok bytes, source') => (.ok bytes, source')

/-- Reads the cartridge at the source's position and leaves what follows it unread. -/
def Cartridge.read (source : Source) : Except LoadError Cartridge × Source :=
  match source.readRegion .header Header.size with
  | (.error e, source) => (.error e, source)
  | (.ok front, source) =>
    match Header.parse front with
    | .error e => (.error e, source)
    | .ok header =>
      match source.readRegion (.program header.programLength) header.programLength with
      | (.error e, source) => (.error e, source)
      | (.ok program, source) =>
        match source.readRegion (.graphics header.graphicsLength) header.graphicsLength with
        | (.error e, source) => (.error e, source)
        | (.ok graphics, source) => (.ok { header, program, graphics }, source)

end Mos6502
