import Mos6502.Printing
import Mos6502.Source

/-! The sixteen bytes in front of a cartridge image, and what can be wrong with an image. -/
namespace Mos6502

inductive Region where
  | header
  | program (size : Nat)
  | graphics (size : Nat)
deriving DecidableEq, Repr

def Region.text : Region → String
  | .header => "header"
  | .program size => s!"PRG ROM ({size} bytes)"
  | .graphics size => s!"CHR ROM ({size} bytes)"

inductive LoadError where
  | unreadable (region : Region) (fault : ReadError)
  | badMagic (found : Vector UInt8 4)
deriving DecidableEq, Repr

def LoadError.explanation : LoadError → Explanation
  | .unreadable region fault => { message := "Reading " ++ region.text, cause := fault.message }
  | .badMagic found =>
    let digits := found.toList.map fun byte => Numeral.upperHex 2 byte.toNat
    { message := "not a recognized container (magic [" ++ ", ".intercalate digits ++ "])" }

inductive Mirroring where
  | horizontal
  | vertical
  | fourScreen
deriving DecidableEq, Repr

def Mirroring.text : Mirroring → String
  | .horizontal => "Horizontal"
  | .vertical => "Vertical"
  | .fourScreen => "FourScreen"

structure Header where
  programUnits : UInt8
  graphicsUnits : UInt8
  flags6 : UInt8
  flags7 : UInt8
  padding : Vector UInt8 8
deriving DecidableEq, Repr

namespace Header

def magic : Vector UInt8 4 :=
  #v[0x4E, 0x45, 0x53, 0x1A]

def size : Nat := 16

def programUnit : Nat := 16384

def graphicsUnit : Nat := 8192

/-- Reads a header. Nothing is said of the other fields before the magic is right. -/
def parse : List UInt8 → Except LoadError Header
  | [m0, m1, m2, m3, programUnits, graphicsUnits, flags6, flags7, p0, p1, p2, p3, p4, p5, p6, p7] =>
    let found := #v[m0, m1, m2, m3]
    if found = magic then
      .ok ⟨programUnits, graphicsUnits, flags6, flags7, #v[p0, p1, p2, p3, p4, p5, p6, p7]⟩
    else
      .error (.badMagic found)
  | _ => .error (.unreadable .header .endOfData)

def bytes (header : Header) : List UInt8 :=
  magic.toList ++
    [header.programUnits, header.graphicsUnits, header.flags6, header.flags7] ++
    header.padding.toList

def programLength (header : Header) : Nat :=
  programUnit * header.programUnits.toNat

def graphicsLength (header : Header) : Nat :=
  graphicsUnit * header.graphicsUnits.toNat

def mirroring (header : Header) : Mirroring :=
  if header.flags6 &&& 0x08 ≠ 0 then .fourScreen
  else if header.flags6 &&& 0x01 ≠ 0 then .vertical
  else .horizontal

def hasBattery (header : Header) : Bool :=
  header.flags6 &&& 0x02 != 0

def hasTrainer (header : Header) : Bool :=
  header.flags6 &&& 0x04 != 0

def mapper (header : Header) : UInt8 :=
  header.flags6 >>> 4 ||| header.flags7 &&& 0xF0

def isNes2 (header : Header) : Bool :=
  header.flags7 &&& 0x0C == 0x08

end Header

end Mos6502
