import Mos6502.Cartridge.Read
import Mos6502.Main
import Mos6502.Proofs.Program
import Mos6502.Proofs.Walk
import Mos6502.Proofs.Listing
import Mos6502.Proofs.Composition
import Mos6502.Proofs.Disassembly
import Mos6502.Proofs.Truncation
import Mos6502.Proofs.Numeral
import Mos6502.Proofs.Text
import Mos6502.Proofs.Rendering
import Mos6502.Proofs.Line
import Mos6502.Proofs.Injectivity
import Mos6502.Proofs.Patch
import Mos6502.Proofs.ByteColumn
import Mos6502.Proofs.FileTree
import Mos6502.Proofs.Effect
import Mos6502.Proofs.Image
import Mos6502.Proofs.Conversion
import Mos6502.Proofs.Options
import Mos6502.Proofs.LimitedSink
import Mos6502.Proofs.Calls
import Mos6502.Proofs.Dump
import Mos6502.Proofs.Consumer
import Mos6502.Proofs.Source
import Mos6502.Proofs.Reading
import Mos6502.Proofs.Branch
import Mos6502.Proofs.Rejection
import Mos6502.Proofs.Address
import Mos6502.Proofs.Decoding
import Mos6502.Proofs.Wording
import Mos6502.Proofs.CommandLine
import Mos6502.Proofs.Bounded
import Mos6502.Proofs.BoundedWalk
