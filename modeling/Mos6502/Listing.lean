import Mos6502.Layout
import Mos6502.Sink
import Mos6502.Walk

/-! Listings: one line for each instruction of a buffer, written to a sink as the walk goes on. -/
namespace Mos6502

inductive ListingError where
  | undecodable (fault : DecodeError)
  | unwritable (fault : SinkError)
deriving DecidableEq, Repr

def ListingError.explanation : ListingError → Explanation
  | .undecodable fault => { message := fault.message }
  | .unwritable fault => { message := "Writing listing", cause := some fault.message }

structure Listing where
  /-- The instructions whose lines were written whole, each with its line. -/
  written : Array (Instruction × String) := #[]
  sink : Sink := {}
  error : Option ListingError := none

namespace Listing

def result (listing : Listing) : Except ListingError Nat :=
  match listing.error with
  | none => .ok listing.written.size
  | some e => .error e

def extend (layout : Layout) (written : Array (Instruction × String)) (sink : Sink) :
    List Item → Listing
  | [] => { written, sink }
  | .error fault :: _ => { written, sink, error := some (.undecodable fault) }
  | .ok i :: rest =>
    let line := layout.line i
    match sink.writeAll (utf8 (line ++ "\n")) with
    | (.error fault, sink) => { written, sink, error := some (.unwritable fault) }
    | (.ok (), sink) => extend layout (written.push (i, line)) sink rest

def write (layout : Layout) (buffer : List UInt8) (sink : Sink) : Listing :=
  extend layout #[] sink (Walk.start buffer).drain.1

end Listing

end Mos6502
