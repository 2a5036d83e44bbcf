/-! A sink for bytes with limits, or without: how much it holds, and how much a single call hands
over. -/
namespace Mos6502

inductive SinkError where
  | full
  | writeZero
deriving DecidableEq, Repr

def SinkError.message : SinkError → String
  | .full => "sink full"
  | .writeZero => "failed to write whole buffer"

inductive Sink.Overflow where
  | refuses
  | takesNone
deriving DecidableEq, Repr

structure Sink where
  room : Option Nat := none
  chunk : Option Nat := none
  overflow : Sink.Overflow := .refuses
  kept : Array UInt8 := #[]
deriving DecidableEq, Repr

namespace Sink

def write (sink : Sink) (bytes : List UInt8) : Except SinkError Nat × Sink :=
  if sink.room = some 0 ∧ sink.overflow = .refuses then
    (.error .full, sink)
  else
    let size := bytes.length
    let n := min size (min (sink.room.getD size) (sink.chunk.getD size))
    (.ok n, { sink with room := sink.room.map (· - n), kept := sink.kept ++ bytes.take n })

/-- Calls again until every byte is kept. A call that keeps none is a failure. -/
def writeAll (sink : Sink) : List UInt8 → Except SinkError Unit × Sink
  | [] => (.ok (), sink)
  | byte :: rest =>
    match sink.write (byte :: rest) with
    | (.error e, sink') => (.error e, sink')
    | (.ok 0, sink') => (.error .writeZero, sink')
    | (.ok (n + 1), sink') => sink'.writeAll (rest.drop n)
termination_by bytes => bytes.length
decreasing_by
  simp only [List.length_drop, List.length_cons]
  omega

end Sink

def utf8 (text : String) : List UInt8 :=
  text.toUTF8.data.toList

end Mos6502
