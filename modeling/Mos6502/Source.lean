/-! A source of bytes that delivers piece by piece: a call may hand out fewer bytes than asked for,
be interrupted, or find the source broken. Reading exactly so many bytes hides all but the last. -/
namespace Mos6502

inductive ReadError where
  | endOfData
  | broken
deriving DecidableEq, Repr

def ReadError.message : ReadError → String
  | .endOfData => "failed to fill whole buffer"
  | .broken => "stream broke"

structure Source where
  rest : List UInt8
  position : Nat := 0
  chunk : Option Nat := none
  failAt : Option Nat := none
  /-- Every call whose number is a multiple of this is interrupted. No two in a row are. -/
  interval : Option { k : Nat // 2 ≤ k } := none
  calls : Nat := 0
deriving DecidableEq

namespace Source

inductive Reply where
  | bytes (front : List UInt8)
  | interrupted
  | broken
deriving DecidableEq, Repr

def interruptsNext (source : Source) : Bool :=
  match source.interval with
  | none => false
  | some k => (source.calls + 1) % k.1 == 0

def allowance (source : Source) (wanted : Nat) : Nat :=
  min wanted (min (source.chunk.getD wanted)
    ((source.failAt.map (· - source.position)).getD wanted))

def read (source : Source) (wanted : Nat) : Reply × Source :=
  let called := { source with calls := source.calls + 1 }
  if source.interruptsNext then
    (.interrupted, called)
  else if source.failAt.any (· ≤ source.position) then
    (.broken, called)
  else
    let n := source.allowance wanted
    let front := source.rest.take n
    (.bytes front,
      { called with rest := source.rest.drop n, position := source.position + front.length })

theorem read_interrupted {source source' : Source} {wanted : Nat}
    (reply : source.read wanted = (.interrupted, source')) :
    source.interruptsNext = true ∧ source'.interruptsNext = false := by
  unfold read at reply
  split at reply
  · rename_i due
    refine ⟨due, ?_⟩
    obtain ⟨-, rfl⟩ := Prod.mk.inj reply
    revert due
    simp only [interruptsNext]
    cases source.interval with
    | none => simp
    | some k =>
      have two_le := k.2
      simp only [beq_iff_eq, beq_eq_false_iff_ne]
      intro due
      rw [Nat.add_mod, due, Nat.zero_add, Nat.mod_mod, Nat.mod_eq_of_lt two_le]
      decide
  · split at reply <;> simp at reply

/-- Calls again, past interruptions, until `wanted` bytes have come behind `got`. No call is made
for no bytes. -/
def readInto (got : Array UInt8) (source : Source) (wanted : Nat) :
    Except ReadError (List UInt8) × Source :=
  if wanted = 0 then
    (.ok got.toList, source)
  else
    match reply : source.read wanted with
    | (.interrupted, source') =>
      have := read_interrupted reply
      readInto got source' wanted
    | (.broken, source') => (.error .broken, source')
    | (.bytes [], source') => (.error .endOfData, source')
    | (.bytes (byte :: more), source') =>
      readInto (got ++ byte :: more) source' (wanted - (byte :: more).length)
termination_by 2 * wanted + if source.interruptsNext then 1 else 0
decreasing_by
  · simp [this.1, this.2]
  · simp only [List.length_cons]
    split <;> split <;> omega

def readExact (source : Source) (wanted : Nat) : Except ReadError (List UInt8) × Source :=
  readInto #[] source wanted

end Source

end Mos6502
