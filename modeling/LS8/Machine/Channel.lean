import LS8.Machine.Fault

/-!
# Output channels

A channel takes the printed bytes one at a time and can refuse one with a fault, whatever it has
done until then. There are two: an array that keeps every value, and a writer that turns each value
into a decimal line and flushes it. The writer may have room for so many bytes only, and one of its
flushes may fail; both are reported as a fault of the output.
-/
namespace LS8

class Channel (σ : Type) where
  /-- The channel afterwards, changed or not, and whether the value was taken. -/
  emit : σ → UInt8 → σ × Except Fault Unit

instance : Channel (Array UInt8) where
  emit values value := (values.push value, .ok ())

structure LineWriter where
  /-- Bytes that can still be written; without a number there is no bound. -/
  room : Option Nat := none
  /-- The number, from one, of the flush that fails. -/
  failingFlush : Option Nat := none
  /-- What a failure reports. -/
  reason : String := ""
  text : String := ""
  flushes : Nat := 0
  deriving DecidableEq, Repr

namespace LineWriter

/-- Writes what fits; bytes beyond the room are lost and reported. The characters are all ASCII, so
that bytes and characters agree. -/
def write (w : LineWriter) (line : String) : LineWriter × Except String Unit :=
  match w.room with
  | none => ({ w with text := w.text ++ line }, .ok ())
  | some room =>
    if line.length ≤ room then
      ({ w with text := w.text ++ line, room := some (room - line.length) }, .ok ())
    else
      ({ w with text := w.text ++ String.ofList (line.toList.take room), room := some 0 },
        .error w.reason)

def flush (w : LineWriter) : LineWriter × Except String Unit :=
  let next := { w with flushes := w.flushes + 1 }
  if w.failingFlush = some next.flushes then (next, .error w.reason) else (next, .ok ())

end LineWriter

def decimalLine (value : UInt8) : String := Numeral.decimal value.toNat ++ "\n"

/-- A line is flushed only after all of it was written. -/
instance : Channel LineWriter where
  emit w value :=
    match w.write (decimalLine value) with
    | (next, .ok ()) =>
      let (last, answer) := next.flush
      (last, answer.mapError .output)
    | (next, .error reason) => (next, .error (.output reason))

/-- What is documented of a channel's failure: it is reported as one of the output. Nothing in the
type of `emit` keeps a channel from reporting another fault. -/
def Channel.FailsAsOutput (σ : Type) [Channel σ] : Prop :=
  ∀ (channel : σ) (value : UInt8) (fault : Fault),
    (Channel.emit channel value).2 = .error fault → ∃ reason, fault = .output reason

theorem failsAsOutput_array : Channel.FailsAsOutput (Array UInt8) := by
  intro channel value fault h
  cases h

theorem failsAsOutput_lineWriter : Channel.FailsAsOutput LineWriter := by
  intro w value fault h
  simp only [Channel.emit] at h
  split at h
  · next next _ =>
    cases hflush : next.flush.2 with
    | ok =>
      rw [hflush] at h
      cases h
    | error reason =>
      rw [hflush] at h
      exact ⟨reason, (Except.error.inj h).symm⟩
  · next reason _ => exact ⟨reason, (Except.error.inj h).symm⟩

end LS8
