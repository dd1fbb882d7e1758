/-!
# Buffered output

A writer collects bytes in front of a sink, which need not accept all that it is offered. It also
flushes the sink once a threshold of bytes has been written, however large its buffer is. Nothing
is lost: what the sink did not accept stays in the buffer, also when the sink fails.

A call of the sink can be interrupted. Whoever empties the buffer makes it again, and so does
whoever writes all of some bytes: what the last write was to write is written again. A single write
and a flush fail as for any other reason.
-/
namespace SqlBackup.Output

/-- Where bytes go in the end. It accepts the first so many of the bytes that it is offered. -/
structure Sink (m : Type → Type) (ε : Type) where
  write : List UInt8 → m (Except ε Nat)
  flush : m (Except ε Unit)
  /-- Whether a call that failed for this cause was merely interrupted. -/
  interrupted : ε → Bool := fun _ => false
  /-- How many interruptions are sat out in one go. -/
  patience : Nat := 0

/-- Why a write fails. -/
inductive WriteFault (ε : Type) where
  /-- The sink failed. -/
  | sink (cause : ε)
  /-- The sink accepts nothing of the buffer. -/
  | stuck
  /-- The sink accepts nothing of what is written. -/
  | refused
  /-- The sink is interrupted more often than is sat out. A writer does not give up for this: it has
  not come to an end. -/
  | unfinished
  deriving DecidableEq, Inhabited

def WriteFault.message {ε : Type} (cause : ε → String) : WriteFault ε → String
  | sink e => cause e
  | stuck => "failed to write the buffered data"
  | refused => "failed to write whole buffer"
  | unfinished => "operation interrupted"

/-- Whether a write failed because the sink was interrupted. -/
def Sink.interrupts {m : Type → Type} {ε : Type} (sink : Sink m ε) : WriteFault ε → Bool
  | .sink cause => sink.interrupted cause
  | _ => false

/-- A writer in front of a sink. -/
structure Buffered where
  /-- How many bytes the buffer holds. -/
  capacity : Nat
  /-- After how many bytes the sink is flushed. -/
  threshold : Nat
  held : List UInt8 := []
  /-- The bytes taken since the last flush. -/
  pending : Nat := 0
  /-- All bytes taken. -/
  written : Nat := 0
  deriving DecidableEq, Inhabited

namespace Buffered

/-- An empty writer. A size of 0 stands for 1. -/
def ofSizes (capacity threshold : Nat) : Buffered :=
  { capacity := max 1 capacity, threshold := max 1 threshold }

variable {m : Type → Type} {ε : Type} [Monad m]

/-- Offers bytes to a sink until it has accepted all of them. Those not accepted are returned. -/
def push (sink : Sink m ε) (patience : Nat) (held : List UInt8) :
    m (Except (WriteFault ε) Unit × List UInt8) :=
  if _empty : held = [] then pure (.ok (), [])
  else do
    match ← sink.write held with
    | .error cause =>
        if sink.interrupted cause then
          match patience with
          | 0 => pure (.error .unfinished, held)
          | patience + 1 => push sink patience held
        else pure (.error (.sink cause), held)
    | .ok n =>
        if _none : n = 0 then pure (.error .stuck, held)
        else push sink patience (held.drop n)
termination_by patience + held.length
decreasing_by
  · omega
  · have := List.length_pos_iff.mpr _empty
    simp only [List.length_drop]
    omega

/-- Empties the buffer. -/
def drain (sink : Sink m ε) (w : Buffered) : m (Except (WriteFault ε) Unit × Buffered) := do
  let (answer, held) ← push sink sink.patience w.held
  pure (answer, { w with held })

/-- Empties the buffer and flushes the sink. -/
def flush (sink : Sink m ε) (w : Buffered) : m (Except (WriteFault ε) Unit × Buffered) := do
  match ← w.drain sink with
  | (.error fault, w) => pure (.error fault, w)
  | (.ok (), w) =>
      match ← sink.flush with
      | .error cause => pure (.error (.sink cause), w)
      | .ok () => pure (.ok (), { w with pending := 0 })

/-- Takes bytes into the buffer or hands them to the sink, and tells how many it took. Bytes that
do not fit wait until the buffer is empty, and so many as fill it are not copied. -/
def accept (sink : Sink m ε) (bytes : List UInt8) (w : Buffered) :
    m (Except (WriteFault ε) Nat × Buffered) := do
  let room := w.capacity - w.held.length
  let (answer, w) ← if room < bytes.length then w.drain sink else pure (.ok (), w)
  match answer with
  | .error fault => pure (.error fault, w)
  | .ok () =>
      if bytes.length < room || bytes.length < w.capacity then
        pure (.ok bytes.length, { w with held := w.held ++ bytes })
      else
        match ← sink.write bytes with
        | .error cause => pure (.error (.sink cause), w)
        | .ok n => pure (.ok n, w)

/-- Writes some of the bytes, and tells how many. The sink is flushed when the threshold is
reached, so the write can fail although the bytes were taken. -/
def write (sink : Sink m ε) (bytes : List UInt8) (w : Buffered) :
    m (Except (WriteFault ε) Nat × Buffered) := do
  match ← w.accept sink bytes with
  | (.error fault, w) => pure (.error fault, w)
  | (.ok n, w) =>
      let w := { w with pending := w.pending + n, written := w.written + n }
      if w.pending < w.threshold then pure (.ok n, w)
      else
        match ← w.flush sink with
        | (.error fault, w) => pure (.error fault, w)
        | (.ok (), w) => pure (.ok n, w)

/-- Writes bytes until all of them are taken. A write that is interrupted is made again, with the
bytes that it was to write, although it may have taken them. -/
def offer (sink : Sink m ε) (patience : Nat) (bytes : List UInt8) (w : Buffered) :
    m (Except (WriteFault ε) Unit × Buffered) :=
  if _empty : bytes = [] then pure (.ok (), w)
  else do
    match ← w.write sink bytes with
    | (.error fault, w) =>
        if sink.interrupts fault then
          match patience with
          | 0 => pure (.error .unfinished, w)
          | patience + 1 => offer sink patience bytes w
        else pure (.error fault, w)
    | (.ok n, w) =>
        if _none : n = 0 then pure (.error .refused, w)
        else offer sink patience (bytes.drop n) w
termination_by patience + bytes.length
decreasing_by
  · omega
  · have := List.length_pos_iff.mpr _empty
    simp only [List.length_drop]
    omega

/-- Writes all of the bytes. -/
def writeAll (sink : Sink m ε) (bytes : List UInt8) (w : Buffered) :
    m (Except (WriteFault ε) Unit × Buffered) :=
  offer sink sink.patience bytes w

/-- Empties the buffer for the last time, without a flush of the sink. A failed attempt is made
once more. -/
def close (sink : Sink m ε) (w : Buffered) : m (Except (WriteFault ε) Unit × Buffered) := do
  match ← w.drain sink with
  | (.ok (), w) => pure (.ok (), w)
  | (.error fault, w) =>
      let (_, w) ← w.drain sink
      pure (.error fault, w)

end Buffered

end SqlBackup.Output
