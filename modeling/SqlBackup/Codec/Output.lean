import SqlBackup.Files.Call

/-!
# Decoded output and what its reader gets of it

A decoder works on one stretch of its input after the other, and hands its output to a reader who
asks for some bytes at a time. When it meets corrupt input, what it made since it last handed
anything over is lost. The output therefore remembers how much of it the reader has for sure.
-/
namespace SqlBackup.Codec

/-- The byte at an index, zero behind the end. -/
def byteAt (bytes : ByteArray) (i : Nat) : UInt8 := if h : i < bytes.size then bytes[i] else 0

/-- How a reader asks for bytes. -/
inductive Demand where
  /-- Again and again, up to this many at once. -/
  | buffered (most : Nat)
  /-- Until it has this many. -/
  | exactly (count : Nat)
  deriving DecidableEq, Inhabited

/-- Why a decoder stops before the end. -/
inductive Trouble where
  | cutShort
  | corrupt
  deriving DecidableEq, Inhabited

/-- The output of a decoder. -/
structure Output where
  bytes : ByteArray
  /-- How many bytes the reader has for sure. -/
  delivered : Nat
  /-- The stretch of the input that the last byte read lies in. -/
  stretch : Nat
  /-- The length of a stretch. -/
  stretchSize : Nat
  demand : Demand

namespace Output

def empty (stretchSize : Nat) (demand : Demand) : Output := ⟨.empty, 0, 0, stretchSize, demand⟩

/-- How many bytes the reader asks for at the moment. -/
def room (o : Output) : Nat :=
  match o.demand with
  | .buffered most => most
  | .exactly count => count - o.delivered

/-- Hands everything over. -/
def settle (o : Output) : Output := { o with delivered := o.bytes.size }

/-- Notes that the input byte of this index was read. A new stretch is begun only after everything
made of the one before is handed over. -/
def touch (o : Output) (index : Nat) : Output :=
  let stretch := index / o.stretchSize
  if o.stretch < stretch then { o.settle with stretch } else o

def push : Output → UInt8 → Output
  | ⟨bytes, delivered, stretch, stretchSize, demand⟩, b =>
      ⟨bytes.push b, delivered, stretch, stretchSize, demand⟩

/-- The byte `distance` back, a zero before the first that counts, which is at `start`. -/
def back (o : Output) (start distance : Nat) : UInt8 :=
  if distance ≤ o.bytes.size - start then byteAt o.bytes (o.bytes.size - distance) else 0

@[simp] theorem delivered_settle (o : Output) : o.settle.delivered = o.bytes.size := rfl

end Output

/-- What a reader gets of a stream: some bytes, and how the stream fails behind them. -/
structure Decoded where
  bytes : ByteArray
  failure : Option IoFault

/-- How a stream fails whose decoder came to its end, with this trouble if with any. A decoder that
finds no more input is told why, if the input broke off. -/
def failureOf (fault : Trouble → IoFault) (broken : Option IoFault) :
    Option Trouble → Option IoFault
  | some .corrupt => some (fault .corrupt)
  | trouble => broken <|> trouble.map fault

/-- The bytes that the reader has for sure. -/
def Output.kept (o : Output) : ByteArray := o.bytes.extract 0 o.delivered

end SqlBackup.Codec
