import SqlBackup.Fault

/-!
# Sources

What a reader gets of a stream of bytes: the bytes, and how the stream fails behind them.
-/
namespace SqlBackup

/-- A stream of bytes: those still unread, and how it fails behind them, if it does. -/
structure Source where
  bytes : List UInt8
  failure : Option StreamFault := none
  deriving Inhabited

namespace Source

/-- All bytes, unless the stream fails. -/
def all (s : Source) : Except StreamFault (List UInt8) :=
  match s.failure with
  | none => .ok s.bytes
  | some failure => .error failure

/-- The first `count` bytes, unless the stream ends or fails before. -/
def exactly (s : Source) (count : Nat) : Except StreamFault (List UInt8) :=
  if count ≤ s.bytes.length then .ok (s.bytes.take count)
  else
    match s.failure with
    | none => .error (.plain (.layer .unexpectedEof "failed to fill whole buffer"))
    | some failure => .error failure

end Source

end SqlBackup
