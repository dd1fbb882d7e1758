import SqlBackup.Codec.Choice
import SqlBackup.Codec.Gzip
import SqlBackup.Codec.Zstd.Frame

/-!
# Writing through a codec

Plain text goes straight to the file. An encoder is told the text as it comes and hands over bytes
for the file when it likes, the last of them when it is told that the text is complete. A program
gets the text as a whole. So a writer must be finished.
-/
namespace SqlBackup.Codec

/-- What an encoder is told. -/
inductive Feed where
  | text (bytes : List UInt8)
  /-- Hold nothing back. -/
  | flush
  /-- There is no more text. -/
  | finish
  deriving DecidableEq, Inhabited

/-- What packs a text. -/
structure Encoder where
  /-- The bytes handed over when it is told something, behind what it was told before. What it was
  told last stands first. -/
  hand : Feed → List Feed → List UInt8

namespace Encoder

/-- The text that an encoder was told. -/
def textOf (told : List Feed) : List UInt8 :=
  told.reverse.flatMap fun
    | .text bytes => bytes
    | _ => []

@[simp] theorem textOf_text (bytes : List UInt8) (told : List Feed) :
    textOf (.text bytes :: told) = textOf told ++ bytes := by
  simp [textOf]

@[simp] theorem textOf_flush (told : List Feed) : textOf (.flush :: told) = textOf told := by
  simp [textOf]

/-- All bytes handed over. -/
def handed (e : Encoder) : List Feed → List UInt8
  | [] => []
  | feed :: told => e.handed told ++ e.hand feed told

/-- An encoder that hands nothing over before the text is complete. -/
def atOnce (encode : List UInt8 → List UInt8) : Encoder where
  hand
    | .finish, told => encode (textOf told)
    | _, _ => []

/-- Until it is told that this is all, it has handed over nothing. -/
theorem handed_atOnce (encode : List UInt8 → List UInt8) {told : List Feed}
    (h : .finish ∉ told) : (atOnce encode).handed told = [] := by
  induction told with
  | nil => rfl
  | cons feed told ih =>
    rw [List.mem_cons, not_or] at h
    rw [handed, ih h.2, List.nil_append]
    cases feed with
    | finish => exact absurd rfl h.1
    | text bytes => rfl
    | flush => rfl

instance : Inhabited Encoder := ⟨atOnce id⟩

end Encoder

/-- The encoders at hand. -/
structure Encoders where
  gzip : Encoder := .atOnce Gzip.encode
  zstd : Encoder := .atOnce Zstd.encode
  deriving Inhabited

/-- Writes the text of a dump into a file. -/
inductive Writer where
  | plain (path : String)
  /-- By an encoder that was told this, the last first. -/
  | packed (path : String) (encoder : Encoder) (told : List Feed)
  /-- By a started program. It is handed these pieces as one, the last of them first. -/
  | piped (path : String) (program : String) (child : Nat) (pieces : List (List UInt8))
  deriving Inhabited

namespace Writer

/-- A writer into an empty file. -/
def ofCodec (path : String) (codec : Codec) (encoders : Encoders := {}) : Work Writer :=
  match codec with
  | .inside .none => pure (plain path)
  | .inside .gzip => pure (packed path encoders.gzip [])
  | .inside .zstd => pure (packed path encoders.zstd [])
  | .inside .xz => .fail noneInside
  | .outside c program => do
      let child ← start c program false
      pure (piped path program child [])

/-- Appends bytes to the file, if there are any. -/
def emit (path : String) (bytes : List UInt8) : Job (Except StreamFault Unit) :=
  if bytes.isEmpty then pure (.ok ())
  else do
    let answer ← Job.file (.append path bytes)
    pure (answer.mapError StreamFault.plain)

/-- Tells an encoder something. If the file does not take what it hands over, it was told
nothing. -/
def tell (path : String) (encoder : Encoder) (told : List Feed) (feed : Feed) :
    Job (Except StreamFault Unit × Writer) := do
  match ← emit path (encoder.hand feed told) with
  | .ok () => pure (.ok (), packed path encoder (feed :: told))
  | .error fault => pure (.error fault, packed path encoder told)

/-- Takes some of the text. -/
def write (bytes : List UInt8) : Writer → Job (Except StreamFault Unit × Writer)
  | plain path => do
      let answer ← Job.file (.append path bytes)
      pure (answer.mapError StreamFault.plain, plain path)
  | packed path encoder told => tell path encoder told (.text bytes)
  | piped path program child pieces => pure (.ok (), piped path program child (bytes :: pieces))

/-- Holds nothing back that could be in the file. -/
def flush : Writer → Job (Except StreamFault Unit × Writer)
  | packed path encoder told => tell path encoder told .flush
  | writer => pure (.ok (), writer)

/-- Makes sure that the file will last. -/
def sync (path : String) : ExceptT StreamFault Job Unit :=
  ExceptT.mk (do
    let answer ← Job.file (.sync path)
    pure (answer.mapError StreamFault.plain))

/-- Completes the file. What a program wrote stays in it even if the program failed. -/
def finish : Writer → ExceptT StreamFault Job Unit
  | plain path => sync path
  | packed path encoder told => do
      ExceptT.mk (emit path (encoder.hand .finish told))
      sync path
  | piped path program child pieces => do
      let ended ← ExceptT.lift (Job.program (.finish child pieces.reverse.flatten))
      ExceptT.mk (emit path ended.output)
      match ended.fault? program with
      | none => pure ()
      | some fault => throw (.carried fault)

end Writer

end SqlBackup.Codec
