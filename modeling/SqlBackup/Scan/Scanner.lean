import SqlBackup.Scan.Directive
import SqlBackup.Scan.State
import SqlBackup.Source

/-!
# Statements of a dump

A scanner yields the statements of a stream of bytes one by one. It reads the stream in chunks, a
line or a part of a long line at a time, so that the text of one statement is all it holds. A
failure is final: after it, and after the end of the stream, there are no more statements.
-/
namespace SqlBackup.Scan

/-- A chunk of a stream: a line with its line feed, or `room + 1` bytes of a longer one. -/
structure Chunk where
  bytes : List UInt8
  rest : List UInt8
  /-- Whether the chunk is full or ends a line, so that nothing behind it was looked at. -/
  complete : Bool
  deriving Inhabited

/-- Cuts a chunk of at most `n` bytes off. -/
def Chunk.cut : Nat → List UInt8 → Chunk
  | 0, bytes => ⟨[], bytes, true⟩
  | _ + 1, [] => ⟨[], [], false⟩
  | n + 1, b :: bytes =>
      if b == 0x0A then ⟨[b], bytes, true⟩
      else
        let c := Chunk.cut n bytes
        ⟨b :: c.bytes, c.rest, c.complete⟩

theorem Chunk.cut_append (n : Nat) (bytes : List UInt8) :
    (Chunk.cut n bytes).bytes ++ (Chunk.cut n bytes).rest = bytes := by
  induction n generalizing bytes with
  | zero => rfl
  | succ n ih =>
    cases bytes with
    | nil => rfl
    | cons b bytes =>
      by_cases h : (b == 0x0A) = true <;> simp [Chunk.cut, h, ih]

theorem Chunk.length_rest_lt {n : Nat} {bytes : List UInt8}
    (h : (Chunk.cut n bytes).bytes ≠ []) : (Chunk.cut n bytes).rest.length < bytes.length := by
  have same := congrArg List.length (Chunk.cut_append n bytes)
  have nonempty := List.length_pos_iff.mpr h
  simp only [List.length_append] at same
  omega

/-- Default bound on the text of one statement, 64 MiB. -/
def defaultLimit : Nat := 64 * 1024 * 1024

/-- What stays the same during a scan. -/
structure Settings where
  /-- The name of the stream in failures. -/
  name : String := "input"
  /-- The most bytes that the text of a statement may have. -/
  limit : Nat := defaultLimit
  /-- One less than the most bytes that a chunk may have. -/
  room : Nat := 64 * 1024 - 1
  deriving Inhabited

end Scan

open Scan

/-- Reads statements from a stream. -/
structure Scanner where
  settings : Settings
  state : State
  /-- What is left of the current chunk. -/
  chunk : List UInt8
  /-- Whether the next chunk starts a line. -/
  atLineStart : Bool
  source : Source
  finished : Bool
  deriving Inhabited

namespace Scanner

/-- A scanner of a stream that starts at this offset of a dump, which must be the end of a
statement. A limit of 0 stands for 1. -/
def ofSource (source : Source) (settings : Settings := {}) (offset : Nat := 0)
    (delimiter : Delimiter := semicolon) : Scanner where
  settings := { settings with limit := max 1 settings.limit }
  state := .initial offset delimiter
  chunk := []
  atLineStart := offset == 0
  source := source
  finished := false

def delimiter (sc : Scanner) : Delimiter := sc.state.delimiter

/-- The bytes read so far, the starting offset included. -/
def position (sc : Scanner) : Nat := sc.state.position

/-- What a call for the next statement returns. -/
abbrev Answer := Except Fault (Option Statement)

/-- Stops with the text that no delimiter ended. -/
def finish (sc : Scanner) : Scanner × Answer :=
  let (state, answer) := { sc.state with mode := .code }.take false
  ({ sc with state, chunk := [], finished := true }, answer)

/-- Stops with a failure. -/
def fail (sc : Scanner) (fault : Fault) : Scanner × Answer :=
  ({ sc with finished := true }, .error fault)

/-- The delimiter set by a chunk, where a directive may stand: at the start of a line, in code,
with no text pending. -/
def directiveIn? (sc : Scanner) (chunk : List UInt8) : Option Delimiter :=
  if sc.atLineStart && sc.state.mode == .code && !sc.state.begun then directive? chunk else none

/-- Records that a chunk was cut off the stream. -/
def consume (sc : Scanner) (c : Chunk) : Scanner :=
  { sc with
    source := { sc.source with bytes := c.rest }
    atLineStart := c.bytes.getLast? == some 0x0A }

/-- Obeys a directive that takes up a whole chunk. -/
def obey (sc : Scanner) (delimiter : Delimiter) (length : Nat) : Scanner :=
  { sc with state := { sc.state with delimiter, position := sc.state.position + length } }

/-- Reads chunk after chunk up to the next statement. -/
def refill (sc : Scanner) : Scanner × Answer :=
  let c := Chunk.cut (sc.settings.room + 1) sc.source.bytes
  match c.complete, sc.source.failure with
  | false, some failure => sc.fail (.ofStream sc.settings.name failure)
  | _, _ =>
      if h : c.bytes = [] then sc.finish
      else
        have : c.rest.length < sc.source.bytes.length := Chunk.length_rest_lt h
        match sc.directiveIn? c.bytes with
        | some delimiter => refill ((sc.consume c).obey delimiter c.bytes.length)
        | none =>
            match sc.state.scan sc.settings.limit c.bytes with
            | (state, chunk, some (.ok statement)) =>
                ({ sc.consume c with state, chunk }, .ok (some statement))
            | (state, chunk, some (.error fault)) =>
                ({ sc.consume c with state, chunk }.fail fault)
            | (state, _, none) => refill { sc.consume c with state }
termination_by sc.source.bytes.length

/-- The next statement, or nothing behind the last one. -/
def next (sc : Scanner) : Scanner × Answer :=
  if sc.finished then (sc, .ok none)
  else
    match sc.state.scan sc.settings.limit sc.chunk with
    | (state, chunk, some (.ok statement)) => ({ sc with state, chunk }, .ok (some statement))
    | (state, chunk, some (.error fault)) => { sc with state, chunk }.fail fault
    | (state, _, none) => { sc with state, chunk := [] }.refill

theorem next_of_finished {sc : Scanner} (h : sc.finished = true) : sc.next = (sc, .ok none) := by
  simp [next, h]

end Scanner

end SqlBackup
