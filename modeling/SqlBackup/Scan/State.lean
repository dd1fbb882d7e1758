import SqlBackup.Fault
import SqlBackup.Text.Blank
import SqlBackup.Text.Utf8

/-!
# The state of a statement scanner

A dump is read byte by byte. The state records whether the scanner stands in code, in a quoted
stretch or in a comment, and holds the text of the statement being read. A statement ends where
the text in code spells the delimiter; comments leave at most one blank in it.
-/
namespace SqlBackup

/-- A statement of a dump and where it stands. -/
structure Statement where
  /-- The text without its delimiter and without blanks on either side. -/
  sql : String
  /-- The bytes read since the end of the statement before it. -/
  bytesConsumed : Nat
  /-- The offset just behind the delimiter. -/
  endOffset : Nat
  deriving DecidableEq, Inhabited

namespace Scan

/-- What the next byte belongs to. -/
inductive Mode where
  | code
  /-- A stretch quoted by this byte. -/
  | quoted (quote : UInt8)
  /-- Just behind a backslash within such a stretch. -/
  | escaped (quote : UInt8)
  | lineComment
  /-- A comment in `/* */`; `star` tells whether the last byte was a star. -/
  | blockComment (star : Bool)
  deriving DecidableEq, Inhabited

/-- The bytes that end a statement. They are also kept in the order in which a text is held, last
byte first, and counted, so that a byte of text costs no pass over a long delimiter. -/
structure Delimiter where
  bytes : List UInt8
  backward : List UInt8 := bytes.reverse
  size : Nat := bytes.length
  backward_eq : backward = bytes.reverse := by rfl
  size_eq : size = bytes.length := by rfl
  deriving DecidableEq

/-- The delimiter at the start of every dump. -/
def semicolon : Delimiter := ⟨[0x3B], [0x3B], 1, rfl, rfl⟩

instance : Inhabited Delimiter := ⟨semicolon⟩

/-- The delimiter of these bytes. No bytes stand for the semicolon. -/
def Delimiter.ofBytes (bytes : List UInt8) : Delimiter :=
  if bytes.isEmpty then semicolon else { bytes }

@[simp] theorem Delimiter.bytes_semicolon : semicolon.bytes = [0x3B] := rfl

/-- Whether a text of this size, last byte first, ends with the delimiter. -/
def Delimiter.ends (d : Delimiter) (text : List UInt8) (size : Nat) : Bool :=
  d.size ≤ size && d.backward.isPrefixOf text

theorem Delimiter.ends_eq (d : Delimiter) (text : List UInt8) :
    d.ends text text.length = d.bytes.reverse.isPrefixOf text := by
  rw [Delimiter.ends, d.backward_eq, d.size_eq, Bool.and_eq_right_iff_imp]
  intro h
  have := (List.isPrefixOf_iff_prefix.mp h).length_le
  simpa using this

/-- The registers of a scanner. -/
structure State where
  mode : Mode
  /-- Whether the statement being read has any text yet. -/
  begun : Bool
  /-- The text of the statement being read, last byte first. -/
  pending : List UInt8
  /-- The number of pending bytes. -/
  size : Nat
  delimiter : Delimiter
  /-- The offset behind the last byte read. -/
  position : Nat
  /-- The offset behind the last statement. -/
  start : Nat
  deriving DecidableEq, Inhabited

namespace State

/-- The state before anything is read from this offset on. -/
def initial (offset : Nat) (delimiter : Delimiter) : State :=
  ⟨.code, false, [], 0, delimiter, offset, offset⟩

/-- What a byte leads to. -/
inductive Signal where
  | more
  /-- The text now ends with the delimiter. -/
  | boundary
  /-- The text is longer than the limit. -/
  | tooLarge
  deriving DecidableEq, Inhabited

/-- Adds a byte to the text of the statement. Blanks in front of the text are dropped. -/
def push (limit : Nat) (s : State) (b : UInt8) : State × Signal :=
  if !s.begun && Text.isAsciiBlank b then (s, .more)
  else
    ({ s with begun := true, pending := b :: s.pending, size := s.size + 1 },
      if limit < s.size + 1 then .tooLarge else .more)

/-- Takes the last byte of the text back. -/
def unpush (s : State) : State :=
  let pending := s.pending.tail
  { s with pending, size := s.size - 1, begun := pending.any (!Text.isAsciiBlank ·) }

/-- Whether the text ends with the delimiter. -/
def atDelimiter (s : State) : Bool := s.delimiter.ends s.pending s.size

/-- A push that a change of mode follows, unless the text became too large. -/
def pushThen (limit : Nat) (s : State) (b : UInt8) (mode : Mode) : State × Signal :=
  match s.push limit b with
  | (s, .tooLarge) => (s, .tooLarge)
  | (s, _) => ({ s with mode }, .more)

/-- A byte in code: it opens a quoted stretch or a comment, or is text that may complete the
delimiter. -/
def stepCode (limit : Nat) (s : State) (b : UInt8) : State × Signal :=
  if b == 0x27 || b == 0x22 || b == 0x60 then s.pushThen limit b (.quoted b)
  else if b == 0x23 then ({ s with mode := .lineComment }, .more)
  else if b == 0x2D && s.pending.head? == some 0x2D then
    ({ s.unpush with mode := .lineComment }, .more)
  else if b == 0x2A && s.pending.head? == some 0x2F then
    ({ s.unpush with mode := .blockComment false }, .more)
  else
    match s.push limit b with
    | (s, .tooLarge) => (s, .tooLarge)
    | (s, _) => (s, if s.begun && s.atDelimiter then .boundary else .more)

/-- A byte in the mode of the state, at the position already counted. -/
def stepMode (limit : Nat) (s : State) (b : UInt8) : State × Signal :=
  match s.mode with
  | .code => s.stepCode limit b
  | .quoted quote =>
      s.pushThen limit b
        (if b == 0x5C then .escaped quote else if b == quote then .code else .quoted quote)
  | .escaped quote => s.pushThen limit b (.quoted quote)
  | .lineComment => if b == 0x0A then { s with mode := .code }.push limit b else (s, .more)
  | .blockComment star =>
      if star && b == 0x2F then { s with mode := .code }.push limit 0x20
      else ({ s with mode := .blockComment (b == 0x2A) }, .more)

/-- Reads one byte. -/
def step (limit : Nat) (s : State) (b : UInt8) : State × Signal :=
  { s with position := s.position + 1 }.stepMode limit b

/-- The state with its text taken out. -/
def cleared (s : State) : State := { s with begun := false, pending := [], size := 0 }

/-- Ends the text and makes a statement of it, unless it is blank. At a boundary the text ends
with the delimiter, which does not belong to the statement. -/
def take (s : State) (atBoundary : Bool) : State × Except Fault (Option Statement) :=
  let raw := if atBoundary then s.pending.drop s.delimiter.size else s.pending
  match Text.Utf8.decode? raw.reverse with
  | none => (s.cleared, .error (.invalidEncoding s.position))
  | some text =>
      let sql := Text.trim text
      if sql.isEmpty then (s.cleared, .ok none)
      else
        ({ s.cleared with start := s.position },
          .ok (some ⟨sql, s.position - s.start, s.position⟩))

/-- Reads bytes up to the first statement or failure, and returns those behind it. -/
def scan (limit : Nat) : State → List UInt8 →
    State × List UInt8 × Option (Except Fault Statement)
  | s, [] => (s, [], none)
  | s, b :: bytes =>
      match s.step limit b with
      | (s, .more) => scan limit s bytes
      | (s, .tooLarge) => (s, bytes, some (.error (.statementTooLarge limit s.position)))
      | (s, .boundary) =>
          match s.take true with
          | (s, .ok none) => scan limit s bytes
          | (s, .ok (some statement)) => (s, bytes, some (.ok statement))
          | (s, .error fault) => (s, bytes, some (.error fault))

@[simp] theorem scan_nil (limit : Nat) (s : State) : s.scan limit [] = (s, [], none) := rfl

end State

end Scan

end SqlBackup
