/-!
# Tokens of YAML

A text is cut into tokens before its structure is read. The tokens that open and close blocks
stand for indentation and have no characters of their own.
-/
namespace SqlBackup.Yaml

/-- How a scalar is written. -/
inductive Style where
  | plain
  | single
  | double
  | literal
  | folded
  deriving DecidableEq, Inhabited

inductive Token where
  /-- The version that a document is written for. -/
  | version (major minor : Nat)
  /-- A short form for the start of tags. -/
  | shorthand (handle start : String)
  | documentStart
  | documentEnd
  | blockSequenceStart
  | blockMappingStart
  | blockEnd
  | flowSequenceStart
  | flowSequenceEnd
  | flowMappingStart
  | flowMappingEnd
  /-- The dash in front of an item. -/
  | item
  /-- The comma behind an item. -/
  | comma
  | key
  | value
  | alias (name : String)
  | anchor (name : String)
  | tag (handle suffix : String)
  | scalar (style : Style) (text : String)
  deriving DecidableEq, Inhabited

end SqlBackup.Yaml
