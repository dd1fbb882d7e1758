import SqlBackup.Codec.Choice
import SqlBackup.Codec.Gzip
import SqlBackup.Codec.Zstd.Frame
import SqlBackup.Source

/-!
# Reading through a codec

The plain text of a dump is a stream. It breaks off where the file stops being readable and where a
decoder meets corrupt input. The failure of a program that gives the text is told only behind all
that the program wrote; that its own input broke off only the program knows.
-/
namespace SqlBackup.Codec

/-- A stream that a decoder makes. -/
def Decoded.source (d : Decoded) : Source := ⟨d.bytes.toList, d.failure.map .plain⟩

/-- The plain text of what is read. -/
def read (codec : Codec) (demand : Demand) (content : Files.Content) : Work Source :=
  match codec with
  | .inside .none => pure ⟨content.bytes, content.failure.map .plain⟩
  | .inside .gzip => pure (Gzip.decode demand content).source
  | .inside .zstd => pure (Zstd.decode demand content).source
  | .inside .xz => .fail noneInside
  | .outside c program => do
      let child ← start c program true
      let ended ← Work.ofJob (.program (.finish child content.bytes))
      pure ⟨ended.output, (ended.fault? program).map .carried⟩

end SqlBackup.Codec
