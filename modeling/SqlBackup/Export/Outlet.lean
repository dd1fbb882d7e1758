import SqlBackup.Codec.Writing
import SqlBackup.Dump.Piece
import SqlBackup.Output.Buffered

/-!
# Where an export writes to

The pieces of a dump pass a buffer and then a codec on their way into the file.
-/
namespace SqlBackup.Export

open Codec (Writer)
open Output (Buffered Sink WriteFault)

/-- The way into a file. -/
structure Outlet where
  path : String
  buffer : Buffered
  writer : Writer

namespace Outlet

/-- A codec as the sink of a buffer. It accepts all that it is offered. -/
def sink : Sink (StateT Writer Job) StreamFault where
  write bytes := fun writer => do
    let (answer, writer) ← writer.write bytes
    pure (answer.map fun _ => bytes.length, writer)
  flush := fun writer => writer.flush

/-- The fault of a failed write. -/
def blame (path : String) : WriteFault StreamFault → Fault
  | .sink cause => .ofStream path cause
  | fault => .io path (.layer .writeZero (fault.message fun _ => ""))

/-- Writes a piece. -/
def put (o : Outlet) (piece : Dump.Piece) : Work Outlet := do
  let ((answer, buffer), writer) ← Work.ofJob ((o.buffer.writeAll sink piece.bytes).run o.writer)
  Work.ofResult (answer.mapError (blame o.path))
  pure { o with buffer, writer }

/-- Writes pieces one after the other. -/
def putAll (o : Outlet) : List Dump.Piece → Work Outlet
  | [] => pure o
  | piece :: pieces => do
      let o ← o.put piece
      o.putAll pieces

/-- Completes the file. -/
def finish (o : Outlet) : Work Unit := do
  let ((answer, _), writer) ← Work.ofJob ((o.buffer.close sink).run o.writer)
  Work.ofResult (answer.mapError (blame o.path))
  Work.ofExcept (.ofStream o.path) writer.finish.run

end Outlet

end SqlBackup.Export
