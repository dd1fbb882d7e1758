import SqlBackup.Scripted.Files
import SqlBackup.Scripted.Programs
import SqlBackup.Scripted.Server

/-!
# A scripted host

A host without a machine: a scripted server, files in memory, scripted programs and a clock that
stands still. It keeps the events that jobs tell.
-/
namespace SqlBackup.Scripted

structure World where
  server : Server
  files : Tree
  programs : Shelf
  now : Calendar.Instant
  events : List Progress.Event := []
  deriving Inhabited

namespace World

/-- Answers a request. -/
def answer : (request : Request) → World → Answer request.Reply × World
  | .acquire, w =>
      let (answer, server) := w.server.acquire
      (answer, { w with server })
  | .session session call, w =>
      let (answer, server) := w.server.call session.id call
      (answer, { w with server })
  | .file call, w =>
      let (reply, files) := w.files.call call
      ({ reply := .ok reply }, { w with files })
  | .program call, w =>
      let (reply, programs) := w.programs.call call
      ({ reply := .ok reply }, { w with programs })
  | .now, w => ({ reply := .ok w.now }, w)
  | .tell event, w => ({ reply := .ok () }, { w with events := w.events ++ [event] })
  | .pause length, w => ({ reply := .ok (), delay := length }, w)

/-- A session that no job asked for. -/
def connect (w : World) : Session × World :=
  let (session, server) := w.server.connect
  (session, { w with server })

end World

/-- The host that answers from a world. -/
def host : Host World := ⟨World.answer⟩

end SqlBackup.Scripted
