import Mathlib
import SqlBackup.Codec.Reading
import SqlBackup.Dump.Inspect
import SqlBackup.Proofs.Job.Asks

/-!
# What looking at a dump asks

To be chosen, and to give the plain text of a file, a codec asks for programs only. What is on disk
is not for them: a program gets its input handed. What a codec inside makes of the file is the file
itself or what is decoded of it. To tell the format of a dump or its digest, nothing is asked but to
read it.
-/
namespace SqlBackup.Codec

/-- What a codec asks of programs. None of them is told a path. -/
inductive Runs : Programs.Call → Prop
  | find (name : String) : Runs (.find name)
  | start (program : String) (c : Compression) (back : Bool) :
      Runs (.start program (arguments c back))
  | finish (child : Nat) (input : List UInt8) : Runs (.finish child input)

variable {allowed : Request → Prop}

/-- A codec that may be chosen for a kind of compression. -/
def IsFor (c : Compression) (codec : Codec) : Prop :=
  codec = .inside c ∨ c ≠ .none ∧ ∃ program, codec = .outside c program

/-- The text that such a codec can make of what was read. That of a program is its own affair. -/
inductive Draws (content : Files.Content) : Compression → Source → Prop
  | plain : Draws content .none ⟨content.bytes, content.failure.map .plain⟩
  | gzip (demand : Demand) : Draws content .gzip (Gzip.decode demand content).source
  | zstd (demand : Demand) : Draws content .zstd (Zstd.decode demand content).source
  | program {c : Compression} (path : String) (ended : Programs.Ended) (h : c ≠ .none) :
      Draws content c ⟨ended.output, (ended.fault? path).map .carried⟩

theorem asks_installed (hallowed : ∀ call, Runs call → allowed (.program call)) (c : Compression)
    (hc : c ≠ .none) : (installed c).Asks allowed (IsFor c) := by
  unfold installed
  split
  · exact Work.asks_fail
  · refine (Work.asks_request (hallowed _ (.find _))).bind fun found _ => ?_
    cases found with
    | none => exact Work.asks_fail
    | some program => exact Work.asks_pure (.inr ⟨hc, program, rfl⟩)

theorem asks_choose (hallowed : ∀ call, Runs call → allowed (.program call)) (c : Compression)
    (external : Bool) : (choose c external).Asks allowed (IsFor c) := by
  have hinside (c : Compression) (hc : c ≠ .none) : (if external then installed c
      else pure (.inside c)).Asks allowed (IsFor c) := by
    split
    · exact asks_installed hallowed c hc
    · exact Work.asks_pure (.inl rfl)
  cases c with
  | none => exact Work.asks_pure (.inl rfl)
  | gzip => exact hinside .gzip nofun
  | xz => exact asks_installed hallowed .xz nofun
  | zstd => exact hinside .zstd nofun

theorem asks_start (hallowed : ∀ call, Runs call → allowed (.program call)) (c : Compression)
    (program : String) (back : Bool) : (start c program back).Asks allowed fun _ => True :=
  Work.asks_ofExcept (Job.asks_request (hallowed _ (.start program c back)) fun _ _ _ => trivial)

theorem asks_read (hallowed : ∀ call, Runs call → allowed (.program call)) {c : Compression}
    {codec : Codec} (hcodec : codec.IsFor c) (demand : Demand) (content : Files.Content) :
    (codec.read demand content).Asks allowed (Draws content c) := by
  rcases hcodec with rfl | ⟨hc, program, rfl⟩
  · cases c with
    | none => exact Work.asks_pure .plain
    | gzip => exact Work.asks_pure (.gzip demand)
    | xz => exact Work.asks_fail
    | zstd => exact Work.asks_pure (.zstd demand)
  · refine (asks_start hallowed c program true).bind fun child _ => ?_
    refine (Work.asks_request (hallowed _ (.finish _ _))).bind fun ended _ => ?_
    exact Work.asks_pure (.program program ended hc)

end SqlBackup.Codec

namespace SqlBackup

/-- A call that looks at what this path names. -/
inductive Files.Call.Views (path : String) : Files.Call → Prop
  | kind : Views path (.kind path)
  | read : Views path (.read path)
  | size : Views path (.size path)

/-- Of files, only what this path names is looked at. -/
def Request.Views (path : String) (request : Request) : Prop :=
  ∀ call, request = .file call → call.Views path

theorem Request.views_file {path : String} {call : Files.Call} (h : call.Views path) :
    Request.Views path (.file call) := by
  rintro _ ⟨⟩
  exact h

theorem Request.views_of_ne {path : String} {request : Request}
    (h : ∀ call, request ≠ .file call) : request.Views path :=
  fun call hcall => (h call hcall).elim

namespace Dump

variable {allowed : Request → Prop} {path : String}

theorem asks_bytesOf (hread : allowed (.file (.read path))) :
    (bytesOf path).Asks allowed fun _ => True :=
  Work.Asks.bind (m := fun _ => True)
    (Work.asks_onPath (Job.asks_request hread fun _ => trivial)) fun _ _ => Work.asks_ofResult _

theorem asks_headerOf (hread : allowed (.file (.read path))) :
    (headerOf path).Asks allowed fun _ => True :=
  Work.Asks.bind (m := fun _ => True)
    (Work.asks_onPath (Job.asks_request hread fun _ => trivial)) fun _ _ => Work.asks_ofResult _

/-- A dump whose compression is named counts as plain. -/
theorem asks_detect (hread : allowed (.file (.read path))) (explicit : Option Compression) :
    (detect path explicit).Asks allowed fun format => explicit = none ∨ format.kind = .plain := by
  cases explicit with
  | some compression => exact Work.asks_pure (.inr rfl)
  | none => exact (asks_headerOf hread).bind fun _ _ => Work.asks_pure (.inl rfl)

theorem asks_digest (hread : allowed (.file (.read path))) :
    (digest path).Asks allowed fun _ => True :=
  (asks_bytesOf hread).bind fun _ _ => Work.asks_pure trivial

end Dump

end SqlBackup
