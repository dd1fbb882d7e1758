import Mathlib
import SqlBackup.Export.Database
import SqlBackup.Proofs.Dump.Requests
import SqlBackup.Proofs.Job.Asks
import SqlBackup.Proofs.Scripted.Calls

/-!
# What an export asks

Of all files an export touches only that of its dump, whatever the server, the programs and the
files answer.
-/
namespace SqlBackup

/-- A request that leaves all files alone, except the one at this path. -/
def Request.IsOn (path : String) : Request → Prop
  | .file call => call.IsOn path
  | _ => True

/-- A request that leaves all files alone, or adds to the one at this path. -/
def Request.AddsTo (path : String) : Request → Prop
  | .file call => call = .sync path ∨ ∃ bytes, call = .append path bytes
  | _ => True

/-- A request that leaves all files alone. -/
def Request.IsSilent (request : Request) : Prop := ∀ call, request ≠ .file call

/-- What is asked to get bytes into the file at this path. -/
inductive Request.Emits (path : String) : Request → Prop
  | append (bytes : List UInt8) : Emits path (.file (.append path bytes))
  | sync : Emits path (.file (.sync path))
  | program (call : Programs.Call) : Emits path (.program call)

/-- What is asked to fill the file at this path with a dump. The server is queried only. -/
inductive Request.Fills (s : Session) (path : String) : Request → Prop
  | emits {request : Request} (h : request.Emits path) : Fills s path request
  | query (sql : String) : Fills s path (.session s (.query sql))
  | now : Fills s path .now
  | tell (event : Progress.Event) : Fills s path (.tell event)

namespace Request

variable {path : String} {request : Request}

theorem isSilent_session (s : Session) (call : Session.Call) : (session s call).IsSilent := by
  rintro _ ⟨⟩

theorem Emits.addsTo (h : request.Emits path) : request.AddsTo path := by
  cases h with
  | append bytes => exact .inr ⟨bytes, rfl⟩
  | sync => exact .inl rfl
  | program call => trivial

theorem Fills.addsTo {s : Session} (h : request.Fills s path) : request.AddsTo path := by
  cases h with
  | emits h => exact h.addsTo
  | query sql => trivial
  | now => trivial
  | tell event => trivial

theorem AddsTo.isOn (h : request.AddsTo path) : request.IsOn path := by
  cases request with
  | file call =>
    rcases h with rfl | ⟨bytes, rfl⟩
    · exact .sync
    · exact .append bytes
  | _ => trivial

end Request

namespace Export

open Codec (Writer)
open Output (Buffered)

variable {α : Type} {path : String}

/-- The file that a writer writes. -/
def writerPath : Writer → String
  | .plain path => path
  | .packed path _ _ => path
  | .piped path _ _ _ => path

/-- The part adds to one file only, and what it leaves writes that file. -/
def Confined (path : String) (part : StateT Writer Job α) : Prop :=
  ∀ writer, writerPath writer = path →
    (part.run writer).Asks (Request.Emits path) fun p => writerPath p.2 = path

theorem confined_pure (a : α) : Confined path (pure a) := fun _ h => h

theorem Confined.bind {β : Type} {part : StateT Writer Job α} {f : α → StateT Writer Job β}
    (h : Confined path part) (hf : ∀ a, Confined path (f a)) : Confined path (part >>= f) := by
  intro writer hwriter
  rw [StateT.run_bind]
  exact Job.asks_bind.mpr ((h writer hwriter).mono fun p hp => hf p.1 p.2 hp)

theorem Confined.ite {condition : Prop} [Decidable condition] {part part' : StateT Writer Job α}
    (h : Confined path part) (h' : Confined path part') :
    Confined path (if condition then part else part') := by
  split
  · exact h
  · exact h'

theorem asks_emit (path : String) (bytes : List UInt8) :
    (Writer.emit path bytes).Asks (Request.Emits path) fun _ => True := by
  rw [Writer.emit]
  split
  · trivial
  · exact ⟨.append bytes, fun _ => trivial⟩

/-- Whatever an encoder is told, what it hands over is added to its file. -/
theorem asks_tell (path : String) (encoder : Codec.Encoder) (told : List Codec.Feed)
    (feed : Codec.Feed) :
    (Writer.tell path encoder told feed).Asks (Request.Emits path) fun p =>
      writerPath p.2 = path := by
  rw [Writer.tell]
  refine Job.asks_bind.mpr ((asks_emit path _).mono fun answer _ => ?_)
  cases answer with
  | error fault => rfl
  | ok _ => rfl

theorem confined_sink (bytes : List UInt8) : Confined path (Outlet.sink.write bytes) := by
  intro writer hwriter
  have hwrite : (writer.write bytes).Asks (Request.Emits path) fun p => writerPath p.2 = path := by
    subst hwriter
    cases writer with
    | plain file => exact ⟨.append bytes, fun _ => rfl⟩
    | packed file encoder told => exact asks_tell file encoder told _
    | piped => rfl
  exact Job.asks_bind.mpr (hwrite.mono fun p hp => hp)

theorem confined_sinkFlush : Confined path Outlet.sink.flush := by
  rintro writer rfl
  cases writer with
  | plain => rfl
  | packed file encoder told => exact asks_tell file encoder told _
  | piped => rfl

theorem confined_push (patience : Nat) (held : List UInt8) :
    Confined path (Buffered.push Outlet.sink patience held) := by
  induction hsize : patience + held.length using Nat.strong_induction_on
    generalizing patience held with
  | _ n ih =>
    rw [Buffered.push.eq_def]
    split
    · exact confined_pure _
    · next hne =>
      have hpos := List.length_pos_iff.mpr hne
      refine (confined_sink held).bind fun answer => ?_
      cases answer with
      | error cause =>
        refine Confined.ite ?_ (confined_pure _)
        cases patience with
        | zero => exact confined_pure _
        | succ patience => exact ih (patience + held.length) (by omega) _ _ rfl
      | ok m =>
        dsimp only
        split
        · exact confined_pure _
        · exact ih (patience + (held.drop m).length) (by rw [List.length_drop]; omega) _ _ rfl

theorem confined_drain (w : Buffered) : Confined path (w.drain Outlet.sink) :=
  (confined_push _ w.held).bind fun _ => confined_pure _

theorem confined_flush (w : Buffered) : Confined path (w.flush Outlet.sink) := by
  refine (confined_drain w).bind fun p => ?_
  rcases p with ⟨fault | _, w⟩
  · exact confined_pure _
  · refine confined_sinkFlush.bind fun answer => ?_
    cases answer with
    | error cause => exact confined_pure _
    | ok _ => exact confined_pure _

theorem confined_accept (w : Buffered) (bytes : List UInt8) :
    Confined path (w.accept Outlet.sink bytes) := by
  unfold Buffered.accept
  refine Confined.ite ((confined_drain w).bind ?taken) ((confined_pure _).bind ?taken)
  rintro ⟨fault | _, w⟩
  · exact confined_pure _
  · refine Confined.ite (confined_pure _) ((confined_sink bytes).bind fun answer => ?_)
    cases answer with
    | error cause => exact confined_pure _
    | ok n => exact confined_pure _

theorem confined_write (w : Buffered) (bytes : List UInt8) :
    Confined path (w.write Outlet.sink bytes) := by
  refine (confined_accept w bytes).bind fun p => ?_
  rcases p with ⟨fault | n, w⟩
  · exact confined_pure _
  · dsimp only
    split
    · exact confined_pure _
    · refine (confined_flush _).bind fun p => ?_
      rcases p with ⟨fault | _, w⟩
      · exact confined_pure _
      · exact confined_pure _

theorem confined_offer (patience : Nat) (w : Buffered) (bytes : List UInt8) :
    Confined path (w.offer Outlet.sink patience bytes) := by
  induction hsize : patience + bytes.length using Nat.strong_induction_on
    generalizing patience w bytes with
  | _ n ih =>
    rw [Buffered.offer]
    split
    · exact confined_pure _
    · next hne =>
      have hpos := List.length_pos_iff.mpr hne
      refine (confined_write w bytes).bind fun p => ?_
      rcases p with ⟨fault | m, w⟩
      · refine Confined.ite ?_ (confined_pure _)
        cases patience with
        | zero => exact confined_pure _
        | succ patience => exact ih (patience + bytes.length) (by omega) _ w _ rfl
      · dsimp only
        split
        · exact confined_pure _
        · exact ih (patience + (bytes.drop m).length) (by rw [List.length_drop]; omega) _ w _ rfl

theorem confined_close (w : Buffered) : Confined path (w.close Outlet.sink) := by
  refine (confined_drain w).bind fun p => ?_
  rcases p with ⟨fault | _, w⟩
  · exact (confined_drain w).bind fun _ => confined_pure _
  · exact confined_pure _

/-! ### Outlets -/

/-- An outlet into the file at this path. -/
def Outlet.Into (path : String) (o : Outlet) : Prop := writerPath o.writer = path

variable {o : Outlet}

theorem Outlet.asks_put (h : o.Into path) (piece : Dump.Piece) :
    (o.put piece).Asks (Request.Emits path) fun o' => o'.Into path := by
  refine (Work.asks_ofJob (confined_offer _ o.buffer piece.bytes o.writer h)).bind fun p hp => ?_
  exact (Work.asks_ofResult _).bind fun _ _ =>
    Work.asks_pure hp

theorem Outlet.asks_putAll (h : o.Into path) (pieces : List Dump.Piece) :
    (o.putAll pieces).Asks (Request.Emits path) fun o' => o'.Into path := by
  induction pieces generalizing o with
  | nil => exact Work.asks_pure h
  | cons piece pieces ih => exact (Outlet.asks_put h piece).bind fun o' ho => ih ho

theorem asks_writerFinish {writer : Writer} (h : writerPath writer = path) :
    Job.Asks (Request.Emits path) writer.finish.run fun _ => True := by
  have hsync : Job.Asks (Request.Emits path) (Writer.sync path).run fun _ => True :=
    ⟨.sync, fun _ => trivial⟩
  subst h
  cases writer with
  | plain file => exact hsync
  | packed file encoder told =>
    show Job.Asks _ ((Writer.emit file _).bind _) _
    refine Job.asks_bind.mpr ((asks_emit file _).mono fun answer _ => ?_)
    cases answer with
    | error cause => trivial
    | ok _ => exact hsync
  | piped file program child pieces =>
    refine ⟨.program _, fun ended => ?_⟩
    show Job.Asks _ ((Writer.emit file ended.output).bind _) _
    refine Job.asks_bind.mpr ((asks_emit file ended.output).mono fun answer _ => ?_)
    cases answer with
    | error cause => trivial
    | ok _ =>
      dsimp only [ExceptT.bindCont]
      cases ended.fault? program with
      | none => trivial
      | some fault => trivial

theorem Outlet.asks_finish (h : o.Into path) :
    o.finish.Asks (Request.Emits path) fun _ => True := by
  refine (Work.asks_ofJob (confined_close o.buffer o.writer h)).bind fun p hp => ?_
  refine (Work.asks_ofResult _).bind fun _ _ => ?_
  exact Work.asks_ofExcept ((asks_writerFinish hp).mono fun _ _ _ _ => trivial)

/-! ### Exports -/

section Silent

variable {allowed : Request → Prop}

theorem asks_savedVariables {s : Session} (hquery : ∀ sql, allowed (.session s (.query sql)))
    (names : List String) : (savedVariables s names).Asks allowed fun _ => True := by
  induction names with
  | nil => exact Work.asks_pure trivial
  | cons name names ih =>
    rw [savedVariables, savedVariable]
    refine Work.Asks.bind (m := fun _ => True) ?_ fun _ _ => ?_
    · exact (Work.asks_call (hquery _)).bind fun _ _ => Work.asks_pure trivial
    · exact ih.bind fun _ _ => Work.asks_pure trivial

theorem asks_executeAll {s : Session} {statements : List String}
    (hexecute : ∀ sql ∈ statements, allowed (.session s (.execute sql))) :
    (executeAll s statements).Asks allowed fun _ => True := by
  induction statements with
  | nil => exact Work.asks_pure trivial
  | cons sql statements ih =>
    rw [List.forall_mem_cons] at hexecute
    exact (Work.asks_call hexecute.1).bind fun _ _ => ih hexecute.2

theorem asks_attemptAll {s : Session} {statements : List String}
    (hexecute : ∀ sql ∈ statements, allowed (.session s (.execute sql))) :
    (attemptAll s statements).Asks allowed fun _ => True := by
  induction statements with
  | nil => exact trivial
  | cons sql statements ih =>
    rw [List.forall_mem_cons] at hexecute
    exact ⟨hexecute.1, fun _ => ih hexecute.2⟩

theorem asks_ofCodec (hprogram : ∀ call, allowed (.program call)) (path : String) (codec : Codec)
    (encoders : Codec.Encoders) :
    (Codec.Writer.ofCodec path codec encoders).Asks allowed fun writer =>
      writerPath writer = path := by
  rcases codec with (_ | _ | _ | _) | ⟨c, program⟩
  · exact Work.asks_pure rfl
  · exact Work.asks_pure rfl
  · exact Work.asks_fail
  · exact Work.asks_pure rfl
  · exact (Codec.asks_start (fun call _ => hprogram call) c program false).bind fun child _ =>
      Work.asks_pure rfl

end Silent

/-- The way into a file that is there. -/
def chooseOutlet (options : Options) : Work Outlet := do
  let codec ← Codec.choose options.compression options.external
  let writer ← Codec.Writer.ofCodec options.path codec options.encoders
  pure ⟨options.path, .ofSizes options.bufferSize options.flushThreshold, writer⟩

/-- What is known of a dump before its file is opened: the tables, and the statements for session
variables. -/
def prepareDump (s : Session) (options : Options) : Work (List String × List String) := do
  let available ← s.call (.query (Sql.listTables options.database))
  let filter ← Work.ofResult (TableFilter.ofPatterns options.tables options.exclude)
  let tables ← Work.ofResult (filter.select available.firstColumn)
  let saved ← savedVariables s options.saved
  pure (tables, saved)

/-- What is written to the file. -/
def fillDump (s : Session) (options : Options) (tables saved : List String) (out : Outlet) :
    Work Stats := do
  let now ← Work.ofJob (.request .now)
  let out ← out.putAll (Dump.provenance s.product s.version options.database now)
  let out ← out.putAll ((saved ++ Sql.prologue).map .statement)
  let (rows, out) ← exportTables s options tables.length 1 tables out
  let out ← out.putAll Dump.ending
  out.finish
  pure ⟨tables.length, rows, out.buffer.written, 0, options.compression⟩

/-- A dump is prepared, its file is made, and it is written. -/
theorem writeDump_eq (s : Session) (options : Options) : writeDump s options =
    prepareDump s options >>= fun known =>
      Work.onPath options.path (Job.file (.create options.path)) >>= fun _ =>
        chooseOutlet options >>= fillDump s options known.1 known.2 := by
  simp only [writeDump, prepareDump, openOutlet, chooseOutlet, bind_assoc, pure_bind]
  rfl

theorem asks_prepareDump {allowed : Request → Prop} {s : Session}
    (hquery : ∀ sql, allowed (.session s (.query sql))) (options : Options) :
    (prepareDump s options).Asks allowed fun _ => True := by
  rw [prepareDump]
  refine (Work.asks_call (hquery _)).bind fun available _ => ?_
  refine (Work.asks_ofResult _).bind fun filter _ => ?_
  refine (Work.asks_ofResult _).bind fun tables _ => ?_
  exact (asks_savedVariables hquery options.saved).bind fun saved _ => Work.asks_pure trivial

theorem asks_chooseOutlet (options : Options) :
    (chooseOutlet options).Asks (Request.Emits options.path) fun o => o.Into options.path := by
  rw [chooseOutlet]
  refine (Codec.asks_choose (fun call _ => .program call) _ _).bind fun codec _ => ?_
  exact (asks_ofCodec .program options.path codec options.encoders).bind fun writer hpath =>
    Work.asks_pure hpath

theorem asks_exportRows (s : Session) (options : TableOptions) (table : String)
    (order : List String) (offset : Nat) (h : o.Into path) :
    (exportRows s options table order offset o).Asks (Request.Fills s path) fun p =>
      p.2.Into path := by
  induction hleft : offsetLimit - offset using Nat.strong_induction_on generalizing offset o with
  | _ n ih =>
    rw [exportRows]
    refine (Work.asks_call (.query _)).bind fun page _ => ?_
    split
    · exact Work.asks_pure h
    · refine ((Outlet.asks_putAll h _).widen fun _ h => .emits h).bind fun o' h' => ?_
      dsimp only
      split
      · exact Work.asks_pure h'
      · next hlast =>
        simp only [not_or, Nat.not_le] at hlast
        exact ih _ (by omega) _ h' rfl

theorem asks_exportTable (s : Session) (options : TableOptions) (database table : String)
    (h : o.Into path) :
    (exportTable s options database table o).Asks (Request.Fills s path) fun p => p.2.Into path := by
  have hcreation : (creation s table).Asks (Request.Fills s path) fun _ => True := by
    refine (Work.asks_call (.query _)).bind fun result _ => ?_
    split
    · exact Work.asks_pure trivial
    · exact Work.asks_fail
  rw [exportTable]
  refine ((Outlet.asks_putAll h _).widen fun _ h => .emits h).bind fun o₁ h₁ => ?_
  refine hcreation.bind fun sql _ => ?_
  refine ((Outlet.asks_put h₁ _).widen fun _ h => .emits h).bind fun o₂ h₂ => ?_
  split
  · exact Work.asks_pure h₂
  · refine ((Outlet.asks_putAll h₂ _).widen fun _ h => .emits h).bind fun o₃ h₃ => ?_
    exact (Work.asks_call (.query _)).bind fun order _ => asks_exportRows s options table _ 0 h₃

theorem asks_exportTables (s : Session) (options : Options) (total index : Nat)
    (tables : List String) (h : o.Into path) :
    (exportTables s options total index tables o).Asks (Request.Fills s path) fun p =>
      p.2.Into path := by
  induction tables generalizing index o with
  | nil => exact Work.asks_pure h
  | cons table tables ih =>
    rw [exportTables]
    refine (asks_exportTable s options.table options.database table h).bind fun p hp => ?_
    refine (Work.asks_request (r := .tell _) (.tell _)).bind fun _ _ => ?_
    exact (ih (index + 1) hp).bind fun p' hp' => Work.asks_pure hp'

theorem asks_fillDump (s : Session) (options : Options) (tables saved : List String)
    (h : o.Into path) : (fillDump s options tables saved o).Asks (Request.Fills s path) fun _ =>
      True := by
  rw [fillDump]
  refine (Work.asks_request (r := .now) .now).bind fun now _ => ?_
  refine ((Outlet.asks_putAll h _).widen fun _ h => .emits h).bind fun o₁ h₁ => ?_
  refine ((Outlet.asks_putAll h₁ _).widen fun _ h => .emits h).bind fun o₂ h₂ => ?_
  refine (asks_exportTables s options tables.length 1 tables h₂).bind fun p hp => ?_
  refine ((Outlet.asks_putAll hp _).widen fun _ h => .emits h).bind fun o₃ h₃ => ?_
  exact ((Outlet.asks_finish h₃).widen fun _ h => .emits h).bind fun _ _ => Work.asks_pure trivial

/-- Once its file is there, a dump is only added to it. -/
theorem asks_behindCreation (s : Session) (options : Options) (tables saved : List String) :
    (chooseOutlet options >>= fillDump s options tables saved).Asks
      (Request.Fills s options.path) fun _ => True :=
  ((asks_chooseOutlet options).widen fun _ h => .emits h).bind fun _ ho =>
    asks_fillDump s options tables saved ho

theorem asks_writeDump {allowed : Request → Prop} {s : Session} {options : Options}
    (hcreate : allowed (.file (.create options.path)))
    (hfills : ∀ request : Request, request.Fills s options.path → allowed request) :
    (writeDump s options).Asks allowed fun _ => True := by
  rw [writeDump_eq]
  refine (asks_prepareDump (fun sql => hfills _ (.query sql)) options).bind fun known _ => ?_
  refine (Work.asks_onPath (Job.asks_request hcreate fun _ => trivial)).bind fun _ _ => ?_
  exact (asks_behindCreation s options known.1 known.2).widen hfills

theorem asks_writeConsistently (s : Session) (options : Options) :
    (writeConsistently s options).Asks (Request.IsOn options.path) fun _ => True := by
  have hdump : (writeDump s options).Asks (Request.IsOn options.path) fun _ => True :=
    asks_writeDump .create fun _ h => h.addsTo.isOn
  rw [writeConsistently]
  refine (Work.asks_call trivial).bind fun _ _ => ?_
  split
  · refine (asks_executeAll fun _ _ => trivial).bind fun _ _ => ?_
    refine (Work.asks_outcome hdump).bind fun result _ => ?_
    exact (Work.asks_ofJob (asks_attemptAll fun _ _ => trivial)).bind fun _ _ =>
      Work.asks_ofResult result
  · exact hdump

theorem asks_discard (path : String) :
    (discard path).Asks (Request.IsOn path) fun _ => True := by
  refine ⟨.kind, fun kind => ?_⟩
  cases kind with
  | none => trivial
  | some kind => exact ⟨.remove, fun _ => trivial⟩

/-- Of all files an export asks for that of its dump only. -/
theorem asks_database (s : Session) (options : Options) :
    (database s options).Asks (Request.IsOn options.path) fun _ => True := by
  rw [database]
  refine (Work.asks_outcome (asks_writeConsistently s options)).bind fun result _ => ?_
  cases result with
  | ok stats =>
    refine (Work.asks_onPath (Job.asks_request .size fun _ => trivial)).bind fun _ _ => ?_
    exact Work.asks_pure trivial
  | error fault =>
    exact (Work.asks_ofJob (asks_discard options.path)).bind fun _ _ => Work.asks_fail

end Export

end SqlBackup
