import Mathlib
import SqlBackup.Proofs.Dump.Requests
import SqlBackup.Proofs.Job.Telling
import SqlBackup.Proofs.Load.Statements

/-!
# What a load asks

A load asks for its dump and for programs, reads and sets the checks of its session, and says the
rest in transactions. The only database that it names to the server by itself is its own.
-/
namespace SqlBackup.Load

variable {allowed : Request → Prop} {session : Session}

/-! ### The checks -/

theorem asks_readChecks (hquery : ∀ sql, allowed (.session session (.query sql)))
    (names : List String) : (readChecks session names).Asks allowed fun _ => True := by
  induction names with
  | nil => exact Work.asks_pure trivial
  | cons name names ih =>
    refine (Work.asks_call (hquery _)).bind fun result _ => ?_
    exact ih.bind fun saved _ => Work.asks_pure trivial

section Setting

variable (hset : ∀ name literal,
  allowed (.session session (.execute (Sql.setVariable name literal))))
include hset

theorem asks_switchOff (names : List String) :
    (switchOff session names).Asks allowed fun _ => True := by
  induction names with
  | nil => exact Work.asks_pure trivial
  | cons name names ih => exact (Work.asks_call (hset name "0")).bind fun _ _ => ih

theorem asks_putBack (saved : List (String × String)) :
    (putBack session saved).Asks allowed fun _ => True := by
  induction saved with
  | nil => exact trivial
  | cons p saved ih =>
    refine ⟨hset p.1 p.2, fun answer => ?_⟩
    show Job.Asks allowed ((putBack session saved).bind _) _
    refine Job.asks_bind.mpr (ih.mono fun later _ => ?_)
    cases answer with
    | ok _ => exact trivial
    | error cause => exact trivial

theorem asks_withoutChecks {α : Type} {body : Work α}
    (hquery : ∀ sql, allowed (.session session (.query sql)))
    (hbody : body.Asks allowed fun _ => True) :
    (withoutChecks session body).Asks allowed fun _ => True := by
  rw [withoutChecks]
  refine (asks_readChecks hquery _).bind fun saved _ => ?_
  refine (Work.asks_outcome ((asks_switchOff hset _).bind fun _ _ => hbody)).bind
    fun outcome _ => ?_
  refine (Work.asks_ofJob (asks_putBack hset saved)).bind fun refusal _ => ?_
  split
  · exact Work.asks_pure trivial
  · exact Work.asks_fail
  · exact Work.asks_fail

end Setting

/-! ### The dump -/

/-- The length of a dump is known unless it is compressed. -/
theorem asks_openSource (options : Options) (format : Dump.Format)
    (hfile : ∀ call : Files.Call, call.Views options.path → allowed (.file call))
    (hprogram : ∀ call, Codec.Runs call → allowed (.program call)) :
    (openSource options format).Asks allowed fun opened =>
      opened.1.isSome = !format.compression.isCompressed := by
  have hread : (Work.onPath options.path (.file (.read options.path))).Asks allowed
      fun _ => True := Work.asks_onPath (Job.asks_request (hfile _ .read) fun _ => trivial)
  have hsize : (some <$> Work.onPath options.path (.file (.size options.path))).Asks allowed
      fun totalBytes => totalBytes.isSome = true := by
    refine (Work.asks_onPath (Job.asks_request (hfile _ .size) fun _ => trivial)).bind
      fun _ _ => ?_
    exact Work.asks_pure rfl
  have hopened (content : Files.Content) (totalBytes : Option Nat) : (do
      let codec ← Codec.choose format.compression options.external
      let demand := Codec.Demand.buffered (Sizing.bufferSize totalBytes)
      let source ← codec.read demand (content.behind options.resumeOffset)
      pure (totalBytes, source) : Work (Option Nat × Source)).Asks allowed
        fun opened => opened.1 = totalBytes := by
    refine (Codec.asks_choose hprogram _ _).bind fun codec hcodec => ?_
    exact (Codec.asks_read hprogram hcodec _ _).bind fun source _ => Work.asks_pure rfl
  refine hread.bind fun content _ => ?_
  dsimp only
  split
  · next hcompressed =>
    refine (hopened content none).mono ?_
    rintro result hresult opened rfl
    rw [hresult opened rfl, hcompressed]
    rfl
  · next hplain =>
    refine hsize.bind fun totalBytes hsome => (hopened content totalBytes).mono ?_
    rintro result hresult opened rfl
    rw [hresult opened rfl, hsome, Bool.eq_false_iff.mpr hplain]
    rfl

theorem asks_restore (hprogram : ∀ call, allowed (.program call)) (path database : String) :
    (Restorer.installed.restore path database).Asks allowed fun _ => True := by
  rw [Restorer.restore]
  refine (Work.asks_request (hprogram _)).bind fun found _ => ?_
  cases found with
  | none => exact Work.asks_fail
  | some program =>
    show (Restorer.run program Restorer.defaultArguments path database).Asks allowed fun _ => True
    rw [Restorer.run]
    refine Work.Asks.bind (m := fun _ => True)
      (Work.asks_ofExcept (Job.asks_request (hprogram _) fun _ _ _ => trivial)) fun child _ => ?_
    refine (Work.asks_request (hprogram _)).bind fun ended _ => ?_
    split
    · exact Work.asks_pure trivial
    · exact Work.asks_fail

/-! ### The statements -/

section Statements

variable (hinside : ∀ request : Request, request.transacts = true → allowed request)
include hinside

theorem asks_executeAll (session : Session) (statements : List Statement) :
    (executeAll session statements).Asks allowed fun _ => True := by
  induction statements with
  | nil => exact trivial
  | cons statement statements ih =>
    refine ⟨hinside _ rfl, fun answer => ?_⟩
    cases answer with
    | ok _ => exact ih
    | error cause => exact trivial

theorem asks_transact (session : Session) (database : String) (group : List Statement) :
    (transact session database group).Asks allowed fun _ => True := by
  rw [transact]
  refine (Work.asks_call (hinside _ rfl)).bind fun _ _ => ?_
  refine (Work.asks_ofJob (asks_executeAll hinside session group)).bind fun failed _ => ?_
  cases failed with
  | some failed =>
    exact (Work.asks_request (hinside _ rfl)).bind fun _ _ => Work.asks_pure trivial
  | none =>
    refine (Work.asks_request (hinside _ rfl)).bind fun answer _ => ?_
    cases answer with
    | ok _ => exact Work.asks_pure trivial
    | error cause => exact Work.asks_pure trivial

/-- What was executed before a group still counts behind it. -/
theorem asks_flush (settings : BatchSettings) (b : Batches) :
    (b.flush settings).Asks allowed fun r => b.executed ≤ r.2.executed := by
  rw [Batches.flush]
  split
  · exact le_rfl
  · refine Job.asks_bind.mpr ((asks_transact hinside _ _ _).mono fun result _ => ?_)
    split
    · exact le_rfl
    · exact Nat.le_add_right _ _
    · split <;> exact le_rfl

theorem asks_push (settings : BatchSettings) (b : Batches) (statement : Statement) :
    (b.push settings statement).Asks allowed fun r => b.executed ≤ r.2.executed := by
  rw [Batches.push]
  dsimp only
  split
  · exact le_rfl
  · exact asks_flush hinside settings _

variable (htell : ∀ event : Progress.Event, event.isLoading = true → allowed (.tell event))
include htell

omit hinside in
theorem Course.asks_report (c : Course) (bytesRead executed : Nat) :
    (c.report bytesRead executed).Asks allowed fun _ => True := Work.asks_request (htell _ rfl)

theorem Course.asks_take (c : Course) (position : Nat) (p : Progress) (statement : Statement) :
    (c.take position p statement).Asks allowed fun _ => True := by
  rw [Course.take]
  dsimp only
  split
  · exact Work.asks_pure trivial
  · refine (Work.asks_ofJob (asks_push hinside _ _ _)).bind fun answer _ => ?_
    refine (Work.asks_ofResult _).bind fun _ _ => ?_
    split
    · exact (c.asks_report htell _ _).bind fun _ _ => Work.asks_pure trivial
    · exact Work.asks_pure trivial

theorem Course.asks_loadAll (c : Course) (sc : Scanner) (p : Progress) :
    (c.loadAll sc p).Asks allowed fun _ => True := by
  fun_induction Course.loadAll c sc p with
  | case1 => exact Work.asks_fail
  | case2 => exact Work.asks_pure trivial
  | case3 sc p sc' statement called ih =>
    exact (c.asks_take hinside htell _ _ _).bind fun p' _ => ih p'

theorem asks_loadSource (session : Session) (options : Options) (format : Dump.Format)
    (opened : Option Nat × Source) :
    (loadSource session options format opened).Asks allowed fun _ => True := by
  rw [loadSource]
  refine (Course.asks_loadAll hinside htell _ _ _).bind fun r _ => ?_
  refine (Work.asks_ofJob (asks_flush hinside _ _)).bind fun answer _ => ?_
  refine (Work.asks_ofResult _).bind fun _ _ => ?_
  exact (Course.asks_report htell _ _ _).bind fun _ _ => Work.asks_pure trivial

end Statements

/-! ### The database -/

theorem quoteName_injective : Function.Injective Sql.quoteName := by
  intro a b h
  have hlist := congrArg String.toList h
  simp only [Sql.quoteName, String.toList_ofList, List.cons_append, List.cons.injEq, true_and,
    List.append_cancel_right_eq] at hlist
  exact String.toList_inj.mp (Sql.flatMap_nameChar_inj hlist)

theorem createDatabase_ne_dropDatabase (database other : String) :
    Sql.createDatabase database ≠ Sql.dropDatabase other := by
  intro h
  unfold Sql.createDatabase Sql.dropDatabase at h
  have hletter := congrArg (fun t => t.toList.head?) h
  simp at hletter

theorem dropDatabase_ne_setVariable (database name literal : String) :
    Sql.dropDatabase database ≠ Sql.setVariable name literal := by
  intro h
  unfold Sql.dropDatabase Sql.setVariable at h
  have hletter := congrArg (fun t => t.toList.head?) h
  simp at hletter

/-- The requests that name a database to the server, but for the statements of a dump. -/
inductive Addresses (database : String) : Request → Prop
  | use (session : Session) : Addresses database (.session session (.useDatabase database))
  | create (session : Session) :
      Addresses database (.session session (.execute (Sql.createDatabase database)))
  | drop (session : Session) :
      Addresses database (.session session (.execute (Sql.dropDatabase database)))

/-- A request names this database or none. -/
def Minds (database : String) (request : Request) : Prop :=
  ∀ other, Addresses other request → other = database

variable {database sql : String}

theorem sql_of_addresses (h : Addresses database (.session session (.execute sql))) :
    sql = Sql.createDatabase database ∨ sql = Sql.dropDatabase database := by
  generalize hrequest : Request.session session (.execute sql) = request at h
  cases h with
  | use => cases hrequest
  | create => exact .inl (Session.Call.execute.inj (Request.session.inj hrequest).2)
  | drop => exact .inr (Session.Call.execute.inj (Request.session.inj hrequest).2)

theorem minds_use : Minds database (.session session (.useDatabase database)) := by
  rintro other ⟨⟩
  rfl

theorem minds_create :
    Minds database (.session session (.execute (Sql.createDatabase database))) := by
  intro other h
  rcases sql_of_addresses h with hsame | hdrop
  · exact (quoteName_injective ((String.append_right_inj _).mp hsame)).symm
  · exact absurd hdrop (createDatabase_ne_dropDatabase _ _)

theorem minds_drop :
    Minds database (.session session (.execute (Sql.dropDatabase database))) := by
  intro other h
  rcases sql_of_addresses h with hcreate | hsame
  · exact absurd hcreate.symm (createDatabase_ne_dropDatabase _ _)
  · exact (quoteName_injective ((String.append_right_inj _).mp hsame)).symm

theorem minds_set (name literal : String) :
    Minds database (.session session (.execute (Sql.setVariable name literal))) := by
  intro other h
  rcases sql_of_addresses h with hcreate | hdrop
  · exact absurd hcreate.symm (createDatabase_ne _ _ _)
  · exact absurd hdrop.symm (dropDatabase_ne_setVariable _ _ _)

theorem minds_of_silent {request : Request} (h : ∀ session call, request ≠ .session session call) :
    Minds database request := by
  rintro other (_ | _ | _)
  all_goals exact absurd rfl (h _ _)

theorem minds_query : Minds database (.session session (.query sql)) := by
  rintro other ⟨⟩

theorem minds_of_transacts {request : Request} (h : request.transacts = true) :
    Minds database request := by
  rintro other (_ | _ | _)
  all_goals cases h

/-! ### The whole load -/

/-- What a load asks that runs the installed program for an archive. -/
inductive Loads (session : Session) (options : Options) : Request → Prop
  | views {call : Files.Call} (h : call.Views options.path) : Loads session options (.file call)
  | codec {call : Programs.Call} (h : Codec.Runs call) : Loads session options (.program call)
  | archive (h : options.compression = none) (call : Programs.Call) :
      Loads session options (.program call)
  | tell {event : Progress.Event} (h : event.isLoading = true) :
      Loads session options (.tell event)
  | create :
      Loads session options (.session session (.execute (Sql.createDatabase options.database)))
  | use : Loads session options (.session session (.useDatabase options.database))
  | query (sql : String) : Loads session options (.session session (.query sql))
  | set (name literal : String) :
      Loads session options (.session session (.execute (Sql.setVariable name literal)))
  | transacts {request : Request} (h : request.transacts = true) : Loads session options request

theorem asks_dump (session : Session) (options : Options)
    (hrestorer : options.restorer = .installed) :
    (dump session options).Asks (Loads session options) fun _ => True := by
  rw [dump_eq, hrestorer]
  refine (Dump.asks_detect (.views .read) _).bind fun format hformat => ?_
  split
  · next harchive =>
    have hnone : options.compression = none := hformat.resolve_right fun hplain => by
      rw [hplain] at harchive
      cases harchive
    have hrestore : (do
        Restorer.installed.restore options.path options.database
        pure { format } : Work Stats).Asks (Loads session options) fun _ => True :=
      (asks_restore (.archive hnone) _ _).bind fun _ _ => Work.asks_pure trivial
    dsimp only
    split
    · exact (Work.asks_call .create).bind fun _ _ => hrestore
    · exact hrestore
  · refine (asks_openDatabase session options format .create .use).bind fun _ _ => ?_
    refine asks_withoutChecks .set .query ?_
    rw [loadStatements_eq]
    refine (asks_openSource options format (fun _ => .views) fun _ => .codec).bind
      fun opened _ => ?_
    exact asks_loadSource (fun _ => .transacts) (fun _ => .tell) _ _ _ _

variable {options : Options} {request : Request}

/-- A load names no other database than its own. -/
theorem Loads.minds (h : Loads session options request) : Minds options.database request := by
  cases h with
  | views | codec | archive | tell => exact minds_of_silent (by simp)
  | create => exact minds_create
  | use => exact minds_use
  | query => exact minds_query
  | set => exact minds_set _ _
  | transacts h => exact minds_of_transacts h

end SqlBackup.Load
