import Mathlib
import SqlBackup.Load.Dump
import SqlBackup.Proofs.Dump.Requests
import SqlBackup.Proofs.Job.Dialogue

/-!
# Settings that come back

A load switches the constraint checks of its session off, and the dump that it executes may assign
to them as well. Whatever the server refuses and wherever the load ends, each of them has its value
from before again, unless the server refused just that.
-/
namespace SqlBackup.Load

variable {σ α : Type} {host : Host σ}

/-- What a session variable is set to. -/
inductive Setting where
  | number (i : Int)
  | text (s : String)

namespace Setting

/-- What stands for a setting in a statement. -/
def literal : Setting → String
  | number i => (Value.int i).literal
  | text s => (Value.text s).literal

/-- The values that a query can return for a setting. -/
inductive Shows : Setting → Value → Prop
  | int (i : Int) : Shows (number i) (.int i)
  | uint (n : Nat) : Shows (number n) (.uint n)
  | text (s : String) : Shows (text s) (.text s)

theorem Shows.literal_eq {x : Setting} {value : Value} (h : x.Shows value) :
    value.literal = x.literal := by
  cases h <;> rfl

end Setting

/-- The constraint checks are set alike in two states. -/
def SameChecks (settings : σ → String → Setting) (s s' : σ) : Prop :=
  ∀ name ∈ Sql.constraintVariables, settings s' name = settings s name

theorem SameChecks.refl (settings : σ → String → Setting) (s : σ) : SameChecks settings s s :=
  fun _ _ => rfl

theorem SameChecks.trans {settings : σ → String → Setting} {s t u : σ}
    (h : SameChecks settings s t) (h' : SameChecks settings t u) : SameChecks settings s u :=
  fun name hname => (h' name hname).trans (h name hname)

/-- The literals that variables are saved as. -/
def savedAs (setting : String → Setting) (names : List String) : List (String × String) :=
  names.map fun name => (name, (setting name).literal)

theorem SameChecks.savedAs {settings : σ → String → Setting} {s s' : σ}
    (h : SameChecks settings s s') {names : List String}
    (hnames : names ⊆ Sql.constraintVariables) :
    Load.savedAs (settings s') names = Load.savedAs (settings s) names :=
  List.map_congr_left fun name hname => by rw [h name (hnames hname)]

/-- The server keeps the constraint checks of a session: it returns what they are set to, sets them
to what it is told, and has no other reason to change them than a statement of the session. What
statements inside a transaction do to them is left open, and so is which calls fail. -/
structure KeepsChecks (host : Host σ) (session : Session) (settings : σ → String → Setting) :
    Prop where
  elsewhere : ∀ request s, (∀ call, request ≠ .session session call) →
    SameChecks settings s (host.answer request s).2
  useDatabase : ∀ database s,
    SameChecks settings s (host.answer (.session session (.useDatabase database)) s).2
  createDatabase : ∀ database s,
    SameChecks settings s
      (host.answer (.session session (.execute (Sql.createDatabase database))) s).2
  query : ∀ name ∈ Sql.constraintVariables, ∀ s,
    SameChecks settings s (host.answer (.session session (.query (Sql.readVariable name))) s).2
  read : ∀ name ∈ Sql.constraintVariables, ∀ s result,
    (host.answer (.session session (.query (Sql.readVariable name))) s).1.reply =
      .ok (.ok result) → ∃ value, result.cell? 0 0 = some value ∧ (settings s name).Shows value
  set : ∀ name ∈ Sql.constraintVariables, ∀ (x : Setting) s,
    (host.answer (.session session (.execute (Sql.setVariable name x.literal))) s).1.reply =
      .ok (.ok ()) →
    settings (host.answer (.session session (.execute (Sql.setVariable name x.literal))) s).2
      name = x
  others : ∀ name ∈ Sql.constraintVariables, ∀ (x : Setting) s,
    ∀ other ∈ Sql.constraintVariables, other ≠ name →
    settings (host.answer (.session session (.execute (Sql.setVariable name x.literal))) s).2
      other = settings s other

theorem readVariable_injective : Function.Injective Sql.readVariable :=
  fun _ _ h => (String.append_right_inj _).mp h

/-- Some constraint check was not read: it was not asked for, or not answered. -/
def Unread (session : Session) (names : List String) (talk : List Exchange) : Prop :=
  ∃ name ∈ names, ∀ result,
    (⟨.session session (.query (Sql.readVariable name)), .ok result⟩ : Exchange) ∉ talk

/-- The server is told, or refuses, to give a session variable its value back. -/
abbrev Attempt := String × Except SessionFault Unit

namespace Attempt

def refusal? : Attempt → Option SessionFault
  | (_, .ok _) => none
  | (_, .error cause) => some cause

/-- What is said to put a session variable back. -/
def exchange (session : Session) (saved : String → Setting) (attempt : Attempt) : Exchange :=
  ⟨.session session (.execute (Sql.setVariable attempt.1 (saved attempt.1).literal)), attempt.2⟩

end Attempt

/-- How a piece of work ends whose own outcome goes before a refusal. -/
def settle (outcome : Except Fault α) (refusal : Option SessionFault) : Except Fault α :=
  match outcome, refusal with
  | .ok value, none => .ok value
  | .ok _, some cause => .error (.session cause)
  | .error fault, _ => .error fault

section Parts

variable {session : Session} {settings : σ → String → Setting} {s s' : σ} {talk : List Exchange}

/-- Either all values are saved, or one of them was not read. Nothing is changed. -/
theorem dialogue_readChecks (hkeeps : KeepsChecks host session settings) {names : List String}
    {result : Except Fault (List (String × String))} (hnames : names ⊆ Sql.constraintVariables)
    (hnodup : names.Nodup)
    (h : (readChecks session names).run.Dialogue host s talk result s') :
    SameChecks settings s s' ∧
      (((∃ fault, result = .error fault) ∧ Unread session names talk) ∨
        result = .ok (savedAs (settings s) names)) := by
  induction names generalizing s talk result with
  | nil =>
    obtain ⟨-, rfl, rfl⟩ := h
    exact ⟨.refl settings _, .inr rfl⟩
  | cons name names ih =>
    obtain ⟨hname, hnames⟩ := List.cons_subset.mp hnames
    obtain ⟨hfresh, hnodup⟩ := List.nodup_cons.mp hnodup
    rw [readChecks, Work.dialogue_bind] at h
    rcases h with ⟨fault, rfl, hread⟩ | ⟨first, reply, t, second, rfl, hread, hrest⟩
    · obtain ⟨answer, hanswer, -, rfl, rfl⟩ := Session.dialogue_call.mp hread
      refine ⟨hkeeps.query name hname s, .inl ⟨⟨fault, rfl⟩, name, List.mem_cons_self, ?_⟩⟩
      rintro result hmem
      cases List.mem_singleton.mp hmem
      cases hanswer
    obtain ⟨answer, hanswer, hreply, rfl, rfl⟩ := Session.dialogue_call.mp hread
    cases answer with
    | error cause => cases hanswer
    | ok result =>
    cases hanswer
    have hsame := hkeeps.query name hname s
    obtain ⟨value, hcell, hshows⟩ := hkeeps.read name hname s reply hreply
    rw [Work.dialogue_bind] at hrest
    rcases hrest with ⟨fault, rfl, hrest⟩ | ⟨later, saved, u, nothing, rfl, hrest, -, rfl, rfl⟩
    · obtain ⟨hlater, ⟨-, other, hother, hnever⟩ | hall⟩ := ih hnames hnodup hrest
      · refine ⟨hsame.trans hlater, .inl ⟨⟨fault, rfl⟩, other, List.mem_cons_of_mem _ hother, ?_⟩⟩
        intro result hmem
        rcases List.mem_cons.mp hmem with heq | hmem
        · have hquery := congrArg Exchange.request heq
          simp only [Request.session.injEq, Session.Call.query.injEq, true_and] at hquery
          exact hfresh (readVariable_injective hquery ▸ hother)
        · exact hnever result hmem
      · cases hall
    · obtain ⟨hlater, ⟨⟨fault, hfault⟩, -⟩ | hall⟩ := ih hnames hnodup hrest
      · cases hfault
      · cases hall
        refine ⟨hsame.trans hlater, .inr ?_⟩
        rw [hcell, Option.elim_some, hshows.literal_eq]
        exact congrArg (fun later => Except.ok ((name, (settings s name).literal) :: later))
          (hsame.savedAs hnames)

/-- Every variable is told its value, whatever the server made of those before it. One that was not
refused has it. -/
theorem dialogue_putBack (hkeeps : KeepsChecks host session settings) (saved : String → Setting)
    {names : List String} {answer : Option SessionFault} (hnames : names ⊆ Sql.constraintVariables)
    (hnodup : names.Nodup)
    (h : (putBack session (savedAs saved names)).Dialogue host s talk answer s') :
    (∀ other ∈ Sql.constraintVariables, other ∉ names → settings s' other = settings s other) ∧
      ∃ attempts : List Attempt, attempts.map Prod.fst = names ∧
        talk = attempts.map (Attempt.exchange session saved) ∧
        answer = attempts.findSome? Attempt.refusal? ∧
        ∀ name, (name, .ok ()) ∈ attempts → settings s' name = saved name := by
  induction names generalizing s s' talk answer with
  | nil =>
    obtain ⟨rfl, rfl, rfl⟩ := h
    exact ⟨fun _ _ _ => rfl, [], rfl, rfl, rfl, by simp⟩
  | cons name names ih =>
    obtain ⟨hname, hnames⟩ := List.cons_subset.mp hnames
    obtain ⟨hfresh, hnodup⟩ := List.nodup_cons.mp hnodup
    rw [savedAs, List.map_cons, putBack] at h
    obtain ⟨first, reply, t, second, rfl, hfirst, hrest⟩ := Job.dialogue_bind.mp h
    obtain ⟨hreply, rfl, rfl⟩ := Job.dialogue_request.mp hfirst
    obtain ⟨later, refusal, u, nothing, rfl, hlater, hend⟩ := Job.dialogue_bind.mp hrest
    obtain ⟨hothers, attempts, rfl, rfl, rfl, hback⟩ := ih hnames hnodup hlater
    have hapart : ∀ other ∈ Sql.constraintVariables, other ∉ name :: attempts.map Prod.fst →
        settings u other = settings s other := by
      intro other hother hnot
      rw [List.mem_cons, not_or] at hnot
      rw [hothers other hother hnot.2, hkeeps.others name hname (saved name) s other hother hnot.1]
    cases reply with
    | error cause =>
      obtain ⟨rfl, rfl, rfl⟩ := hend
      refine ⟨hapart, (name, .error cause) :: attempts, rfl, by simp [Attempt.exchange], rfl, ?_⟩
      intro other hmem
      rcases List.mem_cons.mp hmem with heq | hmem
      · cases heq
      · exact hback other hmem
    | ok _ =>
      obtain ⟨rfl, rfl, rfl⟩ := hend
      refine ⟨hapart, (name, .ok ()) :: attempts, rfl, by simp [Attempt.exchange], rfl, ?_⟩
      intro other hmem
      rcases List.mem_cons.mp hmem with heq | hmem
      · cases heq
        rw [hothers name hname hfresh, hkeeps.set name hname (saved name) s hreply]
      · exact hback other hmem

end Parts

section Whole

variable (host : Host σ) (session : Session) (settings : σ → String → Setting)

/-- What is known of a piece of work that ended before all settings were saved: it failed, and none
is changed. -/
structure Unsaved (s : σ) (talk : List Exchange) (result : Except Fault α) (s' : σ) : Prop where
  failed : ∃ fault, result = .error fault
  unread : Unread session Sql.constraintVariables talk
  same : SameChecks settings s s'

/-- What is known of a piece of work behind which the settings of a state were put back. -/
structure PutBack (body : Work α) (s : σ) (talk : List Exchange) (result : Except Fault α) (s' : σ)
    (saving inside : List Exchange) (outcome : Except Fault α) (attempts : List Attempt) :
    Prop where
  talk_eq : talk = saving ++ inside ++ attempts.map (Attempt.exchange session (settings s))
  /-- In between the checks are switched off, and if that succeeds, the work is done. -/
  inside : ∃ t t', (do switchOff session Sql.constraintVariables; body).run.Dialogue host t inside
    outcome t'
  /-- Each variable is told its value. -/
  names : attempts.map Prod.fst = Sql.constraintVariables
  /-- What was not refused is as it was. -/
  restored : ∀ name, (name, .ok ()) ∈ attempts → settings s' name = settings s name
  /-- The fault of the work goes before the first refusal. -/
  result_eq : result = settle outcome (attempts.findSome? Attempt.refusal?)

variable {host session settings} {s s' : σ} {talk : List Exchange}

/-- What is said without checks: they are read, the work is done with the checks off, and then they
are put back. If they cannot be read, nothing else is done. -/
theorem dialogue_withoutChecks_parts {body : Work α} {result : Except Fault α}
    (h : (withoutChecks session body).run.Dialogue host s talk result s') :
    (∃ fault, result = .error fault ∧
      (readChecks session Sql.constraintVariables).run.Dialogue host s talk (.error fault) s') ∨
    ∃ saving, ∃ saved : List (String × String), ∃ t inside outcome t' back refusal,
      talk = saving ++ inside ++ back ∧
      (readChecks session Sql.constraintVariables).run.Dialogue host s saving (.ok saved) t ∧
      (do switchOff session (saved.map Prod.fst); body).run.Dialogue host t inside outcome t' ∧
      (putBack session saved).Dialogue host t' back refusal s' ∧
      result = settle outcome refusal := by
  rw [withoutChecks] at h
  rcases Work.dialogue_bind.mp h with ⟨fault, rfl, hread⟩ | ⟨saving, saved, t, rest, rfl, hread, h⟩
  · exact .inl ⟨fault, rfl, hread⟩
  obtain ⟨inside, outcome, t', rest, rfl, hinside, h⟩ := Work.dialogue_ofJob_bind.mp h
  obtain ⟨back, refusal, u, nothing, rfl, hback, hend⟩ := Work.dialogue_ofJob_bind.mp h
  have hsettle : nothing = [] ∧ result = settle outcome refusal ∧ s' = u := by
    revert hend
    cases outcome <;> cases refusal <;> exact id
  obtain ⟨rfl, hresult, rfl⟩ := hsettle
  exact .inr ⟨saving, saved, t, inside, outcome, t', back, refusal, by simp, hread, hinside, hback,
    hresult⟩

theorem dialogue_withoutChecks (hkeeps : KeepsChecks host session settings) {body : Work α}
    {result : Except Fault α}
    (h : (withoutChecks session body).run.Dialogue host s talk result s') :
    Unsaved session settings s talk result s' ∨
      ∃ saving inside outcome attempts,
        PutBack host session settings body s talk result s' saving inside outcome attempts := by
  rcases dialogue_withoutChecks_parts h with ⟨fault, rfl, hread⟩ |
    ⟨saving, saved, t, inside, outcome, t', back, refusal, rfl, hread, hinside, hback, hresult⟩
  · obtain ⟨hsame, ⟨hfault, hunread⟩ | hall⟩ :=
      dialogue_readChecks hkeeps (List.Subset.refl _) (by decide) hread
    · exact .inl ⟨⟨fault, rfl⟩, hunread, hsame⟩
    · cases hall
  · obtain ⟨hsame, ⟨⟨fault, hfault⟩, -⟩ | hall⟩ :=
      dialogue_readChecks hkeeps (List.Subset.refl _) (by decide) hread
    · cases hfault
    · cases hall
      obtain ⟨-, attempts, hattempts, rfl, rfl, hrestored⟩ :=
        dialogue_putBack hkeeps (settings s) (List.Subset.refl _) (by decide) hback
      exact .inr ⟨saving, inside, outcome, attempts, rfl, ⟨t, t', hinside⟩, hattempts,
        hrestored, hresult⟩

/-! ### The load as a whole -/

/-- What a load asks for before it reads the checks: files, and that its database be there and be
the current one. -/
def IsOpening (session : Session) (database : String) (request : Request) : Prop :=
  (∃ call, request = .file call) ∨
    request = .session session (.execute (Sql.createDatabase database)) ∨
    request = .session session (.useDatabase database)

theorem asks_detect (session : Session) (database path : String) (explicit : Option Compression) :
    (Dump.detect path explicit).Asks (IsOpening session database) fun _ => True :=
  (Dump.asks_detect (.inl ⟨_, rfl⟩) explicit).mono fun _ _ _ _ => trivial

/-- A dump whose compression is named is taken for a plain one. -/
theorem kind_of_detect {σ : Type} {host : Host σ} {path : String} {named : Compression}
    {format : Dump.Format} {s t : σ} {talk : List Exchange}
    (h : (Dump.detect path (some named)).run.Dialogue host s talk (.ok format) t) :
    format.kind = .plain := by
  obtain ⟨-, hformat, -⟩ := h
  cases hformat
  rfl

/-- What stands between telling the format of a plain dump and reading the checks. -/
def openDatabase (session : Session) (options : Options) (format : Dump.Format) : Work Unit := do
  if options.createDatabase then session.call (.execute (Sql.createDatabase options.database))
  if options.resumeOffset > 0 && format.compression.isCompressed then
    .fail (.resumeUnsupported options.path)
  else session.call (.useDatabase options.database)

theorem asks_openDatabase {allowed : Request → Prop} (session : Session) (options : Options)
    (format : Dump.Format)
    (hcreate : allowed (.session session (.execute (Sql.createDatabase options.database))))
    (huse : allowed (.session session (.useDatabase options.database))) :
    (openDatabase session options format).Asks allowed fun _ => True := by
  have hused : (if options.resumeOffset > 0 && format.compression.isCompressed then
      .fail (.resumeUnsupported options.path)
      else session.call (.useDatabase options.database)).Asks allowed fun _ => True := by
    split
    · exact Work.asks_fail
    · exact Work.asks_call huse
  rw [openDatabase]
  split
  · exact (Work.asks_call hcreate).bind fun _ _ => hused
  · exact hused

theorem dump_eq (session : Session) (options : Options) :
    dump session options = (do
      let format ← Dump.detect options.path options.compression
      match format.kind with
      | .archive => do
          if options.createDatabase then
            session.call (.execute (Sql.createDatabase options.database))
          options.restorer.restore options.path options.database
          pure { format }
      | .plain => do
          openDatabase session options format
          withoutChecks session (loadStatements session options format)) := by
  rw [dump]
  congr 1
  funext format
  cases format.kind with
  | archive => rfl
  | plain =>
    simp only [openDatabase]
    split
    · rw [bind_assoc]
      congr 1
      funext _
      split <;> rfl
    · split <;> rfl

/-- Requests of an opening leave the checks as they are. -/
theorem KeepsChecks.opening (hkeeps : KeepsChecks host session settings) {database : String}
    {request : Request} {t : σ} (hrequest : IsOpening session database request)
    (hsame : SameChecks settings s t) : SameChecks settings s (host.answer request t).2 := by
  refine hsame.trans ?_
  rcases hrequest with ⟨call, rfl⟩ | rfl | rfl
  · exact hkeeps.elsewhere _ t fun call h => by cases h
  · exact hkeeps.createDatabase database t
  · exact hkeeps.useDatabase database t

/-- No opening asks for a session variable. -/
theorem unread_append {database : String} {first second : List Exchange}
    (hfirst : ∀ exchange ∈ first, IsOpening session database exchange.request)
    (h : Unread session Sql.constraintVariables second) :
    Unread session Sql.constraintVariables (first ++ second) := by
  obtain ⟨name, hname, hnever⟩ := h
  refine ⟨name, hname, fun result hmem => ?_⟩
  rcases List.mem_append.mp hmem with hmem | hmem
  · rcases hfirst _ hmem with ⟨call, hcall⟩ | hcall | hcall <;> cases hcall
  · exact hnever result hmem

theorem unread_of_opening {database : String} {talk : List Exchange}
    (htalk : ∀ exchange ∈ talk, IsOpening session database exchange.request) :
    Unread session Sql.constraintVariables talk := by
  have hnothing : Unread session Sql.constraintVariables [] :=
    ⟨"FOREIGN_KEY_CHECKS", by decide, fun _ => List.not_mem_nil⟩
  rw [← List.append_nil talk]
  exact unread_append htalk hnothing

/-- What was put back to a state is put back to every state with the same settings. -/
theorem PutBack.of_same {body : Work α} {t : σ} {first second saving inside : List Exchange}
    {result outcome : Except Fault α} {attempts : List Attempt} (hsame : SameChecks settings s t)
    (h : PutBack host session settings body t second result s' saving inside outcome attempts) :
    PutBack host session settings body s (first ++ second) result s' (first ++ saving) inside
      outcome attempts := by
  have hvalue : ∀ attempt ∈ attempts, settings t attempt.1 = settings s attempt.1 := by
    intro attempt hattempt
    refine hsame attempt.1 ?_
    rw [← h.names]
    exact List.mem_map_of_mem hattempt
  refine ⟨?_, h.inside, h.names, fun name hname => ?_, h.result_eq⟩
  · rw [h.talk_eq, List.append_assoc, List.append_assoc, List.append_assoc]
    congr 3
    exact List.map_congr_left fun attempt hattempt => by
      rw [Attempt.exchange, Attempt.exchange, hvalue attempt hattempt]
  · rw [h.restored name hname, hvalue _ hname]

theorem dialogue_dump (hkeeps : KeepsChecks host session settings) {options : Options}
    (hplain : ∀ format talk t, (Dump.detect options.path options.compression).run.Dialogue host s
      talk (.ok format) t → format.kind = .plain)
    {result : Except Fault Stats}
    (h : (dump session options).run.Dialogue host s talk result s') :
    Unsaved session settings s talk result s' ∨
      ∃ format saving inside outcome attempts,
        PutBack host session settings (loadStatements session options format) s talk result s'
          saving inside outcome attempts := by
  have hopening : ∀ request t, IsOpening session options.database request →
      SameChecks settings s t → SameChecks settings s (host.answer request t).2 :=
    fun request t hrequest hsame => hkeeps.opening hrequest hsame
  rw [dump_eq, Work.dialogue_bind] at h
  rcases h with ⟨fault, hfault, hdetect⟩ | ⟨first, format, t, rest, rfl, hdetect, hrest⟩
  · obtain ⟨hsame, hfirst⟩ := (asks_detect session options.database _ _).dialogue hopening
      (.refl settings s) hdetect
    exact .inl ⟨⟨fault, hfault⟩, unread_of_opening hfirst, hsame⟩
  obtain ⟨hsame, hfirst⟩ := (asks_detect session options.database _ _).dialogue hopening
    (.refl settings s) hdetect
  rw [hplain format first t hdetect] at hrest
  have hdatabase := @asks_openDatabase (IsOpening session options.database) session options format
    (.inr (.inl rfl)) (.inr (.inr rfl))
  rcases Work.dialogue_bind.mp hrest with
    ⟨fault, hfault, hopen⟩ | ⟨second, _, u, rest, rfl, hopen, hload⟩
  · obtain ⟨hsame, hsecond⟩ := hdatabase.dialogue hopening hsame hopen
    exact .inl ⟨⟨fault, hfault⟩, unread_append hfirst (unread_of_opening hsecond), hsame⟩
  obtain ⟨hsame, hsecond⟩ := hdatabase.dialogue hopening hsame hopen
  rcases dialogue_withoutChecks hkeeps hload with hunsaved |
    ⟨saving, inside, outcome, attempts, hback⟩
  · exact .inl ⟨hunsaved.failed, unread_append hfirst (unread_append hsecond hunsaved.unread),
      hsame.trans hunsaved.same⟩
  · refine .inr ⟨format, first ++ second ++ saving, inside, outcome, attempts, ?_⟩
    rw [← List.append_assoc]
    exact hback.of_same hsame

/-- However the load of a plain dump ends, and whatever was refused, the constraint checks are as
they were, but for those that the server refused to give their values back. -/
theorem putBack_of_dump (host : Host σ) (session : Session) (settings : σ → String → Setting)
    (hkeeps : KeepsChecks host session settings) (options : Options) (s : σ)
    (hplain : ∀ format talk t, (Dump.detect options.path options.compression).run.Dialogue host s
      talk (.ok format) t → format.kind = .plain)
    (result : Except Fault Stats)
    (h : ((dump session options).run.run host s).1.result = .ok result) :
    ∃ talk s', (dump session options).run.Dialogue host s talk result s' ∧
      (Unsaved session settings s talk result s' ∨
        ∃ format saving inside outcome attempts,
          PutBack host session settings (loadStatements session options format) s talk result s'
            saving inside outcome attempts) := by
  obtain ⟨talk, htalk⟩ := Job.exists_dialogue h
  exact ⟨talk, _, htalk, dialogue_dump hkeeps hplain htalk⟩

end Whole

/-! ### A server that refuses to switch a check off -/

/-- Answers the two checks from two switches. The second can be switched on, but not off. -/
def stubbornAnswer (switches : Bool × Bool) :
    (call : Session.Call) → Except SessionFault call.Reply × (Bool × Bool)
  | .query sql =>
      let value := if sql = Sql.readVariable "FOREIGN_KEY_CHECKS" then switches.1 else switches.2
      (.ok ⟨[], [[.int (if value then 1 else 0)]]⟩, switches)
  | .execute sql =>
      if sql = Sql.setVariable "FOREIGN_KEY_CHECKS" "0" then (.ok (), false, switches.2)
      else if sql = Sql.setVariable "FOREIGN_KEY_CHECKS" "1" then (.ok (), true, switches.2)
      else if sql = Sql.setVariable "UNIQUE_CHECKS" "1" then (.ok (), switches.1, true)
      else (.error (.rejected "no"), switches)
  | .useDatabase _ => (.ok (), switches)
  | .ping _ | .begin | .executeInside _ | .commit | .rollback => (.error (.rejected "no"), switches)

/-- A host with such a server for one session, and nothing else. -/
def stubborn : Host (Bool × Bool) where
  answer
    | .session session call, switches =>
        if session = default then
          let (reply, switches) := stubbornAnswer switches call
          (⟨.ok reply, ⟨0⟩⟩, switches)
        else (⟨.error "nobody there", ⟨0⟩⟩, switches)
    | _, switches => (⟨.error "nobody there", ⟨0⟩⟩, switches)

def stubbornSettings (switches : Bool × Bool) (name : String) : Setting :=
  .number (if (if name = "FOREIGN_KEY_CHECKS" then switches.1 else switches.2) then 1 else 0)

/-- The literal of a text has quotes or marks that it is hexadecimal. -/
theorem Setting.two_le_length_text (s : String) : 2 ≤ (Setting.text s).literal.length := by
  have hquoted (t : String) : 2 ≤ (Sql.quoteString t).length := by
    simp only [Sql.quoteString, String.length_ofList, List.length_cons, List.length_append]
    omega
  have hbytes (b : List UInt8) : 2 ≤ (Sql.quoteBytes b).length := by
    rw [Sql.quoteBytes]
    split
    · decide
    · rw [String.length_append]
      exact Nat.le_add_right 2 _
  simp only [literal, Value.literal, Value.bytesLiteral]
  split
  · exact hbytes _
  · split
    · exact hquoted _
    · exact hbytes _

theorem Setting.eq_number {x : Setting} {i : Int} (h : x.literal = toString i)
    (hlength : (toString i).length = 1) : x = .number i := by
  cases x with
  | number j => exact congrArg number (Int.repr_injective h)
  | text s =>
    have htwo := two_le_length_text s
    rw [h, hlength] at htwo
    omega

theorem setVariable_ne (l l' : String) :
    Sql.setVariable "FOREIGN_KEY_CHECKS" l ≠ Sql.setVariable "UNIQUE_CHECKS" l' := by
  intro h
  have hletter := congrArg (fun t => t.toList[12]?) h
  simp [Sql.setVariable] at hletter

theorem createDatabase_ne (database name l : String) :
    Sql.createDatabase database ≠ Sql.setVariable name l := by
  intro h
  unfold Sql.createDatabase Sql.setVariable at h
  have hletter := congrArg (fun t => t.toList.head?) h
  simp at hletter

theorem setVariable_inj {name l l' : String} :
    Sql.setVariable name l = Sql.setVariable name l' ↔ l = l' :=
  String.append_right_inj _

theorem stubborn_session (call : Session.Call) (switches : Bool × Bool) :
    stubborn.answer (.session default call) switches =
      (⟨.ok (stubbornAnswer switches call).1, ⟨0⟩⟩, (stubbornAnswer switches call).2) := by
  simp [stubborn]

theorem stubborn_set (name : String) (hname : name ∈ Sql.constraintVariables) (x : Setting)
    (switches : Bool × Bool) :
    let answer := stubbornAnswer switches (.execute (Sql.setVariable name x.literal))
    (answer.1 = .ok () → stubbornSettings answer.2 name = x) ∧
      ∀ other ∈ Sql.constraintVariables, other ≠ name →
        stubbornSettings answer.2 other = stubbornSettings switches other := by
  have hnames : name = "FOREIGN_KEY_CHECKS" ∨ name = "UNIQUE_CHECKS" := by
    simpa [Sql.constraintVariables] using hname
  rcases hnames with rfl | rfl
  · simp only [stubbornAnswer, setVariable_inj, setVariable_ne, if_false]
    split
    · next hzero =>
      cases Setting.eq_number (i := 0) hzero rfl
      exact ⟨fun _ => rfl, fun other _ hne => by simp [stubbornSettings, hne]⟩
    split
    · next hone =>
      cases Setting.eq_number (i := 1) hone rfl
      exact ⟨fun _ => rfl, fun other _ hne => by simp [stubbornSettings, hne]⟩
    · exact ⟨fun h => (nomatch h), fun _ _ _ => rfl⟩
  · have hne (l : String) : Sql.setVariable "UNIQUE_CHECKS" x.literal ≠
        Sql.setVariable "FOREIGN_KEY_CHECKS" l := (setVariable_ne _ _).symm
    simp only [stubbornAnswer, setVariable_inj, hne, if_false]
    split
    · next hone =>
      cases Setting.eq_number (i := 1) hone rfl
      refine ⟨fun _ => rfl, fun other hother hne => ?_⟩
      have hfirst : other = "FOREIGN_KEY_CHECKS" := by
        simpa [Sql.constraintVariables, hne] using hother
      subst hfirst
      rfl
    · exact ⟨fun h => (nomatch h), fun _ _ _ => rfl⟩

theorem keepsChecks_stubborn : KeepsChecks stubborn default stubbornSettings where
  elsewhere request s h := by
    cases request with
    | session other call =>
      have hother : other ≠ default := fun heq => h call (heq ▸ rfl)
      simp only [stubborn, if_neg hother]
      exact .refl _ s
    | _ => exact .refl _ s
  useDatabase database s := .refl _ s
  createDatabase database s := by
    rw [stubborn_session]
    simp only [stubbornAnswer, createDatabase_ne, if_false]
    exact .refl _ s
  query name hname s := .refl _ s
  read name hname s result h := by
    rw [stubborn_session] at h
    cases h
    refine ⟨_, rfl, ?_⟩
    simp only [readVariable_injective.eq_iff]
    exact .int _
  set name hname x s h := by
    rw [stubborn_session] at h ⊢
    exact (stubborn_set name hname x s).1 (by simpa using h)
  others name hname x s other hother hne := by
    rw [stubborn_session]
    exact (stubborn_set name hname x s).2 other hother hne

def stubbornOptions : Options :=
  { path := "dump.sql", database := "shop", compression := some .none }

/-- The load fails because a check cannot be switched off. By then the other one is off. -/
theorem putBack_of_stubborn :
    KeepsChecks stubborn default stubbornSettings ∧
    (∀ format talk t, (Dump.detect stubbornOptions.path stubbornOptions.compression).run.Dialogue
      stubborn (true, true) talk (.ok format) t → format.kind = .plain) ∧
    ((dump default stubbornOptions).run.run stubborn (true, true)).1.result =
      .ok (.error (.session (.rejected "no"))) ∧
    ∃ talk s', (dump default stubbornOptions).run.Dialogue stubborn (true, true) talk
        (.error (.session (.rejected "no"))) s' ∧
      (Unsaved default stubbornSettings (true, true) talk
          (.error (.session (.rejected "no")) : Except Fault Stats) s' ∨
        ∃ format saving inside outcome attempts,
          PutBack stubborn default stubbornSettings
            (loadStatements default stubbornOptions format) (true, true) talk
            (.error (.session (.rejected "no"))) s' saving inside outcome attempts) := by
  have hplain : ∀ format talk t, (Dump.detect stubbornOptions.path
      stubbornOptions.compression).run.Dialogue stubborn (true, true) talk (.ok format) t →
      format.kind = .plain := fun _ _ _ => kind_of_detect
  exact ⟨keepsChecks_stubborn, hplain, rfl, putBack_of_dump stubborn default stubbornSettings
    keepsChecks_stubborn stubbornOptions (true, true) hplain _ rfl⟩

end SqlBackup.Load
