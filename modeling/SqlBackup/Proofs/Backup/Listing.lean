import Mathlib
import SqlBackup.Proofs.Backup.Lifecycle

/-!
# The order in which backups are listed

Backups are listed from the newest to the oldest by their times, which the clock has shown, and at
the same time from the greatest name to the smallest. As names are texts, and as the name of a
backup is free again when it has been deleted, the greater name need not be that of the later one.
-/
namespace SqlBackup

open Scripted (Tree World)

/-- Points in time in their order. -/
def Calendar.Instant.rank (i : Calendar.Instant) : ℤ ×ₗ ℕ := toLex (i.seconds, i.nanos)

theorem Calendar.Instant.rank_injective : Function.Injective Calendar.Instant.rank := by
  rintro ⟨_, _⟩ ⟨_, _⟩ h
  cases h
  rfl

/-- The time that the clock has shown. -/
def Asked.time? : Asked → Option Calendar.Instant
  | ⟨.now, .ok i⟩ => some i
  | _ => none

namespace Backup

variable {σ : Type} {host : Host σ} {files : σ → Tree} {s s' : σ} {t : Tree} {settings : Settings}
  {request : Request} {talk : List Asked} {m : Manifest} {events : List Event}

/-! ### Times -/

/-- What is drafted has the time that the clock has shown. -/
def Dated (talk : List Asked) : Except Fault Draft → Prop
  | .ok draft => draft.timestamp ∈ talk.filterMap Asked.time?
  | .error _ => True

/-- What is planned has the time that the clock has shown. -/
def Timed (settings : Settings) (request : Request) (talk : List Asked) :
    Except Fault (Plan Manifest.File Manifest) → Prop
  | .ok made => ∃ draft : Draft, made.conclude = conclude settings request draft ∧
      draft.timestamp ∈ talk.filterMap Asked.time?
  | .error _ => True

theorem asksSince_timed (settings : Settings) (request : Request) (talk : List Asked) :
    (plan settings request).run.AsksSince (fun _ _ => True) (Timed settings request) talk := by
  rw [plan, prepare]
  refine Work.asksSince_bind (m := Dated) ?_ (fun _ _ _ => trivial)
    fun talk draft h => ⟨draft, rfl, h⟩
  refine Work.asksSince_bind (Job.asksSince_true _ talk) (fun _ _ _ => trivial)
    fun talk session _ => ?_
  refine Work.asksSince_bind (Job.asksSince_true _ talk) (fun _ _ _ => trivial)
    fun talk databases _ => ?_
  split
  · trivial
  refine Work.asksSince_request trivial fun timestamp => ?_
  have htime : timestamp ∈ (talk ++ [(⟨.now, .ok timestamp⟩ : Asked)]).filterMap Asked.time? := by
    rw [List.filterMap_append]
    exact List.mem_append_right _ (List.mem_singleton_self timestamp)
  refine Work.asksSince_bind ((Job.asksSince_true (allocate settings timestamp).run _).keep
    (fun talk => timestamp ∈ talk.filterMap Asked.time?) (fun talk asked h _ => ?_) htime)
    (fun _ _ _ => trivial) fun talk id h => h.1
  rw [List.filterMap_append]
  exact List.mem_append_left _ h

/-- A backup has a time that the clock has shown while it was made. -/
theorem timestamp_mem_of_reaches {calls : List Files.Call}
    (h : Plan.Reaches host (plan settings request) s talk calls (some m) s') :
    m.timestamp ∈ talk.filterMap Asked.time? := by
  generalize hvalue : some m = value? at h
  cases h with
  | planning => cases hvalue
  | running => cases hvalue
  | @concluding talk later made s₁ s' moves turns rest hplan hturns hover hconclude =>
    obtain ⟨draft, hmade, htime⟩ : Timed settings request talk (.ok made) :=
      ((asksSince_timed settings request []).leads (fun _ => True) (fun _ _ _ _ => trivial) trivial
        hplan.leads).2
    obtain rfl := Job.value?_eq_some.mp hvalue.symm
    rw [hmade] at hconclude
    obtain ⟨dumps, -, rfl⟩ := ((asks_conclude turns.outcomes).leads hconclude.leads).2 m rfl
    rw [List.append_assoc, List.filterMap_append]
    exact List.mem_append_left _ htime

/-- The times that the clock has shown while backups were made, from the first on. -/
def times : List Event → List Calendar.Instant
  | [] => []
  | .created talk _ :: events => times events ++ talk.filterMap Asked.time?
  | .deleted _ _ :: events => times events

/-- The clock has never gone back. -/
def GoesOn (events : List Event) : Prop := (times events).Pairwise fun i j => i.rank ≤ j.rank

theorem GoesOn.of_created {value? : Option Manifest}
    (h : GoesOn (.created talk value? :: events)) :
    GoesOn events ∧ ∀ i ∈ times events, ∀ j ∈ talk.filterMap Asked.time?, i.rank ≤ j.rank := by
  obtain ⟨hevents, -, hacross⟩ := List.pairwise_append.mp h
  exact ⟨hevents, hacross⟩

/-- The backups that are there have times of the clock, each one not before that of the backups
made before it. -/
theorem Log.ordered {root : String} (h : Log host files root events t) (hclock : GoesOn events) :
    (∀ m ∈ present events, m.timestamp ∈ times events) ∧
      (present events).Pairwise fun later earlier =>
        earlier.timestamp.rank ≤ later.timestamp.rank := by
  induction h with
  | empty => exact ⟨List.forall_mem_nil _, .nil⟩
  | @created events settings request listed s s' talk calls value? u _ hroot hlisted hnodup hnames
      hreaches hcut ih =>
    obtain ⟨hevents, hacross⟩ := hclock.of_created
    obtain ⟨htimes, hordered⟩ := ih hevents
    have hold : ∀ m ∈ present events, m.timestamp ∈ times events ++ talk.filterMap Asked.time? :=
      fun m hm => List.mem_append_left _ (htimes m hm)
    rw [present]
    split
    · cases value? with
      | none => exact ⟨hold, hordered⟩
      | some m =>
        have hnew := timestamp_mem_of_reaches hreaches
        exact ⟨List.forall_mem_cons.mpr ⟨List.mem_append_right _ hnew, hold⟩,
          .cons (fun earlier hearlier => hacross _ (htimes earlier hearlier) _ hnew) hordered⟩
    · exact ⟨hold, hordered⟩
  | @deleted events settings s id result _ hroot hresult ih =>
    obtain ⟨htimes, hordered⟩ := ih hclock
    cases result with
    | error fault => exact ⟨htimes, hordered⟩
    | ok _ =>
      exact ⟨fun m hm => htimes m (List.mem_of_mem_filter hm), hordered.filter _⟩

/-! ### The order of a list -/

theorem rank_le_iff {i j : Calendar.Instant} :
    i.rank ≤ j.rank ↔ i.seconds < j.seconds ∨ i.seconds = j.seconds ∧ i.nanos ≤ j.nanos :=
  Prod.Lex.toLex_le_toLex

/-- What decides of two backups which one is listed first: that of the greater key. -/
def listKey (m : Manifest) : (ℤ ×ₗ ℕ) ×ₗ String := toLex (m.timestamp.rank, m.id)

theorem listKey_le_iff {a b : Manifest} : listKey a ≤ listKey b ↔
    a.timestamp.rank < b.timestamp.rank ∨ a.timestamp = b.timestamp ∧ a.id ≤ b.id := by
  rw [listKey, listKey, Prod.Lex.toLex_le_toLex, Calendar.Instant.rank_injective.eq_iff]

theorem precedes_iff {a b : Manifest} : precedes a b = true ↔ listKey b ≤ listKey a := by
  rw [listKey_le_iff, lt_iff_le_and_ne, rank_le_iff, ne_eq,
    Calendar.Instant.rank_injective.eq_iff, precedes]
  by_cases htime : a.timestamp = b.timestamp
  · simp [htime]
  · rw [if_neg htime]
    split
    · next hseconds => simp [hseconds, Ne.symm htime]
    · next hseconds =>
      have hlt : b.timestamp.seconds ≤ a.timestamp.seconds ↔
          b.timestamp.seconds < a.timestamp.seconds := (Ne.symm hseconds).le_iff_lt
      simp [hlt, Ne.symm hseconds, Ne.symm htime]

/-- Whatever the files are, a list goes from the greatest key to the smallest. -/
theorem asks_list (settings : Settings) :
    (list settings).Asks (fun _ => True) fun found =>
      found.Pairwise fun a b => listKey b ≤ listKey a := by
  rw [list]
  refine (Work.asks_true _).bind fun kind _ => ?_
  split
  · refine (Work.asks_true _).bind fun names _ => (Work.asks_true _).bind fun found _ =>
      Work.asks_pure ?_
    have hsorted : (found.mergeSort precedes).Pairwise fun a b => precedes a b = true :=
      List.pairwise_mergeSort
        (fun a b c (hab : precedes a b = true) hbc => precedes_iff.mpr
          ((precedes_iff.mp hbc).trans (precedes_iff.mp hab)))
        (fun a b => by
          rw [Bool.or_eq_true, precedes_iff, precedes_iff]
          exact le_total _ _) found
    exact hsorted.imp precedes_iff.mp
  · exact Work.asks_pure .nil

/-- Backups with different names are sorted in one way only. -/
theorem eq_of_sorted {found live : List Manifest} (hperm : found.Perm live)
    (hids : (live.map (·.id)).Nodup) (hfound : found.Pairwise fun a b => listKey b ≤ listKey a)
    (hlive : live.Pairwise fun a b => listKey b ≤ listKey a) : found = live := by
  refine hperm.eq_of_pairwise (fun a b ha hb hab hba => ?_) hfound hlive
  have hkey : listKey a = listKey b := le_antisymm hba hab
  have hid : a.id = b.id := congrArg (fun key => (ofLex key).2) hkey
  exact List.inj_on_of_nodup_map hids (hperm.mem_iff.mp ha) hb hid

/-- Sorted backups are in the order in which they were made if, of those of one time, each has a
greater name than those made before it, and only then. -/
theorem eq_present_iff {found live : List Manifest} (hperm : found.Perm live)
    (hids : (live.map (·.id)).Nodup)
    (hfound : found.Pairwise fun a b => listKey b ≤ listKey a)
    (hlive : live.Pairwise fun later earlier => earlier.timestamp.rank ≤ later.timestamp.rank) :
    found = live ↔ live.Pairwise fun later earlier =>
      later.timestamp = earlier.timestamp → earlier.id < later.id := by
  constructor
  · rintro rfl
    refine (hfound.and (List.pairwise_map.mp hids)).imp fun {later earlier} h htime => ?_
    obtain ⟨hkey, hne⟩ := h
    rcases listKey_le_iff.mp hkey with hbefore | ⟨-, hid⟩
    · rw [htime] at hbefore
      exact absurd hbefore (lt_irrefl _)
    · exact lt_of_le_of_ne hid (Ne.symm hne)
  · intro hties
    refine eq_of_sorted hperm hids hfound ?_
    refine (hlive.and hties).imp fun {later earlier} h => listKey_le_iff.mpr ?_
    rcases h.1.lt_or_eq with hbefore | hsame
    · exact .inl hbefore
    · have htime := Calendar.Instant.rank_injective hsame
      exact .inr ⟨htime, (h.2 htime.symm).le⟩

/-- The backups that are there are listed in the order of their keys. -/
theorem sorted_of_log (hfiles : host.HasFiles files)
    (h : Log host files settings.root events (files s)) (hsound : ∀ m ∈ present events, m.Sound)
    (htells : host.Tells files (files s)) :
    ∃ found, ((list settings).run.run host s).1.result = .ok (.ok found) ∧
      found.Perm (present events) ∧ ((present events).map (·.id)).Nodup ∧
      found.Pairwise fun a b => listKey b ≤ listKey a := by
  obtain ⟨-, base, place, hbase, hcatalogue⟩ := h.catalogue hfiles
  obtain ⟨result, hresult, found, rfl, hperm⟩ :=
    (succeeds_list hfiles htells rfl hbase hcatalogue hsound).run
  exact ⟨found, hresult, hperm, hcatalogue.ids, (asks_list settings).run hresult found rfl⟩

/-- Whatever has been done below a root while the clock did not go back: the backups that are there
are listed from the newest to the oldest, and at the same time from the greatest name to the
smallest. That is the reverse of the order in which they were made where, of those of one time, each
has a greater name than those made before it, and nowhere else. -/
theorem newest_first_of_log (hfiles : host.HasFiles files)
    (h : Log host files settings.root events (files s)) (hclock : GoesOn events)
    (hsound : ∀ m ∈ present events, m.Sound) (htells : host.Tells files (files s)) :
    ∃ found, ((list settings).run.run host s).1.result = .ok (.ok found) ∧
      found.Perm (present events) ∧
      (found.Pairwise fun a b => b.timestamp.rank < a.timestamp.rank ∨
        b.timestamp = a.timestamp ∧ b.id < a.id) ∧
      (found = present events ↔ (present events).Pairwise fun later earlier =>
        later.timestamp = earlier.timestamp → earlier.id < later.id) := by
  obtain ⟨found, hresult, hperm, hnodup, hsorted⟩ := sorted_of_log hfiles h hsound htells
  have hids := (hperm.map (·.id)).nodup_iff.mpr hnodup
  refine ⟨found, hresult, hperm, ?_, eq_present_iff hperm hnodup hsorted (h.ordered hclock).2⟩
  refine (hsorted.and (List.pairwise_map.mp hids)).imp fun {a b} h => ?_
  rcases listKey_le_iff.mp h.1 with hbefore | ⟨htime, hid⟩
  · exact .inl hbefore
  · exact .inr ⟨htime, lt_of_le_of_ne hid (Ne.symm h.2)⟩

/-! ### Two backups of one second -/

theorem now_answer (request : SqlBackup.Request) (w : World) :
    (Scripted.host.answer request w).2.now = w.now := by
  cases request <;> rfl

/-- The clock of a scripted world stands still. -/
theorem eq_now_of_reaches {calls : List Files.Call} {value? : Option Manifest} {w w' : World}
    (h : Plan.Reaches Scripted.host (plan settings request) w talk calls value? w') :
    ∀ i ∈ talk.filterMap Asked.time?, i = w.now := by
  refine (h.keeps (fun talk w' => w'.now = w.now ∧ ∀ i ∈ talk.filterMap Asked.time?, i = w.now)
    (fun talk request w' hw' => ?_) ⟨rfl, List.forall_mem_nil _⟩).2
  refine ⟨(now_answer request w').trans hw'.1, ?_⟩
  rw [List.filterMap_append]
  refine List.forall_mem_append.mpr ⟨hw'.2, fun i hi => ?_⟩
  cases request with
  | now =>
    obtain rfl := List.mem_singleton.mp hi
    exact hw'.1
  | _ => cases hi

/-- A backup that is made to its end while the clock of a scripted world stands. -/
theorem exists_log_create {w w' : World} (hlog : Log Scripted.host World.files "b" events w.files)
    (hcreate : create Scripted.host oneByOne shopOnly w = (.ok (.ok m), w')) :
    ∃ talk, Log Scripted.host World.files "b" (.created talk (some m) :: events) w'.files ∧
      present (.created talk (some m) :: events) = m :: present events ∧
      ∀ i ∈ talk.filterMap Asked.time?, i = w.now := by
  have hcarries := Plan.carriesOut_carryOut Scripted.host (plan oneByOne shopOnly) w
  rw [← Backup.create, hcreate] at hcarries
  obtain ⟨talk, hreaches⟩ := hcarries.reaches
  have hcreated : Log Scripted.host World.files "b" (.created talk (some m) :: events) w'.files :=
    .created hlog rfl (lists_of_named w rfl) List.nodup_nil (by decide) hreaches .nothing
  have hany : talk.any Asked.publishes = true :=
    (hcreated.catalogue Scripted.hasFiles_host).1 _ List.mem_cons_self
  refine ⟨talk, hcreated, ?_, eq_now_of_reaches hreaches⟩
  rw [present, hany]
  rfl

theorem eq_of_made? {α β : Type} {run : Except String (Except Fault α) × β} {a : α}
    (h : made? run.1 = some a) : run = (.ok (.ok a), run.2) :=
  Prod.ext (made?_eq_some.mp h) rfl

/-- The start of March 2024. -/
def march : Calendar.Instant := ⟨1709294400, 0⟩

theorem newest_first_of_twice : ∃ first second w talk talk',
    Log Scripted.host World.files "b" [.created talk' (some second), .created talk (some first)]
      w.files ∧
    GoesOn [.created talk' (some second), .created talk (some first)] ∧
    first.timestamp = second.timestamp ∧
    ((list oneByOne).run.run Scripted.host w).1.result = .ok (.ok [second, first]) := by
  generalize hfirst : create Scripted.host oneByOne shopOnly
    (waiting march ⟨[(["b"], .directory)]⟩) = r
  generalize hsecond : create Scripted.host oneByOne shopOnly (waiting march r.2.files) = r'
  have hmade : (made? r.1).map (·.id) = some "20240301-120000" ∧
      (made? r'.1).map (·.id) = some "20240301-120000-1" ∧
      (made? r.1).map (·.timestamp) = some march ∧ (made? r'.1).map (·.timestamp) = some march ∧
      (∀ m ∈ made? r.1, m.Sound) ∧ ∀ m ∈ made? r'.1, m.Sound := by
    subst hsecond hfirst
    decide +kernel
  obtain ⟨hid, hid', htime, htime', hsound, hsound'⟩ := hmade
  obtain ⟨first, hm, hid⟩ := Option.map_eq_some_iff.mp hid
  obtain ⟨second, hm', hid'⟩ := Option.map_eq_some_iff.mp hid'
  rw [hm] at htime
  rw [hm'] at htime'
  have htime := Option.some.inj htime
  have htime' := Option.some.inj htime'
  obtain ⟨talk, hlog, hpresent, hnow⟩ := exists_log_create
    (w := waiting march ⟨[(["b"], .directory)]⟩) (.empty hasEmpty_waiting)
    (hfirst.trans (eq_of_made? hm))
  obtain ⟨talk', hlog', hpresent', hnow'⟩ := exists_log_create (w := waiting march r.2.files) hlog
    (hsecond.trans (eq_of_made? hm'))
  have hclock : GoesOn [.created talk' (some second), .created talk (some first)] := by
    have hall : ∀ i ∈ times [.created talk' (some second), .created talk (some first)],
        i = march := List.forall_mem_append.mpr ⟨hnow, hnow'⟩
    exact List.pairwise_of_forall_mem_list fun i hi j hj => (hall i hi ▸ hall j hj ▸ le_rfl)
  have hlive : present [.created talk' (some second), .created talk (some first)] =
      [second, first] := hpresent'.trans (congrArg (second :: ·) hpresent)
  have hsounds : ∀ m ∈ present [.created talk' (some second), .created talk (some first)],
      m.Sound := by
    rw [hlive]
    exact List.forall_mem_cons.mpr ⟨hsound' _ hm', List.forall_mem_singleton.mpr (hsound _ hm)⟩
  have hroot : Log Scripted.host World.files oneByOne.root
    [.created talk' (some second), .created talk (some first)] (World.files r'.2) := hlog'
  obtain ⟨found, hfound, -, -, horder⟩ := newest_first_of_log Scripted.hasFiles_host hroot hclock
    hsounds (Scripted.tells_host _)
  refine ⟨first, second, r'.2, talk, talk', hlog', hclock, htime.trans htime'.symm, ?_⟩
  have hids : first.id < second.id := by
    rw [hid, hid']
    decide
  rw [hlive] at horder
  rwa [horder.mpr (List.pairwise_pair.mpr fun _ => hids)] at hfound

/-- The first of two backups of one second is deleted, and the next one gets its name. It is listed
behind the second although it was made after it. -/
theorem listed_behind_of_reused : ∃ first second third w₁ w₂ w₃ w₄,
    create Scripted.host oneByOne shopOnly (waiting march ⟨[(["b"], .directory)]⟩) =
      (.ok (.ok first), w₁) ∧
    create Scripted.host oneByOne shopOnly (waiting march w₁.files) = (.ok (.ok second), w₂) ∧
    ((delete oneByOne first.id).run.run Scripted.host w₂).1.result = .ok (.ok ()) ∧
    ((delete oneByOne first.id).run.run Scripted.host w₂).2 = w₃ ∧
    create Scripted.host oneByOne shopOnly (waiting march w₃.files) = (.ok (.ok third), w₄) ∧
    second.timestamp = third.timestamp ∧ third.id = first.id ∧
    ((list oneByOne).run.run Scripted.host w₄).1.result = .ok (.ok [second, third]) := by
  generalize hfirst : create Scripted.host oneByOne shopOnly
    (waiting march ⟨[(["b"], .directory)]⟩) = r₁
  generalize hsecond : create Scripted.host oneByOne shopOnly (waiting march r₁.2.files) = r₂
  generalize hdelete : (delete oneByOne "20240301-120000").run.run Scripted.host r₂.2 = r₃
  generalize hthird : create Scripted.host oneByOne shopOnly (waiting march r₃.2.files) = r₄
  have hmade : (made? r₁.1).map (·.id) = some "20240301-120000" ∧
      (made? r₂.1).map (·.id) = some "20240301-120000-1" ∧ ends r₃.1.result = some true ∧
      (made? r₄.1).map (·.id) = some "20240301-120000" ∧
      (made? r₂.1).map (·.timestamp) = (made? r₄.1).map (·.timestamp) ∧
      (∀ m ∈ made? r₂.1, m.Sound) ∧ ∀ m ∈ made? r₄.1, m.Sound := by
    subst hthird hdelete hsecond hfirst
    decide +kernel
  obtain ⟨hid₁, hid₂, hends, hid₃, htime, hsound₂, hsound₃⟩ := hmade
  obtain ⟨first, hm₁, hid₁⟩ := Option.map_eq_some_iff.mp hid₁
  obtain ⟨second, hm₂, hid₂⟩ := Option.map_eq_some_iff.mp hid₂
  obtain ⟨third, hm₃, hid₃⟩ := Option.map_eq_some_iff.mp hid₃
  obtain ⟨⟨⟩, hdeleted⟩ := exists_value hends
  rw [← hid₁] at hdelete
  rw [hm₂, hm₃] at htime
  have htime : second.timestamp = third.timestamp := Option.some.inj htime
  have hr₁ := hfirst.trans (eq_of_made? hm₁)
  have hr₂ := hsecond.trans (eq_of_made? hm₂)
  have hr₃ := hthird.trans (eq_of_made? hm₃)
  obtain ⟨talk₁, hlog₁, hpresent₁, -⟩ := exists_log_create
    (w := waiting march ⟨[(["b"], .directory)]⟩) (.empty hasEmpty_waiting) hr₁
  obtain ⟨talk₂, hlog₂, hpresent₂, -⟩ :=
    exists_log_create (w := waiting march r₁.2.files) hlog₁ hr₂
  have hresult := (congrArg (·.1.result) hdelete).trans hdeleted
  have hlog := Log.deleted first.id hlog₂ rfl hresult
  rw [hdelete] at hlog
  obtain ⟨talk₃, hlog₃, hpresent₃, -⟩ :=
    exists_log_create (w := waiting march r₃.2.files) hlog hr₃
  have hlive : present [.created talk₃ (some third), .deleted first.id (.ok ()),
      .created talk₂ (some second), .created talk₁ (some first)] = [third, second] := by
    rw [hpresent₃, present, hpresent₂, hpresent₁]
    simp [present, hid₁, hid₂]
  have hroot : Log Scripted.host World.files oneByOne.root _ (World.files r₄.2) := hlog₃
  obtain ⟨found, hfound, hperm, hids, hsorted⟩ := sorted_of_log Scripted.hasFiles_host hroot
    (by
      rw [hlive]
      exact List.forall_mem_cons.mpr ⟨hsound₃ _ hm₃, List.forall_mem_singleton.mpr (hsound₂ _ hm₂)⟩)
    (Scripted.tells_host _)
  rw [hlive] at hperm hids
  have hkeys : listKey third ≤ listKey second := by
    refine listKey_le_iff.mpr (.inr ⟨htime.symm, ?_⟩)
    rw [hid₂, hid₃]
    decide
  obtain rfl := eq_of_sorted (hperm.trans (.swap second third [])) (by simpa [eq_comm] using hids)
    hsorted (List.pairwise_pair.mpr hkeys)
  exact ⟨first, second, third, r₁.2, r₂.2, r₃.2, r₄.2, eq_of_made? hm₁, hr₂, hresult,
    congrArg Prod.snd hdelete, hr₃, htime, hid₃.trans hid₁.symm, hfound⟩

end Backup

end SqlBackup
