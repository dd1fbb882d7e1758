import Mathlib
import SqlBackup.Proofs.Backup.Making
import SqlBackup.Proofs.Backup.Reading

/-!
# How the backups below a root change

At every moment of its making a backup is not there, up to the moment in which its manifest gets its
name; from that moment on it is there, and whole. All other backups stay. A backup that is deleted is
not there any more, and again all others stay.
-/
namespace SqlBackup.Backup

open Files.Path (IsName IsDirectory join)
open Scripted (Tree Place)
open Scripted.Tree (AgreeOff CutOff HasEmpty LeadsTo Torn leadsTo_join)

variable {σ : Type} {host : Host σ} {files : σ → Tree} {s s' : σ} {base t u v : Tree}
  {place : Place} {settings : Settings} {request : Request} {draft : Draft}
  {live : List Manifest} {id : String} {talk : List Asked} {call : Files.Call}

/-- Nothing has been changed but in one directory, and no name has come twice. -/
structure Changed (t : Tree) (place : Place) (id : String) (u : Tree) : Prop where
  agree : AgreeOff (place ++ [id]) t u
  nodup : (u.namesAt place).Nodup

/-- A directory has no manifest. -/
def Hidden (place : Place) (id : String) (t : Tree) : Prop :=
  t.at? (place ++ [id] ++ [Manifest.filename]) = none

theorem publishes_of_silent {asked : Asked} (h : ∀ call, asked.request ≠ .file call) :
    asked.publishes = false := by
  obtain ⟨request, answer⟩ := asked
  cases request with
  | file call => exact absurd rfl (h call)
  | _ => rfl

theorem publishes_of_isOn {path : String} {request : SqlBackup.Request} (h : request.IsOn path)
    (answer : Except String request.Reply) : Asked.publishes ⟨request, answer⟩ = false := by
  cases request with
  | file call => cases h <;> rfl
  | _ => rfl

/-! ### Before there is a directory -/

section Preparing

variable (hbase : base.HasEmpty settings.root place)
include hbase

/-- An empty directory is no backup. -/
theorem Catalogue.put (h : Catalogue base settings.root place live t) (hid : IsName id)
    (hfree : t.at? (place ++ [id]) = none) :
    Catalogue base settings.root place live (t.put (place ++ [id]) .directory) := by
  have hnew := h.id_ne_of_free hfree
  refine h.keep hbase hid hnew (Scripted.Tree.agreeOff_put _ t _)
    (Scripted.Tree.nodup_namesAt_put h.nodup _) ?_
  rw [Scripted.Tree.at?_put_of_ne (by simp)]
  exact h.hidden id hnew

theorem Catalogue.eq_of_paved (h : Catalogue base settings.root place live t)
    (hpaved : Scripted.Tree.Paved settings.root t u) : u = t :=
  hpaved.eq (h.has hbase).open?_eq

/-- What is asked before there is a directory adds no backup and takes none away. -/
theorem Catalogue.prepares (hfiles : host.HasFiles files) {asked : SqlBackup.Request}
    (hallowed : Prepares settings asked) (h : Catalogue base settings.root place live (files s)) :
    Asked.publishes ⟨asked, (host.answer asked s).1.reply⟩ = false ∧
      Catalogue base settings.root place live (files (host.answer asked s).2) := by
  cases hallowed with
  | silent hsilent =>
    refine ⟨publishes_of_silent hsilent, ?_⟩
    rw [hfiles.silent asked s hsilent]
    exact h
  | root =>
    refine ⟨rfl, ?_⟩
    rw [h.eq_of_paved hbase (hfiles.call (.makeDirectories settings.root) s).makeDirectories]
    exact h
  | @directory id i hnamed =>
    refine ⟨rfl, ?_⟩
    have hcall := hfiles.call (.makeDirectory (settings.directory id)) s
    obtain ⟨answer, hanswer⟩ := hcall.exists_ok
    rw [hanswer] at hcall
    rcases hcall.makeDirectory with ⟨-, p, hfresh, hput⟩ | ⟨-, hsame⟩
    · obtain rfl := leadsTo_join (h.has hbase).resolves hnamed.isName p hfresh.resolves
      rw [hput]
      exact h.put hbase hnamed.isName hfresh.free
    · rw [hsame]
      exact h

theorem Catalogue.prepares_torn (hallowed : Prepares settings (.file call))
    (h : Catalogue base settings.root place live t) (htorn : t.Torn call u) :
    Catalogue base settings.root place live u := by
  cases hallowed with
  | silent hsilent => exact absurd rfl (hsilent call)
  | root =>
    rw [h.eq_of_paved hbase htorn.paved]
    exact h
  | directory => cases htorn

end Preparing

/-! ### In the directory -/

section Filling

variable (hbase : base.HasEmpty settings.root place)
  (h : Catalogue base settings.root place live t) (hid : IsName id)
include hbase h hid

theorem Changed.leadsTo (hu : Changed t place id u) :
    u.LeadsTo (settings.directory id) (place ++ [id]) :=
  leadsTo_join (h.has_of_agreeOff hbase hu.agree).resolves hid

theorem Changed.leadsTo_file (hu : Changed t place id u) {name : String} (hname : IsName name) :
    u.LeadsTo (join (settings.directory id) name) (place ++ [id] ++ [name]) :=
  (hu.leadsTo hbase h hid).join (isDirectory_of_isName settings.root hid) hname

omit hbase h hid in
/-- Only a file of the directory has been changed, and that is no manifest. -/
theorem Changed.file (hu : Changed t place id u) {name : String} (hfinal : name ≠ Manifest.filename)
    (hagree : AgreeOff (place ++ [id] ++ [name]) u v) (hnodup : (v.namesAt place).Nodup) :
    Changed t place id v ∧ (Hidden place id u → Hidden place id v) :=
  ⟨⟨hu.agree.trans hagree.above, hnodup⟩, (Manifest.at?_sibling hagree hfinal.symm).trans⟩

omit hbase h hid in
/-- Only something has been taken out of the directory. -/
theorem Changed.thinned (hu : Changed t place id u)
    (hthinned : Scripted.Tree.Thinned (place ++ [id]) u v) (hnodup : (v.namesAt place).Nodup) :
    Changed t place id v ∧ (Hidden place id u → Hidden place id v) :=
  ⟨⟨hu.agree.trans hthinned.agree, hnodup⟩, hthinned.free _⟩

/-- What is asked once there is a directory changes nothing else, and gives it a manifest only by
giving that its name. -/
theorem Changed.fills (hfiles : host.HasFiles files) {asked : SqlBackup.Request}
    (hallowed : Fills (settings.directory id) asked) (hu : Changed t place id (files s)) :
    Changed t place id (files (host.answer asked s).2) ∧
      (Asked.publishes ⟨asked, (host.answer asked s).1.reply⟩ = false →
        Hidden place id (files s) → Hidden place id (files (host.answer asked s).2)) := by
  have hnodup (call : Files.Call) := (hfiles.call call s).nodup_namesAt hu.nodup
  cases hallowed with
  | writes hwrites =>
    obtain ⟨name, hname, hfinal, hon⟩ := hwrites
    cases asked with
    | file call =>
      have hagree := (hfiles.call call s).agreeOff hon (hu.leadsTo_file hbase h hid hname)
      have hfile := hu.file hfinal hagree (hnodup call)
      exact ⟨hfile.1, fun _ => hfile.2⟩
    | _ =>
      rw [hfiles.silent _ s (by simp)]
      exact ⟨hu, fun _ hhidden => hhidden⟩
  | rename =>
    have hcall := hfiles.call (.rename (join (settings.directory id) Manifest.draftFilename)
      (Manifest.pathIn (settings.directory id))) s
    have hagree := hcall.agreeOff_rename
      (hu.leadsTo_file hbase h hid Manifest.isName_draftFilename)
      (hu.leadsTo_file hbase h hid Manifest.isName_filename)
    refine ⟨⟨hu.agree.trans hagree, hnodup _⟩, fun hpublishes hhidden => ?_⟩
    obtain ⟨answer, hanswer⟩ := hcall.exists_ok
    rw [hanswer] at hcall hpublishes
    cases answer with
    | error fault =>
      rw [hcall.rename_error]
      exact hhidden
    | ok value =>
      rw [publishes_rename] at hpublishes
      cases hpublishes
  | removeTree =>
    have hthinned := (hfiles.call (.removeTree (settings.directory id)) s).thinned
      (hu.leadsTo hbase h hid)
    have hremoved := hu.thinned hthinned (hnodup _)
    exact ⟨hremoved.1, fun _ => hremoved.2⟩

theorem Changed.fills_torn (hallowed : Fills (settings.directory id) (.file call))
    (hu : Changed t place id u) (htorn : u.Torn call v) :
    Changed t place id v ∧ (Hidden place id u → Hidden place id v) := by
  cases hallowed with
  | writes hwrites =>
    obtain ⟨name, hname, hfinal, hon⟩ := hwrites
    exact hu.file hfinal (htorn.agreeOff hon (hu.leadsTo_file hbase h hid hname))
      (htorn.nodup_namesAt hu.nodup)
  | rename => cases htorn
  | removeTree =>
    exact hu.thinned (htorn.thinned (hu.leadsTo hbase h hid)) (htorn.nodup_namesAt hu.nodup)

end Filling

/-! ### Making a backup -/

/-- A backup that has its directory is hidden as long as nothing that was asked has published it. -/
structure Standing (files : σ → Tree) (t : Tree) (place : Place) (id : String)
    (talk : List Asked) (s : σ) : Prop where
  changed : Changed t place id (files s)
  hidden : talk.any Asked.publishes = false → Hidden place id (files s)

section Making

variable (hfiles : host.HasFiles files) (hbase : base.HasEmpty settings.root place)
  (h : Catalogue base settings.root place live t)
include hfiles hbase h

theorem Standing.fills (hid : IsName id) {asked : SqlBackup.Request}
    (hallowed : Fills (settings.directory id) asked) (hs : Standing files t place id talk s) :
    Standing files t place id (talk ++ [⟨asked, (host.answer asked s).1.reply⟩])
      (host.answer asked s).2 := by
  obtain ⟨hchanged, hhidden⟩ := hs.changed.fills hbase h hid hfiles hallowed
  refine ⟨hchanged, fun hany => ?_⟩
  rw [List.any_append, Bool.or_eq_false_iff, List.any_cons, List.any_nil, Bool.or_false] at hany
  exact hhidden hany.2 (hs.hidden hany.1)

omit hfiles in
/-- A backup that is cut off before it was published is not there. -/
theorem Standing.cutOff (hid : IsName id) (hnew : ∀ m ∈ live, m.id ≠ id)
    (hs : Standing files t place id talk s) (hany : talk.any Asked.publishes = false)
    {calls : List Files.Call}
    (hcalls : ∀ call ∈ calls, Fills (settings.directory id) (.file call))
    (hcut : (files s).CutOff calls u) : Catalogue base settings.root place live u := by
  have hkept := hcut.keeps (fun v => Changed t place id v ∧ Hidden place id v)
    ⟨hs.changed, hs.hidden hany⟩ fun call hcall v w hv htorn => by
      have htorn' := hv.1.fills_torn hbase h hid (hcalls call hcall) htorn
      exact ⟨htorn'.1, htorn'.2 hv.2⟩
  exact h.keep hbase hid hnew hkept.1.agree hkept.1.nodup hkept.2

end Making

/-- A backup that is about to be made, but has no directory yet, is not there. -/
theorem Catalogue.planning {rest : Job (Except Fault (Plan Manifest.File Manifest))}
    (hfiles : host.HasFiles files) (hbase : base.HasEmpty settings.root place)
    (h : Catalogue base settings.root place live (files s))
    (hplan : (plan settings request).run.Advances host s talk rest s') :
    talk.any Asked.publishes = false ∧
      ∀ u, (files s').CutOff rest.call?.toList u → Catalogue base settings.root place live u := by
  obtain ⟨⟨hany, hs'⟩, hrest⟩ := (asks_plan settings request).advances
    (fun talk s => talk.any Asked.publishes = false ∧
      Catalogue base settings.root place live (files s))
    (fun talk asked s hallowed hs => by
      obtain ⟨hpublishes, hkept⟩ := hs.2.prepares hbase hfiles hallowed
      exact ⟨by simp [hs.1, hpublishes], hkept⟩)
    ⟨List.any_nil, h⟩ hplan
  refine ⟨hany, fun u hcut => hcut.keeps _ hs' fun call hcall v w hv htorn => ?_⟩
  exact hv.prepares_torn hbase (hrest.of_call? (Option.mem_toList.mp hcall)) htorn

/-- With its plan made, a backup has a directory that was not there before, and that is empty. -/
theorem ready_of_planned (hfiles : host.HasFiles files) {listed : List String}
    (hlisted : request.databases = [] → Lists host settings s listed) (hnodup : listed.Nodup)
    (hnames : ∀ database ∈ meant request.databases listed, '/' ∉ database.toList)
    {made : Plan Manifest.File Manifest}
    (hplan : (plan settings request).run.Advances host s talk (.done (.ok made)) s') :
    ∃ (draft : Draft) (v : Tree) (place : Place), made.jobs = exportJobs settings request draft ∧
      made.conclude = conclude settings request draft ∧
      draft.databases = meant request.databases listed ∧
      Scripted.Tree.Paved settings.root (files s) v ∧ draft.Ready settings v place ∧
      files s' = v.put place .directory := by
  have hrun := hplan.run
  have hworks := Job.Works.run (works_plan hfiles hlisted) hrun.1
  rw [hrun.2] at hworks
  obtain ⟨draft, hjobs, hconclude, hdatabases, hnamed, v, place, hpaved, hfresh, hput⟩ := hworks
  exact ⟨draft, v, place, hjobs, hconclude, hdatabases, hpaved,
    ⟨hfresh, hnamed, hdatabases ▸ nodup_meant hnodup, hdatabases ▸ hnames⟩, hput⟩

theorem Catalogue.planned (hfiles : host.HasFiles files) (hbase : base.HasEmpty settings.root place)
    (h : Catalogue base settings.root place live (files s)) {listed : List String}
    (hlisted : request.databases = [] → Lists host settings s listed) (hnodup : listed.Nodup)
    (hnames : ∀ database ∈ meant request.databases listed, '/' ∉ database.toList)
    {made : Plan Manifest.File Manifest}
    (hplan : (plan settings request).run.Advances host s talk (.done (.ok made)) s') :
    ∃ draft : Draft, made.jobs = exportJobs settings request draft ∧
      made.conclude = conclude settings request draft ∧
      draft.Ready settings (files s) (place ++ [draft.id]) ∧
      files s' = (files s).put (place ++ [draft.id]) .directory := by
  obtain ⟨draft, v, p, hjobs, hconclude, -, hpaved, hready, hput⟩ :=
    ready_of_planned hfiles hlisted hnodup hnames hplan
  obtain rfl := h.eq_of_paved hbase hpaved
  obtain rfl := leadsTo_join (h.has hbase).resolves hready.named.isName p hready.fresh.resolves
  exact ⟨draft, hjobs, hconclude, hready, hput⟩

theorem Draft.Ready.names {outcomes : List (Pool.Outcome Fault Manifest.File)}
    {fs : List Manifest.File} (hready : draft.Ready settings t place)
    (houtcomes : Pool.Outcomes ((exportJobs settings request draft).map ExceptT.run)
      (dumpShares files t place (settings.directory draft.id) draft) draft.recorded outcomes s)
    (hvalues : outcomes = fs.map .value) : ∀ f ∈ fs, IsName f.filename := by
  intro f hf
  obtain ⟨i, hi⟩ := List.mem_iff_getElem?.mp hf
  have hvalue : outcomes[i]? = some (.value f) := by
    rw [hvalues, List.getElem?_map, hi, Option.map_some]
  have hlt : i < draft.databases.length := by
    rw [← length_exportJobs settings request draft, ← List.length_map (f := ExceptT.run),
      ← houtcomes.length_eq]
    exact (List.getElem?_eq_some_iff.mp hvalue).1
  obtain ⟨-, hname, -⟩ := houtcomes.value i f hvalue
  exact hname ▸ hready.isName hlt

/-- What can be opened in a directory shows that the directory is there. -/
theorem isThere_of_open? {directory name : String} {entry : Files.Entry}
    (h : t.resolve directory = .ok place) (hname : IsName name)
    (hopen : t.open? (join directory name) = .ok entry) : t.at? place = some .directory := by
  rw [Tree.open?] at hopen
  split at hopen
  · cases hopen
  · next p hp =>
    have hpath : Scripted.Tree.IsWalkable (join directory name) := by
      by_contra hpath
      exact (Scripted.Tree.resolve_of_not_isWalkable hpath t t).2 p hp
    rw [Scripted.Tree.resolve_join h hname hpath, Tree.walk] at hp
    split at hp
    · cases hp
    · cases hp
    · assumption

/-- A backup whose dumps and manifest are complete is kept. -/
theorem Complete.kept {m : Manifest} (hcomplete : Complete host files settings m s)
    (hready : draft.Ready settings t (place ++ [draft.id]))
    (hchanged : Changed t place draft.id (files s)) (hid : m.id = draft.id)
    (htime : m.timestamp = draft.timestamp) (hnames : ∀ f ∈ m.files, IsName f.filename) :
    Kept settings.root place m (files s) := by
  have hresolves : (files s).resolve (settings.directory draft.id) = .ok (place ++ [draft.id]) :=
    (Scripted.Tree.resolve_of_agreeOff hchanged.agree hready.fresh.closed
      hready.fresh.resolves).1
  have hstored := hcomplete.stored
  rw [hid] at hstored
  have hthere := isThere_of_open? hresolves Manifest.isName_filename hstored
  refine ⟨?_, ?_, hcomplete.stored, hnames, hcomplete.records⟩
  · rw [hid, htime]
    exact hready.named
  · rw [hid]
    exact ⟨hresolves, hthere⟩

/-- What is known of a backup while its databases are exported. -/
structure Exporting (host : Host σ) (files : σ → Tree) (settings : Settings) (request : Request)
    (t : Tree) (place : Place) (draft : Draft) (talk : List Asked)
    (turns : Pool.Turns σ Fault Manifest.File) : Prop where
  ready : draft.Ready settings t (place ++ [draft.id])
  unpublished : talk.any Asked.publishes = false
  standing : Standing files t place draft.id talk turns.host
  asks : turns.Asks (Writes (settings.directory draft.id))
  outcomes : turns.IsOver → Pool.Outcomes ((exportJobs settings request draft).map ExceptT.run)
    (dumpShares files t (place ++ [draft.id]) (settings.directory draft.id) draft) draft.recorded
    turns.outcomes turns.host

/-- With its manifest made, a backup is kept. -/
theorem Exporting.kept {turns : Pool.Turns σ Fault Manifest.File} {later : List Asked}
    {m : Manifest} (hfiles : host.HasFiles files)
    (hexporting : Exporting host files settings request t place draft talk turns)
    (hover : turns.IsOver)
    (hconcluding : (conclude settings request draft turns.outcomes).run.Advances host turns.host
      later (.done (.ok m)) s')
    (hchanged : Changed t place draft.id (files s'))
    (hgathered : ∃ fs, Pool.gather Fault.backupOf draft.databases turns.outcomes = .ok fs ∧
      m = draft.manifest request fs) :
    m.id = draft.id ∧ Kept settings.root place m (files s') := by
  obtain ⟨fs, hgather, rfl⟩ := hgathered
  have houtcomes := hexporting.outcomes hover
  have hlength : turns.outcomes.length = draft.databases.length := by
    rw [houtcomes.length_eq, List.length_map, length_exportJobs]
  have hvalues := Pool.gather_eq_ok hgather hlength houtcomes.blamed
  have hrun := hconcluding.run
  have hworks := Job.Works.run (works_conclude hfiles hexporting.ready request houtcomes) hrun.1
  rw [hrun.2] at hworks
  exact ⟨rfl, hworks.2.kept hexporting.ready hchanged rfl rfl
    (hexporting.ready.names houtcomes hvalues)⟩

section Lifetime

variable (hfiles : host.HasFiles files) (hbase : base.HasEmpty settings.root place)
  (h : Catalogue base settings.root place live (files s)) {listed : List String}
  (hlisted : request.databases = [] → Lists host settings s listed) (hnodup : listed.Nodup)
  (hnames : ∀ database ∈ meant request.databases listed, '/' ∉ database.toList)
include hfiles hbase h hlisted hnodup hnames

theorem Catalogue.exporting {made : Plan Manifest.File Manifest} {s₁ : σ}
    {moves : List (Pool.Move Fault Manifest.File)} {turns : Pool.Turns σ Fault Manifest.File}
    (hplan : (plan settings request).run.Advances host s talk (.done (.ok made)) s₁)
    (hturns : Pool.History host (.start made.width (made.jobs.map ExceptT.run) s₁) moves turns) :
    ∃ draft : Draft, made.conclude = conclude settings request draft ∧
      Exporting host files settings request (files s) place draft
        (talk ++ moves.filterMap Pool.Move.exchange?) turns := by
  obtain ⟨hany, -⟩ := h.planning hfiles hbase hplan
  obtain ⟨draft, hjobs, hconclude, hready, hput⟩ :=
    h.planned hfiles hbase hlisted hnodup hnames hplan
  have hid := hready.named.isName
  have hstart : Standing files (files s) place draft.id talk s₁ := by
    refine ⟨⟨?_, ?_⟩, fun _ => ?_⟩
    · rw [hput]
      exact Scripted.Tree.agreeOff_put _ _ _
    · rw [hput]
      exact Scripted.Tree.nodup_namesAt_put h.nodup _
    · rw [Hidden, hput, Scripted.Tree.at?_put_of_ne (by simp)]
      exact h.hidden _ (h.id_ne_of_free hready.fresh.free)
  rw [hjobs] at hturns
  obtain ⟨⟨hstanding, hany'⟩, hasks⟩ := hturns.asks (asks_exportJobs hready.noSlash)
    (fun talk s' => Standing files (files s) place draft.id talk s' ∧
      talk.any Asked.publishes = false)
    (fun talk asked s' hallowed hs' => by
      have hfills := hs'.1.fills hfiles hbase h hid (.writes hallowed)
      obtain ⟨name, -, -, hon⟩ := hallowed
      exact ⟨hfills, by simp [hs'.2, publishes_of_isOn hon]⟩)
    ⟨hstart, hany⟩
  have hin : (files s).Inside (place ++ [draft.id]) (files s₁) := hput ▸ hready.fresh.inside_put
  refine ⟨draft, hconclude, hready, hany', hstanding, hasks, fun hover => ?_⟩
  exact hready.outcomes hfiles hin ⟨turns, ⟨moves, hturns⟩, hover, rfl, rfl⟩

/-- At every moment a backup is either not published and not there, or it is published and there. -/
theorem Catalogue.create {calls : List Files.Call} {value? : Option Manifest}
    (hreaches : Plan.Reaches host (plan settings request) s talk calls value? s')
    (hcut : (files s').CutOff calls u) :
    talk.any Asked.publishes = value?.isSome ∧
      Catalogue base settings.root place (value?.toList ++ live) u := by
  cases hreaches with
  | planning hplan =>
    obtain ⟨hany, hkept⟩ := h.planning hfiles hbase hplan
    exact ⟨hany, hkept u hcut⟩
  | running hplan hturns =>
    obtain ⟨draft, -, hexporting⟩ := h.exporting hfiles hbase hlisted hnodup hnames hplan hturns
    have hready := hexporting.ready
    refine ⟨hexporting.unpublished, ?_⟩
    exact hexporting.standing.cutOff hbase h hready.named.isName
      (h.id_ne_of_free hready.fresh.free) hexporting.unpublished
      (fun call hcall => .writes (hexporting.asks.of_call? hcall)) hcut
  | @concluding talk later made s₁ s' moves turns rest hplan hturns hover hconcluding =>
    obtain ⟨draft, hconclude, hexporting⟩ :=
      h.exporting hfiles hbase hlisted hnodup hnames hplan hturns
    have hid := hexporting.ready.named.isName
    have hnew := h.id_ne_of_free hexporting.ready.fresh.free
    rw [hconclude] at hconcluding
    obtain ⟨hstanding, hasks⟩ := (asks_conclude turns.outcomes).advances
      (Standing files (files s) place draft.id)
      (fun talk asked s' hallowed hs' => hs'.fills hfiles hbase h hid hallowed)
      hexporting.standing hconcluding
    rcases (yieldsBy_conclude turns.outcomes).leads hconcluding.leads with
      ⟨⟨asked, hasked, hpublishes⟩, hvalue⟩ | ⟨hnone, hrest⟩
    · obtain ⟨m, hm⟩ := Option.isSome_iff_exists.mp hvalue
      obtain rfl := Job.value?_eq_some.mp hm
      obtain rfl := hcut.eq
      obtain ⟨hsame, hkept⟩ :=
        hexporting.kept hfiles hover hconcluding hstanding.changed (hasks m rfl)
      rw [← hsame] at hnew hstanding
      refine ⟨List.any_eq_true.mpr ⟨asked, by simp [hasked], hpublishes⟩, ?_⟩
      exact h.add hbase hnew hstanding.changed.agree hstanding.changed.nodup hkept
    · have hlater : later.any Asked.publishes = false := List.any_eq_false.mpr hnone
      have hany : (talk ++ moves.filterMap Pool.Move.exchange? ++ later).any Asked.publishes =
          false := by
        rw [List.any_append, hexporting.unpublished, hlater]
        rfl
      rw [hrest.value?_eq_none]
      refine ⟨hany, hstanding.cutOff hbase h hid hnew hany (fun call hcall => ?_) hcut⟩
      exact hasks.of_call? (Option.mem_toList.mp hcall)

end Lifetime

/-! ### Deleting a backup -/

section Deleting

variable (hfiles : host.HasFiles files)
include hfiles

theorem works_kindOf (path : String) : (kindOf path).Works host .whole s
    (fun kind s' => files s' = files s ∧
      (kind = some .directory → ∃ p, (files s).Has path p)) fun _ _ => False := by
  refine Work.works_ofJob (Request.works_whole fun kind hkind => ?_)
  have hcall := hfiles.call (.kind path) s
  refine ⟨hcall.looks (.kind path), fun hdirectory => ?_⟩
  rw [hkind, hdirectory] at hcall
  exact hcall.exists_has

variable (hbase : base.HasEmpty settings.root place)
include hbase

omit hfiles in
theorem Catalogue.prune (h : Catalogue base settings.root place live t) (hid : IsName id) :
    Catalogue base settings.root place (live.filter (·.id != id)) (t.prune (place ++ [id])) := by
  have hnone : ∀ m ∈ (none : Option Manifest),
      m.id = id ∧ Kept settings.root place m (t.prune (place ++ [id])) := by simp
  exact h.change hbase hid (Scripted.Tree.agreeOff_prune _ t)
    (Scripted.Tree.nodup_namesAt_prune h.nodup) hnone fun _ =>
      Scripted.Tree.at?_prune_below (List.prefix_append _ _) (by simp)

/-- A backup that is deleted is not there any more. If none is, nothing is changed. -/
theorem Catalogue.works_delete (h : Catalogue base settings.root place live (files s)) (id : String) :
    (delete settings id).Works host .whole s
      (fun _ s' => Catalogue base settings.root place (live.filter (·.id != id)) (files s'))
      (fun _ s' => Catalogue base settings.root place live (files s')) := by
  rw [delete, requireName]
  cases hid : isName id with
  | false => exact Work.works_fail h
  | true =>
    have hname := isFileName_of_isName hid
    simp only [if_true, Work.ofResult_bind]
    refine ((works_kindOf hfiles _).mono (fun _ _ hkind => hkind) fun _ _ hno => hno.elim).bind
      fun kind s₁ hfound => ?_
    obtain ⟨hsame, hkind⟩ := hfound
    rw [← hsame] at h hkind
    split
    · next hdirectory =>
      obtain ⟨p, hhas⟩ := hkind (eq_of_beq hdirectory)
      obtain rfl := leadsTo_join (h.has hbase).resolves hname p hhas.resolves
      refine Work.works_ofExcept (Request.works_whole fun answer hanswer => ?_)
      have hcall := hfiles.call (.removeTree (settings.directory id)) s₁
      rw [hanswer] at hcall
      obtain ⟨rfl, hpruned⟩ := hcall.removeTree hhas
      show Catalogue base settings.root place (live.filter (·.id != id)) (files _)
      rw [hpruned]
      exact h.prune hbase hname
    · exact Work.works_fail h

end Deleting

end SqlBackup.Backup
