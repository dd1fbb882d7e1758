import Mathlib
import SqlBackup.Proofs.Backup.Changes

/-!
# A backup stays in its directory

At every moment of its making a backup has changed nothing but in a directory that is its own and
was not there before, and on the way to it. The exports have a dump each, and if one of them fails
the directory goes with all that is in it. All of that takes names of databases without a slash: the
name of a dump is that of its database, and with a slash in it a path leads elsewhere.
-/
namespace SqlBackup

open Files.Path (IsName join)
open Scripted (Tree Place World)
open Scripted.Tree (AgreeOff Alike Fresh Keeps LeadsTo Paved Spared)

variable {σ : Type} {host : Host σ} {files : σ → Tree} {s s' : σ} {t u : Tree} {place : Place}
  {directory : String}

/-- The path of a new directory leads there, whatever is done in the directory. -/
theorem Scripted.Tree.Fresh.leadsTo (h : t.Fresh directory place) (hagree : AgreeOff place t u) :
    u.LeadsTo directory place := by
  intro p hp
  obtain ⟨hplace, -⟩ := Scripted.Tree.resolve_of_agreeOff hagree h.closed h.resolves
  exact Except.ok.inj (hp.symm.trans hplace)

theorem Files.Path.join_injOn (directory : String) :
    Set.InjOn (join directory) {name | IsName name} := by
  intro a ha b hb h
  have hname := congrArg fileName? h
  rw [fileName?_join directory ha, fileName?_join directory hb] at hname
  exact Option.some.inj hname

namespace Backup

variable {settings : Settings} {request : Request} {id : String} {asked : SqlBackup.Request}

/-! ### Single requests -/

/-- What is asked before there is a directory takes nothing away. -/
theorem Prepares.keeps (hfiles : host.HasFiles files) (h : Prepares settings asked) :
    Keeps (files s) (files (host.answer asked s).2) := by
  cases h with
  | silent hsilent =>
    rw [hfiles.silent asked s hsilent]
    exact .refl _
  | root => exact (hfiles.call (.makeDirectories settings.root) s).makeDirectories.keeps
  | @directory id i hnamed =>
    have hcall := hfiles.call (.makeDirectory (settings.directory id)) s
    obtain ⟨answer, hanswer⟩ := hcall.exists_ok
    rw [hanswer] at hcall
    rcases hcall.makeDirectory with ⟨-, p, hfresh, hput⟩ | ⟨-, hsame⟩
    · rw [hput]
      exact Scripted.Tree.keeps_put hfresh.free _
    · rw [hsame]
      exact .refl _

/-- What is asked once there is a directory changes nothing elsewhere. -/
theorem Fills.agreeOff (hfiles : host.HasFiles files) (hid : IsName id)
    (hleads : (files s).LeadsTo (settings.directory id) place)
    (h : Fills (settings.directory id) asked) :
    AgreeOff place (files s) (files (host.answer asked s).2) := by
  have hfile {name : String} (hname : IsName name) :
      (files s).LeadsTo (join (settings.directory id) name) (place ++ [name]) :=
    hleads.join (isDirectory_of_isName settings.root hid) hname
  cases h with
  | writes hwrites =>
    obtain ⟨name, hname, -, hon⟩ := hwrites
    cases asked with
    | file call => exact ((hfiles.call call s).agreeOff hon (hfile hname)).above
    | _ =>
      rw [hfiles.silent _ s (by simp)]
      exact AgreeOff.refl place _
  | rename =>
    exact (hfiles.call _ s).agreeOff_rename (hfile Manifest.isName_draftFilename)
      (hfile Manifest.isName_filename)
  | removeTree => exact ((hfiles.call _ s).thinned hleads).agree

/-! ### At every moment -/

/-- A backup has changed nothing but in a new directory of its own and on the way to that, and has
asked for nothing but that. -/
structure Confined (settings : Settings) (t : Tree) (talk : List Asked) (id : String) (u : Tree) :
    Prop where
  asked : ∀ asked ∈ talk,
    Prepares settings asked.request ∨ Fills (settings.directory id) asked.request
  changed : ∃ v place, Paved settings.root t v ∧ v.Fresh (settings.directory id) place ∧
    AgreeOff place v u

theorem Confined.fills (hfiles : host.HasFiles files) (hid : IsName id) {talk : List Asked}
    (hallowed : Fills (settings.directory id) asked)
    (h : Confined settings t talk id (files s)) :
    Confined settings t (talk ++ [⟨asked, (host.answer asked s).1.reply⟩]) id
      (files (host.answer asked s).2) := by
  obtain ⟨v, place, hpaved, hfresh, hagree⟩ := h.changed
  exact ⟨List.forall_mem_append.mpr ⟨h.asked, List.forall_mem_singleton.mpr (.inr hallowed)⟩,
    v, place, hpaved, hfresh,
    hagree.trans (hallowed.agreeOff hfiles hid (hfresh.leadsTo hagree))⟩

section Making

variable (hfiles : host.HasFiles files)
include hfiles

/-- As long as a backup is planned, directories are made and nothing else. -/
theorem keeps_of_planning {talk : List Asked}
    {rest : Job (Except Fault (Plan Manifest.File Manifest))}
    (hplan : (plan settings request).run.Advances host s talk rest s') :
    (∀ asked ∈ talk, Prepares settings asked.request) ∧ Keeps (files s) (files s') := by
  refine ((asks_plan settings request).advances (fun talk s' =>
    (∀ asked ∈ talk, Prepares settings asked.request) ∧ Keeps (files s) (files s'))
    (fun talk asked s' hallowed hs' => ?_) ⟨List.forall_mem_nil _, .refl _⟩ hplan).1
  exact ⟨List.forall_mem_append.mpr ⟨hs'.1, List.forall_mem_singleton.mpr hallowed⟩,
    hs'.2.trans (hallowed.keeps hfiles)⟩

variable {listed : List String}
  (hlisted : request.databases = [] → Lists host settings s listed) (hnodup : listed.Nodup)
  (hnames : ∀ database ∈ meant request.databases listed, '/' ∉ database.toList)
include hlisted hnodup hnames

/-- While the exports take turns, all is done in the directory. -/
theorem confined_of_running {talk : List Asked} {made : Plan Manifest.File Manifest} {s₁ : σ}
    {moves : List (Pool.Move Fault Manifest.File)} {turns : Pool.Turns σ Fault Manifest.File}
    (hplan : (plan settings request).run.Advances host s talk (.done (.ok made)) s₁)
    (hturns : Pool.History host (.start made.width (made.jobs.map ExceptT.run) s₁) moves turns) :
    ∃ draft : Draft, made.conclude = conclude settings request draft ∧ IsName draft.id ∧
      Confined settings (files s) (talk ++ moves.filterMap Pool.Move.exchange?) draft.id
        (files turns.host) := by
  obtain ⟨hprepares, -⟩ := keeps_of_planning hfiles hplan
  obtain ⟨draft, v, place, hjobs, hconclude, -, hpaved, hready, hput⟩ :=
    ready_of_planned hfiles hlisted hnodup hnames hplan
  have hid := hready.named.isName
  have hstart : Confined settings (files s) talk draft.id (files s₁) := by
    refine ⟨fun asked hasked => .inl (hprepares asked hasked), v, place, hpaved, hready.fresh, ?_⟩
    rw [hput]
    exact Scripted.Tree.agreeOff_put place v _
  rw [hjobs] at hturns
  refine ⟨draft, hconclude, hid, ?_⟩
  exact (hturns.asks (asks_exportJobs hready.noSlash)
    (fun talk s' => Confined settings (files s) talk draft.id (files s'))
    (fun talk asked s' hallowed hs' => hs'.fills hfiles hid (.writes hallowed)) hstart).1

/-- If a backup fails, nothing is left of it but directories on the way to the root. -/
theorem spared_of_failed {fault : Fault}
    (h : Plan.CarriesOut host (plan settings request) s (.ok (.error fault)) s') :
    Spared settings.root (files s) (files s') := by
  obtain ⟨_, -, hfailed, rfl⟩ | ⟨p, outcomes, t, hdone, hruns, hresult, rfl⟩ := h.of_ok
  · have hpaved := Job.Works.run (works_plan hfiles hlisted) hfailed
    exact Paved.spared hpaved fun _ => rfl
  · obtain ⟨talk, htalk⟩ := Job.exists_advances hdone
    obtain ⟨draft, v, place, hjobs, hconclude, -, hpaved, hready, hput⟩ :=
      ready_of_planned hfiles hlisted hnodup hnames htalk
    rw [hjobs] at hruns
    have houtcomes := hready.outcomes hfiles (hput ▸ hready.fresh.inside_put) hruns
    rw [hconclude] at hresult ⊢
    exact hpaved.spared ((works_conclude hfiles hready request houtcomes).run hresult)

end Making

/-- A backup of databases whose names have no slash stays in its directory. At every moment it has
changed nothing but in a new directory and on the way to that. Each of the exports touches no file
but one of the directory, and no two of them the same. After a failure nothing is left but
directories on the way to the root. -/
theorem confined_of_reaches (hfiles : host.HasFiles files) {listed : List String}
    (hlisted : request.databases = [] → Lists host settings s listed) (hnodup : listed.Nodup)
    (hnames : ∀ database ∈ meant request.databases listed, '/' ∉ database.toList) :
    (∀ talk calls made s', Plan.Reaches host (plan settings request) s talk calls made s' →
      ((∀ asked ∈ talk, Prepares settings asked.request) ∧ Keeps (files s) (files s')) ∨
        ∃ id, Confined settings (files s) talk id (files s')) ∧
    (∀ talk p s₁, (plan settings request).run.Advances host s talk (.done (.ok p)) s₁ →
      ∃ id c, Set.InjOn (fun database => join (settings.directory id) (dumpName database c))
          {database | database ∈ meant request.databases listed} ∧
        ∀ moves t, Pool.History host (.start p.width (p.jobs.map ExceptT.run) s₁) moves t →
          ∀ (i : Nat), ∀ asked ∈ Pool.askedBy i moves,
            ∃ database, (meant request.databases listed)[i]? = some database ∧
              IsName (dumpName database c) ∧
              asked.request.IsOn (join (settings.directory id) (dumpName database c))) ∧
    ∀ fault s', Plan.CarriesOut host (plan settings request) s (.ok (.error fault)) s' →
      Spared settings.root (files s) (files s') := by
  refine ⟨fun talk calls made s' hreaches => ?_, fun talk p s₁ hplan => ?_,
    fun fault s' => spared_of_failed hfiles hlisted hnodup hnames⟩
  · cases hreaches with
    | planning hplan => exact .inl (keeps_of_planning hfiles hplan)
    | running hplan hturns =>
      obtain ⟨draft, -, -, hconfined⟩ :=
        confined_of_running hfiles hlisted hnodup hnames hplan hturns
      exact .inr ⟨draft.id, hconfined⟩
    | concluding hplan hturns hover hconcluding =>
      obtain ⟨draft, hconclude, hid, hconfined⟩ :=
        confined_of_running hfiles hlisted hnodup hnames hplan hturns
      rw [hconclude] at hconcluding
      exact .inr ⟨draft.id, ((asks_conclude _).advances
        (fun talk s' => Confined settings (files s) talk draft.id (files s'))
        (fun talk asked s' hallowed hs' => hs'.fills hfiles hid hallowed) hconfined
        hconcluding).1⟩
  · obtain ⟨draft, v, place, hjobs, -, hdatabases, -, hready, -⟩ :=
      ready_of_planned hfiles hlisted hnodup hnames hplan
    have hdump {database : String} (h : database ∈ meant request.databases listed) :
        IsName (dumpName database draft.compression) := isName_dumpName (hnames _ h) _
    refine ⟨draft.id, draft.compression, fun a ha b hb hpath => ?_,
      fun moves t hturns i asked hasked => ?_⟩
    · exact dumpName_injective draft.compression
        (Files.Path.join_injOn _ (hdump ha) (hdump hb) hpath)
    · rw [hjobs] at hturns
      obtain ⟨job, rest, hjob, hleads⟩ := hturns.exists_leads hasked
      obtain ⟨database, hdatabase, hasks⟩ := asks_exportJob hjob
      rw [hdatabases] at hdatabase
      exact ⟨database, hdatabase, hdump (List.mem_of_getElem? hdatabase),
        (hasks.leads hleads).1 asked hasked⟩

/-- An empty root. -/
def emptyRoot : Tree := ⟨[(["b"], .directory)]⟩

def shopAndCrm : Request := { databases := ["shop", "crm"] }

/-- The second database gets no session, and then nothing is left of the dump of the first. -/
theorem confined_of_refused : ∃ fault w talk,
    create Scripted.host oneByOne shopAndCrm (crowded [] 2 emptyRoot) = (.ok (.error fault), w) ∧
    ((∀ asked ∈ talk, Prepares oneByOne asked.request) ∧ Keeps emptyRoot w.files ∨
      ∃ id, Confined oneByOne emptyRoot talk id w.files) ∧
    Alike emptyRoot w.files := by
  generalize hw : crowded [] 2 emptyRoot = w
  have hroot : w.files = emptyRoot := hw ▸ rfl
  have hends : ends (create Scripted.host oneByOne shopAndCrm w).1 = some false := by
    subst hw
    decide +kernel
  obtain ⟨fault, hfault⟩ := exists_fault hends
  have hcarries := Plan.carriesOut_carryOut Scripted.host (plan oneByOne shopAndCrm) w
  rw [← create, hfault] at hcarries
  obtain ⟨talk, hreaches⟩ := hcarries.reaches
  have hlisted : shopAndCrm.databases = [] → Lists Scripted.host oneByOne w [] :=
    fun hempty => absurd hempty (by decide)
  have hnames : ∀ database ∈ meant shopAndCrm.databases [], '/' ∉ database.toList := by decide
  obtain ⟨hmoments, -, hfailures⟩ :=
    confined_of_reaches Scripted.hasFiles_host hlisted List.nodup_nil hnames
  have hspared := hfailures fault _ hcarries
  rw [hroot] at hspared
  exact ⟨fault, _, talk, Prod.ext hfault rfl, hroot ▸ hmoments talk _ _ _ hreaches,
    hspared.same rfl⟩

/-- The path of the first dump leads out of the directory. -/
def climbing : Request := { databases := ["../x", "y"] }

/-- What is written beside the directory is left behind when the backup fails. -/
theorem left_of_climbing : ∃ fault w,
    create Scripted.host oneByOne climbing (crowded [] 2 emptyRoot) = (.ok (.error fault), w) ∧
    emptyRoot.namesAt ["b"] = [] ∧ w.files.namesAt ["b"] = ["x.sql"] := by
  have hends : ends (create Scripted.host oneByOne climbing (crowded [] 2 emptyRoot)).1 =
      some false ∧
    (create Scripted.host oneByOne climbing (crowded [] 2 emptyRoot)).2.files.namesAt ["b"] =
      ["x.sql"] := by decide +kernel
  obtain ⟨fault, hfault⟩ := exists_fault hends.1
  exact ⟨fault, _, Prod.ext hfault rfl, by decide, hends.2⟩

end Backup

end SqlBackup
