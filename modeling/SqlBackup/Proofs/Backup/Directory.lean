import Mathlib
import SqlBackup.Backup.Creation
import SqlBackup.Proofs.Files.Host
import SqlBackup.Proofs.Number.Digits
import SqlBackup.Proofs.Scripted.Making

/-!
# The directory of a backup

A backup is prepared once its databases are known and a directory of its own has been made. Until
then nothing else is changed but the directories on the way to the root.
-/
namespace SqlBackup

open Files.Path (IsName)
open Scripted (Tree Place)
open Scripted.Tree (Fresh Paved)

variable {σ : Type} {host : Host σ} {files : σ → Tree} {s : σ} {t u : Tree} {path : String}

namespace Scripted.Tree

/-- A directory is made where nothing is, or the call fails and nothing is changed. -/
theorem Answers.makeDirectory {answer : Except IoFault Unit}
    (h : t.Answers (.makeDirectory path) (.ok answer) u) :
    (answer = .ok () ∧ ∃ place, t.Fresh path place ∧ u = t.put place .directory) ∨
      ((∃ fault, answer = .error fault) ∧ u = t) := by
  generalize hreply : (Except.ok answer :
    Except String (Files.Call.Reply (.makeDirectory path))) = reply at h
  cases h with
  | done =>
    obtain rfl := Except.ok.inj hreply
    rcases hmade : t.makeDirectory path with ⟨fault | ⟨⟩, v⟩
    · refine .inr ⟨⟨fault, congrArg Prod.fst hmade⟩, ?_⟩
      exact (congrArg Prod.snd hmade).trans (edit_eq_error hmade)
    · obtain ⟨place, hplace, hfree, rfl⟩ := makeDirectory_eq_ok hmade
      exact .inl ⟨congrArg Prod.fst hmade, place, ⟨hplace, hfree⟩, congrArg Prod.snd hmade⟩
  | refused _ fault _ =>
    obtain rfl := Except.ok.inj hreply
    exact .inr ⟨⟨fault, rfl⟩, rfl⟩

/-- However the making of directories ends, some of those along the path may have been made. -/
theorem Answers.makeDirectories {reply : Except String (Files.Call.Reply (.makeDirectories path))}
    (h : t.Answers (.makeDirectories path) reply u) : Paved path t u := by
  cases h with
  | done => exact paved_makeDirectories path t
  | refused => exact paved_refl path t
  | halted _ fault hnames => exact ⟨_, hnames, rfl⟩

/-- A directory that is there is removed. -/
theorem Answers.removeTree {answer : Except IoFault Unit} {place : Place}
    (h : t.Answers (.removeTree path) (.ok answer) u) (hhas : t.Has path place) :
    answer = .ok () ∧ u = t.prune place := by
  generalize hreply : (Except.ok answer :
    Except String (Files.Call.Reply (.removeTree path))) = reply at h
  cases h with
  | done =>
    obtain rfl := Except.ok.inj hreply
    exact Prod.mk.inj hhas.removeTree
  | refused _ fault h => exact absurd rfl (h path)

/-- What a directory is said to be is one. -/
theorem Answers.exists_has (h : t.Answers (.kind path) (.ok (some .directory)) u) :
    ∃ place, t.Has path place := by
  have hkind : (t.open? path).toOption.map Files.Entry.kind = some .directory :=
    congrArg Prod.fst (h.eq_call nofun)
  rcases hentry : t.open? path with fault | (bytes | _)
  · rw [hentry] at hkind
    cases hkind
  · rw [hentry] at hkind
    cases hkind
  · exact Tree.exists_has hentry

end Scripted.Tree

namespace Backup

variable {settings : Settings}

/-! ### Names of backups -/

/-- A backup made at this time has this name: that of the time, or the same with a number. -/
def IsNamed (id : String) (i : Calendar.Instant) : Prop := ∃ n, id = numbered i.compact n

/-- The time in digits has nothing else but a dash, up to the year 9999. Later years have a plus
sign. -/
theorem mem_compact {i : Calendar.Instant} {c : Char} (h : c ∈ i.compact.toList) :
    c = '-' ∨ c.isDigit = true ∨ c = '+' ∧ 9999 < i.date.year := by
  have hdigits (width n : Nat) (hmem : c ∈ (Number.padded width n).toList) : c.isDigit = true :=
    Number.isDigits_padded width n c hmem
  have hyear (hmem : c ∈ (Calendar.yearText i.date.year).toList) :
      c = '-' ∨ c.isDigit = true ∨ c = '+' ∧ 9999 < i.date.year := by
    rw [Calendar.yearText] at hmem
    split_ifs at hmem with hneg hlate
    · rcases List.mem_cons.mp (by simpa using hmem) with rfl | hmem
      · exact .inl rfl
      · exact .inr (.inl (hdigits _ _ hmem))
    · rcases List.mem_cons.mp (by simpa using hmem) with rfl | hmem
      · exact .inr (.inr ⟨rfl, hlate⟩)
      · exact .inr (.inl (hdigits _ _ hmem))
    · exact .inr (.inl (hdigits _ _ hmem))
  simp only [Calendar.Instant.compact, String.toList_append, List.mem_append] at h
  rcases h with (((((h | h) | h) | h) | h) | h) | h
  · exact hyear h
  · exact .inr (.inl (hdigits _ _ h))
  · exact .inr (.inl (hdigits _ _ h))
  · exact .inl (by simpa using h)
  · exact .inr (.inl (hdigits _ _ h))
  · exact .inr (.inl (hdigits _ _ h))
  · exact .inr (.inl (hdigits _ _ h))

theorem toList_numbered (stamp : String) (n : Nat) :
    ∃ suffix, (numbered stamp n).toList = stamp.toList ++ suffix ∧
      ∀ c ∈ suffix, c = '-' ∨ c.isDigit = true := by
  rw [numbered]
  split
  · exact ⟨[], by simp, by simp⟩
  · refine ⟨'-' :: (toString n).toList, by simp [String.toList_append], fun c hc => ?_⟩
    rcases List.mem_cons.mp hc with rfl | hc
    · exact .inl rfl
    · exact .inr (Number.isDigits_toString n c hc)

theorem isName_iff {id : String} : isName id = true ↔
    (∃ c, id.toList.head? = some c ∧ c ≠ '.') ∧ ∀ c ∈ id.toList, isNameChar c = true := by
  rw [isName]
  cases id.toList with
  | nil => simp
  | cons c cs => simp

namespace IsNamed

variable {id : String} {i : Calendar.Instant} (h : IsNamed id i)
include h

theorem mem {c : Char} (hc : c ∈ id.toList) :
    c = '-' ∨ c.isDigit = true ∨ c = '+' ∧ 9999 < i.date.year := by
  obtain ⟨n, rfl⟩ := h
  obtain ⟨suffix, hlist, hsuffix⟩ := toList_numbered i.compact n
  rw [hlist, List.mem_append] at hc
  rcases hc with hmem | hmem
  · exact mem_compact hmem
  · exact (hsuffix c hmem).imp_right .inl

theorem mem_of_compact {c : Char} (hc : c ∈ i.compact.toList) : c ∈ id.toList := by
  obtain ⟨n, rfl⟩ := h
  obtain ⟨suffix, hlist, -⟩ := toList_numbered i.compact n
  exact hlist ▸ List.mem_append_left suffix hc

theorem dash_mem : '-' ∈ id.toList :=
  h.mem_of_compact (by simp [Calendar.Instant.compact, String.toList_append])

theorem isName : IsName id := by
  have hne {text : String} (htext : '-' ∉ text.toList) : id ≠ text :=
    fun heq => htext (heq ▸ h.dash_mem)
  refine ⟨fun hslash => ?_, hne (by decide), hne (by decide), hne (by decide)⟩
  rcases h.mem hslash with hdash | hdigit | ⟨hplus, -⟩
  · cases hdash
  · cases hdigit
  · cases hplus

/-- A backup can be asked for by its name if it was made up to the year 9999. -/
theorem isName_iff : Backup.isName id = true ↔ i.date.year ≤ 9999 := by
  rw [Backup.isName_iff]
  constructor
  · rintro ⟨-, hall⟩
    by_contra hlate
    rw [not_le] at hlate
    have hneg : ¬ i.date.year < 0 := by omega
    have hplus : '+' ∈ i.compact.toList := by
      simp [Calendar.Instant.compact, String.toList_append, Calendar.yearText, hneg, hlate]
    cases hall '+' (h.mem_of_compact hplus)
  · intro hyear
    have hmem {c : Char} (hc : c ∈ id.toList) : c = '-' ∨ c.isDigit = true :=
      (h.mem hc).imp_right fun hc => hc.resolve_right fun hlate => by omega
    constructor
    · obtain ⟨c, cs, hcs⟩ := List.exists_cons_of_ne_nil (List.ne_nil_of_mem h.dash_mem)
      refine ⟨c, by rw [hcs, List.head?_cons], ?_⟩
      rintro rfl
      have hdot : '.' ∈ id.toList := by simp [hcs]
      rcases hmem hdot with hdash | hdigit
      · cases hdash
      · cases hdigit
    · intro c hc
      rcases hmem hc with rfl | hdigit
      · rfl
      · simp [isNameChar, Char.isAlphanum, hdigit]

end IsNamed

/-! ### Preparing -/

/-- In a tree as it was but for the way to the root, a directory has been made for a backup. -/
def HasPlace (settings : Settings) (t : Tree) (id : String) (u : Tree) : Prop :=
  ∃ v place, Paved settings.root t v ∧ v.Fresh (settings.directory id) place ∧
    u = v.put place .directory

section Works

variable (hfiles : host.HasFiles files)
include hfiles

theorem works_claim (i : Calendar.Instant) (trials n : Nat)
    (hpaved : Paved settings.root t (files s)) :
    (claim settings i.compact trials n).Works host .whole s
      (fun id s' => IsNamed id i ∧ HasPlace settings t id (files s'))
      (fun _ s' => Paved settings.root t (files s')) := by
  induction trials generalizing n s with
  | zero => exact Work.works_fail hpaved
  | succ trials ih =>
    rw [claim]
    refine Work.Works.bind (m := fun answer s' =>
      (answer = .ok () ∧ HasPlace settings t (numbered i.compact n) (files s')) ∨
        ((∃ fault, answer = .error fault) ∧ Paved settings.root t (files s'))) ?_ ?_
    · refine Work.works_ofJob (Request.works_whole fun answer hanswer => ?_)
      have hcall := hfiles.call (.makeDirectory (settings.directory (numbered i.compact n))) s
      rw [hanswer] at hcall
      rcases hcall.makeDirectory with ⟨rfl, place, hfresh, hput⟩ | ⟨hfault, hsame⟩
      · exact .inl ⟨rfl, _, place, hpaved, hfresh, hput⟩
      · exact .inr ⟨hfault, hsame ▸ hpaved⟩
    · rintro answer s' (⟨rfl, hplace⟩ | ⟨⟨fault, rfl⟩, hpaved'⟩)
      · exact Work.works_pure ⟨⟨n, rfl⟩, hplace⟩
      · split
        · next h => cases h
        · exact ih (n + 1) hpaved'
        · exact Work.works_fail hpaved'

theorem works_allocate (i : Calendar.Instant) :
    (allocate settings i).Works host .whole s
      (fun id s' => IsNamed id i ∧ HasPlace settings (files s) id (files s'))
      (fun _ s' => Paved settings.root (files s) (files s')) := by
  rw [allocate]
  refine Work.Works.bind (m := fun _ s' => Paved settings.root (files s) (files s')) ?_
    fun _ s' hpaved => works_claim hfiles i nameTrials 0 hpaved
  refine Work.works_ofExcept (Request.works_whole fun answer hanswer => ?_)
  have hcall := hfiles.call (.makeDirectories settings.root) s
  rw [hanswer] at hcall
  have hpaved := hcall.makeDirectories
  cases answer with
  | error fault => exact hpaved
  | ok value => exact hpaved

end Works

/-! ### Databases -/

/-- The databases that a request means, if the server lists these: those that it names, or else all
but the server's own, each of them once. -/
def meant (requested listed : List String) : List String :=
  if requested.isEmpty then
    listed.filter fun database => !Sql.systemDatabases.contains database
  else requested.eraseDups

/-- What the server lists if it is asked for its databases as soon as the session is there. -/
def Lists (host : Host σ) (settings : Settings) (s : σ) (listed : List String) : Prop :=
  ∀ session result, (settings.connect.run.run host s).1.result = .ok (.ok session) →
    (host.answer (.session session (.query Sql.listDatabases))
      (settings.connect.run.run host s).2).1.reply = .ok (.ok result) →
    result.firstColumn = listed

theorem nodup_eraseDups {names : List String} : names.eraseDups.Nodup := by
  induction hn : names.length using Nat.strongRecOn generalizing names with
  | ind n ih =>
    cases names with
    | nil => simp
    | cons name names =>
      rw [List.eraseDups_cons, List.nodup_cons]
      refine ⟨by simp, ih _ ?_ rfl⟩
      have hfilter := List.length_filter_le (fun other => !other == name) names
      simp only [List.length_cons] at hn
      omega

theorem nodup_meant {requested listed : List String} (h : listed.Nodup) :
    (meant requested listed).Nodup := by
  rw [meant]
  split
  · exact h.filter _
  · exact nodup_eraseDups

section Choice

variable (hfiles : host.HasFiles files)
include hfiles

theorem works_silentWhole {request : SqlBackup.Request} (h : ∀ call, request ≠ .file call) :
    request.Works host .whole s fun _ s' => files s' = files s :=
  Request.works_whole fun _ _ => hfiles.silent request s h

omit hfiles in
theorem works_silentExcept {ε α : Type} {fault : ε → Fault} {j : Job (Except ε α)}
    (h : j.Works host .whole s fun _ s' => files s' = files s) :
    (Work.ofExcept fault j).Works host .whole s (fun _ s' => files s' = files s)
      (fun _ s' => files s' = files s) :=
  Work.works_ofExcept (h.mono fun answer _ hsame => by cases answer <;> exact hsame)

theorem works_silentCall (session : Session) (call : Session.Call) :
    (session.call call).Works host .whole s (fun _ s' => files s' = files s)
      (fun _ s' => files s' = files s) :=
  works_silentExcept (works_silentWhole hfiles (by simp))

theorem works_connect : settings.connect.Works host .whole s
    (fun session s' => files s' = files s ∧
      (settings.connect.run.run host s).1.result = .ok (.ok session) ∧
        s' = (settings.connect.run.run host s).2)
    (fun _ s' => files s' = files s) := by
  have hsame : settings.connect.Works host .whole s (fun _ s' => files s' = files s)
      (fun _ s' => files s' = files s) := by
    rw [Settings.connect]
    refine (works_silentExcept (j := .request .acquire)
      (works_silentWhole hfiles (by simp))).bind fun session s₁ h₁ => ?_
    refine ((works_silentCall hfiles session (.ping settings.livenessLimit)).mono
      (fun _ _ h => h.trans h₁) fun _ _ h => h.trans h₁).bind fun _ s₂ h₂ => ?_
    exact Work.works_pure h₂
  refine Job.Works.mono (hsame.and (Job.works_run host settings.connect.run s)) ?_
  rintro (fault | session) s' ⟨hfiles', hrun⟩
  · exact hfiles'
  · exact ⟨hfiles', hrun⟩

/-- The databases are those that are meant. -/
theorem works_chooseDatabases {requested listed : List String} {session : Session} {s₀ : σ}
    (hlisted : requested = [] → Lists host settings s₀ listed)
    (hrun : (settings.connect.run.run host s₀).1.result = .ok (.ok session))
    (hs : s = (settings.connect.run.run host s₀).2) :
    (chooseDatabases session requested).Works host .whole s
      (fun databases s' => databases = meant requested listed ∧ files s' = files s)
      (fun _ s' => files s' = files s) := by
  rw [chooseDatabases, meant]
  split
  · next hempty =>
    refine Work.Works.bind (m := fun result s' =>
      result.firstColumn = listed ∧ files s' = files s) ?_ fun result s' ⟨hresult, hsame⟩ => ?_
    · refine Work.works_ofExcept (Request.works_whole fun answer hanswer => ?_)
      have hsame := hfiles.silent (.session session (.query Sql.listDatabases)) s (by simp)
      cases answer with
      | error fault => exact hsame
      | ok result =>
        refine ⟨hlisted (List.isEmpty_iff.mp hempty) session result hrun ?_, hsame⟩
        rw [← hs]
        exact hanswer
    · exact Work.works_pure ⟨by rw [hresult], hsame⟩
  · exact Work.works_pure ⟨rfl, rfl⟩

/-- Before there is a draft, nothing has been changed but on the way to the root. With it, there
is a directory for its backup. -/
theorem works_prepare {request : Backup.Request} {listed : List String}
    (hlisted : request.databases = [] → Lists host settings s listed) :
    (prepare settings request).Works host .whole s
      (fun draft s' => draft.databases = meant request.databases listed ∧
        IsNamed draft.id draft.timestamp ∧ HasPlace settings (files s) draft.id (files s'))
      (fun _ s' => Paved settings.root (files s) (files s')) := by
  have hunpaved {s' : σ} (h : files s' = files s) : Paved settings.root (files s) (files s') :=
    h ▸ Scripted.Tree.paved_refl settings.root (files s)
  rw [prepare]
  refine ((works_connect hfiles).mono (fun _ _ h => h) fun _ _ h => hunpaved h).bind
    fun session s₁ ⟨h₁, hrun, hs₁⟩ => ?_
  refine ((works_chooseDatabases hfiles hlisted hrun hs₁).mono (fun _ _ h => h) fun _ _ h =>
    hunpaved (h.trans h₁)).bind fun databases s₂ ⟨hdatabases, h₂⟩ => ?_
  split
  · exact Work.works_fail (hunpaved (h₂.trans h₁))
  · refine Work.Works.bind (m := fun _ s' => files s' = files s) ?_ fun timestamp s₃ h₃ => ?_
    · refine Work.works_ofJob ((works_silentWhole hfiles (by simp)).mono fun _ _ h => ?_)
      exact h.trans (h₂.trans h₁)
    · rw [← h₃]
      refine (works_allocate hfiles timestamp).bind fun id s₄ hplace => ?_
      exact Work.works_pure ⟨hdatabases, hplace⟩

end Choice

end Backup

end SqlBackup
