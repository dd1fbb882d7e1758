import Mathlib
import SqlBackup.Proofs.Load.Offsets

/-!
# The delimiter that a load reports

A load reports the offset of the last statement and the delimiter at the end of the file. With the
delimiter that is in effect at the offset, nothing is left to load from there. The delimiter reported
is that one if no directive follows. If one does, nothing is left with the delimiter reported
either, as long as neither of the two stands in front of the directive.
-/
namespace SqlBackup.Load

open Scan

variable {σ : Type} {host : Host σ} {files : σ → Scripted.Tree} {bytes : List UInt8}
  {session : Session} {options : Options} {s s' : σ} {talk : List Exchange} {stats : Stats}

/-- The same load from another offset, with the delimiter there. -/
def Options.resumed (options : Options) (offset : Nat) (d : Delimiter) : Options :=
  { options with resumeOffset := offset, resumeDelimiter := d }

/-- What a scanner of a dump goes by. -/
def Options.settings (options : Options) : Settings :=
  Settings.inEffect { name := options.path, limit := options.statementLimit }

theorem Options.results_scannerOf (options : Options) (bytes : List UInt8) :
    (options.scannerOf bytes).results =
      (State.initial options.resumeOffset options.resumeDelimiter).transcript options.settings
        (options.resumeOffset == 0) (bytes.drop options.resumeOffset) :=
  Scanner.results_ofSource _ _ _ _

theorem Options.results_resumed (options : Options) (bytes : List UInt8) {offset : Nat}
    (h : offset ≠ 0) (d : Delimiter) :
    ((options.resumed offset d).scannerOf bytes).results =
      (State.initial offset d).transcript options.settings false (bytes.drop offset) := by
  have hzero : (offset == 0) = false := by simpa using h
  rw [Options.results_scannerOf]
  show State.transcript _ _ (offset == 0) _ = _
  rw [hzero]
  rfl

/-- From behind a statement, with the delimiter in effect there, the rest of the transcript is the
transcript of the rest. -/
theorem Options.results_behind (hstart : options.resumeOffset = 0)
    (hdelimiter : options.resumeDelimiter.EndsInLine) {front rest : List Result}
    {statement : Statement} {d : Delimiter} {p : Nat}
    (hresults : (options.scannerOf bytes).results =
      front ++ ⟨.ok (some statement), d, p⟩ :: rest) (hpositive : statement.endOffset ≠ 0) :
    ((options.resumed statement.endOffset d).scannerOf bytes).results = rest := by
  rw [options.results_scannerOf] at hresults
  obtain ⟨read, left, hbytes, hoffset, -, hrest⟩ := State.transcript_resume hdelimiter hresults
  have hlength : statement.endOffset = read.length := by
    rw [hoffset]
    show options.resumeOffset + read.length = _
    rw [hstart, Nat.zero_add]
  rw [hstart, List.drop_zero] at hbytes
  rw [options.results_resumed bytes hpositive, hrest, hbytes, hlength, List.drop_left]

/-- Nothing is left to load: the scanner yields neither a statement nor a fault, and comes to the
end with this delimiter, and no load executes anything. -/
structure Exhausted (host : Host σ) (files : σ → Scripted.Tree) (bytes : List UInt8)
    (session : Session) (options : Options) (d : Delimiter) : Prop where
  results_eq : (options.scannerOf bytes).results = [⟨.ok none, d, bytes.length⟩]
  silent : ∀ s talk stats s', Pass host files bytes session options s talk stats s' →
    talk.filterMap Exchange.inside? = []

theorem exhausted_of_results (hfiles : host.HasFiles files) {d : Delimiter}
    (h : (options.scannerOf bytes).results = [⟨.ok none, d, bytes.length⟩]) :
    Exhausted host files bytes session options d := by
  refine ⟨h, fun s talk stats s' hpass => ?_⟩
  obtain ⟨-, -, blocks, haccounted⟩ := reads_of_dump hfiles hpass.file hpass.load hpass.format
  have hnone : (options.scannerOf bytes).statements = [] := by
    rw [Scanner.statements, h]
    rfl
  have honce := haccounted.once
  rw [hnone, List.sublist_nil] at honce
  rw [haccounted.executed, honce, List.map_nil]

/-- What a load has read that read a statement: the last statement, with the delimiter in effect
behind it, and the end of the file. -/
theorem Pass.exists_last (hfiles : host.HasFiles files)
    (hpass : Pass host files bytes session options s talk stats s')
    (hle : options.resumeOffset ≤ bytes.length) (hdelimiter : options.resumeDelimiter.EndsInLine)
    (hread : (options.scannerOf bytes).statements ≠ []) :
    ∃ front statement d p, (options.scannerOf bytes).results =
        front ++ [⟨.ok (some statement), d, p⟩, ⟨.ok none, .ofBytes stats.delimiter, bytes.length⟩] ∧
      stats.endOffset = statement.endOffset := by
  obtain ⟨-, ⟨front, d, hreads⟩, -⟩ := reads_of_dump hfiles hpass.file hpass.load hpass.format
  have hadvanced := hpass.advanced hfiles hle
  have hresults := hreads.results_eq
  have hd : d.EndsInLine := by
    rw [options.results_scannerOf] at hresults
    rcases State.delimiter_transcript ⟨.ok none, d, stats.bytesRead⟩
      (by rw [hresults]; simp) with hsame | ⟨-, hset⟩
    · obtain rfl : d = options.resumeDelimiter := hsame
      exact hdelimiter
    · exact hset
  rw [← Delimiter.ofBytes_bytes hd, ← hreads.delimiter, hadvanced.bytesRead] at hresults
  rcases List.eq_nil_or_concat front with rfl | ⟨front, r, rfl⟩
  · simp [Scanner.statements, hresults, Result.statement?] at hread
  · rw [List.concat_eq_append] at hresults hreads
    obtain ⟨statement, hstatement⟩ := hreads.statements r (by simp)
    obtain ⟨answer, d', p⟩ := r
    cases hstatement
    refine ⟨front, statement, d', p, by simpa using hresults, ?_⟩
    rw [hreads.endOffset]
    simp [endOffsets, Result.statement?]

/-- From the offset that a load of a whole file reports, nothing is left with the delimiter in effect
there. With the delimiter reported nothing is left if no directive follows, or if neither delimiter
stands in front of the first that does. -/
theorem exhausted_of_pass (host : Host σ) (files : σ → Scripted.Tree) (hfiles : host.HasFiles files)
    (bytes : List UInt8) (session : Session) (options : Options) (s s' : σ) (talk : List Exchange)
    (stats : Stats) (hpass : Pass host files bytes session options s talk stats s')
    (hstart : options.resumeOffset = 0) (hdelimiter : options.resumeDelimiter.EndsInLine)
    (hread : (options.scannerOf bytes).statements ≠ []) :
    ∃ front statement d p,
      (options.scannerOf bytes).results = front ++
        [⟨.ok (some statement), d, p⟩, ⟨.ok none, .ofBytes stats.delimiter, bytes.length⟩] ∧
      stats.endOffset = statement.endOffset ∧
      Exhausted host files bytes session (options.resumed stats.endOffset d)
        (.ofBytes stats.delimiter) ∧
      (NoDirective options.settings false (bytes.drop stats.endOffset) →
        .ofBytes stats.delimiter = d) ∧
      (NoDirective options.settings false (bytes.drop stats.endOffset) ∨
          (State.initial stats.endOffset d).meetsDirective options.settings
            (.ofBytes stats.delimiter) false (bytes.drop stats.endOffset) = true →
        Exhausted host files bytes session
          (options.resumed stats.endOffset (.ofBytes stats.delimiter))
          (.ofBytes stats.delimiter)) := by
  have hle : options.resumeOffset ≤ bytes.length := hstart ▸ Nat.zero_le _
  obtain ⟨front, statement, d, p, hresults, hend⟩ :=
    hpass.exists_last hfiles hle hdelimiter hread
  have hpositive : stats.endOffset ≠ 0 := by
    have hadvanced := hpass.advanced hfiles hle
    have hmem : statement ∈ (options.scannerOf bytes).statements := by
      simp [Scanner.statements, hresults, Result.statement?]
    rw [hend]
    exact Nat.ne_of_gt (hstart ▸ hadvanced.lt_of_mem hmem)
  have hleft : ((options.resumed stats.endOffset d).scannerOf bytes).results =
      [⟨.ok none, .ofBytes stats.delimiter, bytes.length⟩] := by
    rw [hend] at hpositive ⊢
    exact Options.results_behind hstart hdelimiter hresults hpositive
  have hsame (hnone : NoDirective options.settings false (bytes.drop stats.endOffset)) :
      .ofBytes stats.delimiter = d := by
    rw [options.results_resumed bytes hpositive] at hleft
    rcases State.delimiter_transcript ⟨.ok none, .ofBytes stats.delimiter, bytes.length⟩
      (by rw [hleft]; simp) with hsame | ⟨hno, -⟩
    · exact hsame
    · exact absurd hnone hno
  refine ⟨front, statement, d, p, hresults, hend, exhausted_of_results hfiles hleft, hsame, ?_⟩
  rintro (hnone | hmeets)
  · rw [hsame hnone] at hleft ⊢
    exact exhausted_of_results hfiles hleft
  · refine exhausted_of_results hfiles ?_
    rw [options.results_resumed bytes hpositive] at hleft ⊢
    rw [← hleft, ← State.transcript_delimited hmeets]
    rfl

/-! ### Dumps with a directive behind the last statement -/

def slashed : List UInt8 := Text.Utf8.encode "DELIMITER //\na// b//\n-- c\nDELIMITER ;\n"

/-- The directive behind the last statement sets the delimiter that is reported. In front of it stand
a comment and neither delimiter, so that nothing is left with the one or the other. -/
theorem exhausted_of_slashed :
    ∃ talk stats s', Pass Scripted.host Scripted.World.files slashed default (resuming 0 semicolon)
        (worldWith slashed) talk stats s' ∧
      stats.endOffset = 20 ∧ stats.delimiter = [0x3B] ∧
      Exhausted Scripted.host Scripted.World.files slashed default
        ((resuming 0 semicolon).resumed 20 (.ofBytes [0x2F, 0x2F])) semicolon ∧
      Exhausted Scripted.host Scripted.World.files slashed default
        ((resuming 0 semicolon).resumed 20 semicolon) semicolon := by
  obtain ⟨talk, stats, s', hpass, hend, hdelimiter, -⟩ :=
    @exists_pass slashed 0 20 semicolon [0x3B] (by decide +kernel)
  obtain ⟨front, statement, d, p, hresults, -, heffect, -, hreported⟩ :=
    exhausted_of_pass Scripted.host Scripted.World.files Scripted.hasFiles_host slashed default
      (resuming 0 semicolon) _ s' talk stats hpass rfl endsInLine_semicolon (by decide +kernel)
  have hsemicolon : .ofBytes stats.delimiter = semicolon := by
    rw [hdelimiter]
    rfl
  have hshown : ((resuming 0 semicolon).scannerOf slashed).results.map (·.delimiter.bytes) =
      [[0x2F, 0x2F]] ++ [[0x2F, 0x2F], [0x3B]] := by decide +kernel
  obtain rfl : d = .ofBytes [0x2F, 0x2F] := by
    rw [hresults, List.map_append] at hshown
    have hbytes := (List.append_inj' hshown rfl).2
    exact Delimiter.ext_bytes (List.cons.inj hbytes).1
  have hmeets : (State.initial 20 (.ofBytes [0x2F, 0x2F])).meetsDirective
      (resuming 0 semicolon).settings semicolon false (slashed.drop 20) = true := by
    decide +kernel
  rw [hend, hsemicolon] at heffect hreported
  exact ⟨talk, stats, s', hpass, hend, hdelimiter, heffect, hreported (.inr hmeets)⟩

def dollars : List UInt8 := Text.Utf8.encode "SELECT 1;\n;\nDELIMITER $$\n"

/-- A statement without text stands in front of the directive. With the delimiter reported it is taken
for the first part of a statement, which no load of the whole file executes. -/
theorem sql_of_dollars :
    (∃ talk stats s', Pass Scripted.host Scripted.World.files dollars default (resuming 0 semicolon)
        (worldWith dollars) talk stats s' ∧
      stats.endOffset = 9 ∧ stats.delimiter = [0x24, 0x24] ∧
      talk.filterMap Exchange.inside? = ["SELECT 1"]) ∧
    ∃ talk stats s', Pass Scripted.host Scripted.World.files dollars default
        ((resuming 0 semicolon).resumed 9 (.ofBytes [0x24, 0x24])) (worldWith dollars) talk stats
        s' ∧
      talk.filterMap Exchange.inside? = [";\nDELIMITER"] := by
  constructor
  · obtain ⟨talk, stats, s', hpass, hend, hdelimiter, herrors⟩ :=
      @exists_pass dollars 0 9 semicolon [0x24, 0x24] (by decide +kernel)
    refine ⟨talk, stats, s', hpass, hend, hdelimiter, ?_⟩
    rw [hpass.sql_eq Scripted.hasFiles_host rfl herrors]
    decide +kernel
  · obtain ⟨talk, stats, s', hpass, -, -, herrors⟩ :=
      @exists_pass dollars 9 24 (.ofBytes [0x24, 0x24]) [0x24, 0x24] (by decide +kernel)
    refine ⟨talk, stats, s', hpass, ?_⟩
    rw [hpass.sql_eq Scripted.hasFiles_host rfl herrors]
    decide +kernel

end SqlBackup.Load
