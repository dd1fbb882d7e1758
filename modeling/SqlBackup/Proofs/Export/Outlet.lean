import SqlBackup.Export.Outlet
import SqlBackup.Proofs.Job.Dialogue

/-!
# What an outlet has written

What has passed the buffer of an outlet and what the buffer still holds are together all that was
put, in its order, whatever the sizes of the buffer are. What has passed is in the file or, where
the dump is compressed, with the codec; then the file holds what an encoder has handed over.
-/
namespace SqlBackup.Export

open Codec (Encoder Feed Writer)
open Output (Buffered Sink WriteFault)

/-- A host that keeps a file at a path. `ready` is what else must hold for the file to be there. -/
structure Stores {σ : Type} (host : Host σ) (path : String) (ready : σ → Prop)
    (file : σ → Option (List UInt8)) : Prop where
  create : ∀ s, ready s →
    (host.answer (.file (.create path)) s).1.reply = .ok (.ok ()) ∧
      ready (host.answer (.file (.create path)) s).2 ∧
      file (host.answer (.file (.create path)) s).2 = some []
  append : ∀ s bytes stored, ready s → file s = some stored →
    (host.answer (.file (.append path bytes)) s).1.reply = .ok (.ok ()) ∧
      ready (host.answer (.file (.append path bytes)) s).2 ∧
      file (host.answer (.file (.append path bytes)) s).2 = some (stored ++ bytes)
  sync : ∀ s stored, ready s → file s = some stored →
    (host.answer (.file (.sync path)) s).1.reply = .ok (.ok ()) ∧
      ready (host.answer (.file (.sync path)) s).2 ∧
      file (host.answer (.file (.sync path)) s).2 = some stored
  size : ∀ s stored, ready s → file s = some stored →
    (host.answer (.file (.size path)) s).1.reply = .ok (.ok stored.length) ∧
      file (host.answer (.file (.size path)) s).2 = some stored

/-- How a text gets into a file. -/
inductive Way where
  | plain
  | packed (encoder : Encoder)
  | piped (program : String) (child : Nat)

variable {σ : Type} {host : Host σ} {path : String} {way : Way} {ready : σ → Prop}
  {file : σ → Option (List UInt8)} {s : σ} {writer : Writer} {stored : List UInt8}

/-- The state of a host that keeps these bytes in the file. -/
def Keeps (ready : σ → Prop) (file : σ → Option (List UInt8)) (stored : List UInt8) (s : σ) :
    Prop :=
  ready s ∧ file s = some stored

/-- A writer that has been given this text, and the bytes that it has put into the file. Those of an
encoder are its own affair. -/
inductive Given (path : String) : Way → Writer → List UInt8 → List UInt8 → Prop
  | plain (text : List UInt8) : Given path .plain (.plain path) text text
  | packed (encoder : Encoder) (told : List Feed) (hopen : .finish ∉ told) :
      Given path (.packed encoder) (.packed path encoder told) (Encoder.textOf told)
        (encoder.handed told)
  | piped (program : String) (child : Nat) (pieces : List (List UInt8)) :
      Given path (.piped program child) (.piped path program child pieces)
        pieces.reverse.flatten []

/-- What a file holds in the end that this text has got into in this way. -/
inductive Completed : Way → List UInt8 → List UInt8 → Prop
  | plain (text : List UInt8) : Completed .plain text text
  | packed (encoder : Encoder) (told : List Feed) (hopen : .finish ∉ told) :
      Completed (.packed encoder) (Encoder.textOf told) (encoder.handed (.finish :: told))

/-- The writer has been given these bytes, and what it has put into the file is there. -/
def Wrote (path : String) (way : Way) (ready : σ → Prop) (file : σ → Option (List UInt8))
    (writer : Writer) (stored : List UInt8) (s : σ) : Prop :=
  ∃ bytes, Given path way writer stored bytes ∧ Keeps ready file bytes s

theorem Wrote.isReady (h : Wrote path way ready file writer stored s) : ready s := by
  obtain ⟨_, -, hs⟩ := h
  exact hs.1

theorem Wrote.of_keeps {t : σ} (h : Wrote path way ready file writer stored s) (hready : ready t)
    (hfile : file t = file s) : Wrote path way ready file writer stored t := by
  obtain ⟨bytes, hgiven, hs⟩ := h
  exact ⟨bytes, hgiven, hready, hfile.trans hs.2⟩

theorem ends_run_bind {τ α β : Type} {x : StateT τ Job α} {f : α → StateT τ Job β} {w : τ}
    {wanted : β × τ → σ → Prop} : ((x >>= f).run w).Ends host s wanted ↔
      (x.run w).Ends host s fun p s => ((f p.1).run p.2).Ends host s wanted := by
  rw [StateT.run_bind]
  exact Job.ends_bind

section Sink

variable (hfile : Stores host path ready file)
include hfile

theorem ends_emit (hs : Keeps ready file stored s) (bytes : List UInt8) :
    (Writer.emit path bytes).Ends host s fun answer t =>
      answer = .ok () ∧ Keeps ready file (stored ++ bytes) t := by
  rw [Writer.emit]
  split
  · next hempty =>
    rw [List.isEmpty_iff.mp hempty, List.append_nil]
    exact ⟨rfl, hs⟩
  · obtain ⟨hreply, hready, happend⟩ := hfile.append s bytes stored hs.1 hs.2
    exact ⟨.ok (), hreply, rfl, hready, happend⟩

/-- What an encoder hands over arrives. -/
theorem ends_tell {encoder : Encoder} {told : List Feed} (feed : Feed)
    (hs : Keeps ready file (encoder.handed told) s) :
    (Writer.tell path encoder told feed).Ends host s fun p t =>
      p = (.ok (), .packed path encoder (feed :: told)) ∧
        Keeps ready file (encoder.handed (feed :: told)) t := by
  rw [Writer.tell]
  refine Job.ends_bind.mpr ((ends_emit hfile hs _).mono ?_)
  rintro _ t ⟨rfl, ht⟩
  exact ⟨rfl, ht⟩

theorem ends_sink (hs : Wrote path way ready file writer stored s) (bytes : List UInt8) :
    ((Outlet.sink.write bytes).run writer).Ends host s fun p t =>
      p.1 = .ok bytes.length ∧ Wrote path way ready file p.2 (stored ++ bytes) t := by
  obtain ⟨_, hgiven, hs⟩ := hs
  cases hgiven with
  | plain =>
    obtain ⟨hreply, hready, happend⟩ := hfile.append s bytes stored hs.1 hs.2
    exact ⟨.ok (), hreply, rfl, _, .plain _, hready, happend⟩
  | packed encoder told hopen =>
    refine Job.ends_bind.mpr ((ends_tell hfile (.text bytes) hs).mono ?_)
    rintro _ t ⟨rfl, ht⟩
    refine ⟨rfl, _, ?_, ht⟩
    rw [← Encoder.textOf_text]
    exact .packed encoder _ (by simp [hopen])
  | piped program child pieces =>
    have hpieces : pieces.reverse.flatten ++ bytes = (bytes :: pieces).reverse.flatten := by simp
    exact ⟨rfl, [], hpieces ▸ .piped program child (bytes :: pieces), hs⟩

theorem ends_sinkFlush (hs : Wrote path way ready file writer stored s) :
    (Outlet.sink.flush.run writer).Ends host s fun p t =>
      p.1 = .ok () ∧ Wrote path way ready file p.2 stored t := by
  obtain ⟨_, hgiven, hs⟩ := hs
  cases hgiven with
  | plain => exact ⟨rfl, _, .plain _, hs⟩
  | packed encoder told hopen =>
    refine (ends_tell hfile .flush hs).mono ?_
    rintro _ t ⟨rfl, ht⟩
    refine ⟨rfl, _, ?_, ht⟩
    rw [← Encoder.textOf_flush]
    exact .packed encoder _ (by simp [hopen])
  | piped program child pieces => exact ⟨rfl, _, .piped program child pieces, hs⟩

theorem ends_sync (hs : Keeps ready file stored s) :
    (Writer.sync path).run.Ends host s fun answer t =>
      answer = .ok () ∧ Keeps ready file stored t := by
  obtain ⟨hreply, hready, hkept⟩ := hfile.sync s stored hs.1 hs.2
  exact ⟨.ok (), hreply, rfl, hready, hkept⟩

/-- All bytes that are offered arrive. -/
theorem ends_push (hs : Wrote path way ready file writer stored s) (patience : Nat)
    (held : List UInt8) :
    ((Buffered.push Outlet.sink patience held).run writer).Ends host s fun p t =>
      p.1 = (.ok (), []) ∧ Wrote path way ready file p.2 (stored ++ held) t := by
  rw [Buffered.push.eq_def]
  split
  · next hempty =>
    subst hempty
    rw [List.append_nil]
    exact ⟨rfl, hs⟩
  · next hne =>
    rw [ends_run_bind]
    refine (ends_sink hfile hs held).mono ?_
    rintro ⟨_, writer⟩ t ⟨rfl, ht⟩
    have hlength : held.length ≠ 0 := by simpa using hne
    simp only [hlength, ↓reduceDIte, List.drop_length]
    rw [Buffered.push.eq_def, dif_pos rfl]
    exact ⟨rfl, ht⟩

theorem ends_drain (hs : Wrote path way ready file writer stored s) (w : Buffered) :
    ((w.drain Outlet.sink).run writer).Ends host s fun p t =>
      p.1 = (.ok (), { w with held := [] }) ∧
        Wrote path way ready file p.2 (stored ++ w.held) t := by
  rw [Buffered.drain, ends_run_bind]
  refine (ends_push hfile hs _ w.held).mono ?_
  rintro ⟨_, writer⟩ t ⟨rfl, ht⟩
  exact ⟨rfl, ht⟩

theorem ends_flush (hs : Wrote path way ready file writer stored s) (w : Buffered) :
    ((w.flush Outlet.sink).run writer).Ends host s fun p t =>
      p.1 = (.ok (), { w with held := [], pending := 0 }) ∧
        Wrote path way ready file p.2 (stored ++ w.held) t := by
  rw [Buffered.flush, ends_run_bind]
  refine (ends_drain hfile hs w).mono ?_
  rintro ⟨_, writer⟩ t ⟨rfl, ht⟩
  dsimp only
  rw [ends_run_bind]
  refine (ends_sinkFlush hfile ht).mono ?_
  rintro ⟨_, writer⟩ t ⟨rfl, ht⟩
  exact ⟨rfl, ht⟩

/-- A buffer takes all bytes at once, and they come behind what it held. Bytes go past it only
where it holds nothing or there are none. -/
theorem ends_accept (hs : Wrote path way ready file writer stored s) (w : Buffered)
    (bytes : List UInt8) :
    ((w.accept Outlet.sink bytes).run writer).Ends host s fun p t =>
      ∃ w' stored', p.1 = (.ok bytes.length, w') ∧ Wrote path way ready file p.2 stored' t ∧
        stored' ++ w'.held = stored ++ w.held ++ bytes := by
  unfold Buffered.accept
  dsimp only
  split
  · rw [ends_run_bind]
    refine (ends_drain hfile hs w).mono ?_
    rintro ⟨_, writer⟩ t ⟨rfl, ht⟩
    dsimp only
    split
    · exact ⟨_, _, rfl, ht, by simp⟩
    · rw [ends_run_bind]
      refine (ends_sink hfile ht bytes).mono ?_
      rintro ⟨_, writer⟩ t ⟨rfl, ht⟩
      exact ⟨_, _, rfl, ht, List.append_nil _⟩
  · next hroom =>
    rw [pure_bind]
    dsimp only
    split
    · exact ⟨_, _, rfl, hs, by simp⟩
    · next hlarge =>
      rw [ends_run_bind]
      refine (ends_sink hfile hs bytes).mono ?_
      rintro ⟨_, writer⟩ t ⟨rfl, ht⟩
      refine ⟨w, _, rfl, ht, ?_⟩
      have hpass : w.held = [] ∨ bytes = [] := by
        simp only [Bool.or_eq_true, decide_eq_true_eq, not_or] at hlarge
        rw [← List.length_eq_zero_iff, ← List.length_eq_zero_iff]
        omega
      rcases hpass with hempty | rfl
      · rw [hempty, List.append_nil, List.append_nil]
      · rw [List.append_nil, List.append_nil]

/-- So does a write, also one that flushes. -/
theorem ends_write (hs : Wrote path way ready file writer stored s) (w : Buffered)
    (bytes : List UInt8) :
    ((w.write Outlet.sink bytes).run writer).Ends host s fun p t =>
      ∃ w' stored', p.1 = (.ok bytes.length, w') ∧ Wrote path way ready file p.2 stored' t ∧
        stored' ++ w'.held = stored ++ w.held ++ bytes := by
  rw [Buffered.write, ends_run_bind]
  refine (ends_accept hfile hs w bytes).mono ?_
  rintro ⟨_, writer⟩ t ⟨w', stored', rfl, ht, htext⟩
  dsimp only
  split
  · exact ⟨_, _, rfl, ht, htext⟩
  · rw [ends_run_bind]
    refine (ends_flush hfile ht _).mono ?_
    rintro ⟨_, writer⟩ t ⟨rfl, ht⟩
    exact ⟨_, _, rfl, ht, by simpa using htext⟩

theorem ends_writeAll (hs : Wrote path way ready file writer stored s) (w : Buffered)
    (bytes : List UInt8) :
    ((w.writeAll Outlet.sink bytes).run writer).Ends host s fun p t =>
      ∃ w' stored', p.1 = (.ok (), w') ∧ Wrote path way ready file p.2 stored' t ∧
        stored' ++ w'.held = stored ++ w.held ++ bytes := by
  rw [Buffered.writeAll, Buffered.offer]
  split
  · next hempty =>
    subst hempty
    exact ⟨w, stored, rfl, hs, by rw [List.append_nil]⟩
  · next hne =>
    rw [ends_run_bind]
    refine (ends_write hfile hs w bytes).mono ?_
    rintro ⟨_, writer⟩ t ⟨w', stored', rfl, ht, htext⟩
    have hlength : bytes.length ≠ 0 := by simpa using hne
    simp only [hlength, ↓reduceDIte, List.drop_length]
    rw [Buffered.offer, dif_pos rfl]
    exact ⟨_, _, rfl, ht, htext⟩

theorem ends_close (hs : Wrote path way ready file writer stored s) (w : Buffered) :
    ((w.close Outlet.sink).run writer).Ends host s fun p t =>
      ∃ w', p.1 = (.ok (), w') ∧ Wrote path way ready file p.2 (stored ++ w.held) t := by
  rw [Buffered.close, ends_run_bind]
  refine (ends_drain hfile hs w).mono ?_
  rintro ⟨_, writer⟩ t ⟨rfl, ht⟩
  exact ⟨_, rfl, ht⟩

end Sink

/-- This text was put into an outlet: its writer has been given it, but for what is still in the
buffer. -/
def Outlet.Put (path : String) (way : Way) (ready : σ → Prop)
    (file : σ → Option (List UInt8)) (o : Outlet) (text : List UInt8) (s : σ) : Prop :=
  o.path = path ∧ ∃ stored, Wrote path way ready file o.writer stored s ∧
    stored ++ o.buffer.held = text

variable {o : Outlet} {text : List UInt8}

theorem Outlet.Put.isReady (h : o.Put path way ready file text s) : ready s := by
  obtain ⟨-, _, hs, -⟩ := h
  exact hs.isReady

/-- What leaves the file alone leaves all that was put where it is. -/
theorem Outlet.Put.of_keeps {t : σ} (h : o.Put path way ready file text s) (hready : ready t)
    (hfile : file t = file s) : o.Put path way ready file text t := by
  obtain ⟨hpath, stored, hs, htext⟩ := h
  exact ⟨hpath, stored, hs.of_keeps hready hfile, htext⟩

variable (hfile : Stores host path ready file)
include hfile

theorem Outlet.succeeds_put (h : o.Put path way ready file text s) (piece : Dump.Piece) :
    (o.put piece).Succeeds host s fun o' t =>
      o'.Put path way ready file (text ++ piece.bytes) t := by
  obtain ⟨hpath, stored, hs, rfl⟩ := h
  rw [Outlet.put]
  refine (Work.succeeds_ofJob (ends_writeAll hfile hs o.buffer piece.bytes)).bind ?_
  rintro ⟨_, writer⟩ t ⟨w', stored', rfl, ht, htext⟩
  exact Work.succeeds_pure ⟨hpath, stored', ht, htext⟩

theorem Outlet.succeeds_putAll (h : o.Put path way ready file text s)
    (pieces : List Dump.Piece) :
    (o.putAll pieces).Succeeds host s fun o' t =>
      o'.Put path way ready file (text ++ pieces.flatMap Dump.Piece.bytes) t := by
  induction pieces generalizing o text s with
  | nil =>
    rw [List.flatMap_nil, List.append_nil]
    exact Work.succeeds_pure h
  | cons piece pieces ih =>
    rw [Outlet.putAll]
    refine (Outlet.succeeds_put hfile h piece).bind fun o' t h' => ?_
    rw [List.flatMap_cons, ← List.append_assoc]
    exact ih h'

/-- The file is completed with all that was put, unless a program does that. -/
theorem Outlet.succeeds_finish (h : o.Put path way ready file text s)
    (hinside : ∀ program child, way ≠ .piped program child) :
    o.finish.Succeeds host s fun _ t =>
      ∃ stored, Completed way text stored ∧ Keeps ready file stored t := by
  obtain ⟨hpath, stored, hs, rfl⟩ := h
  rw [Outlet.finish]
  refine (Work.succeeds_ofJob (ends_close hfile hs o.buffer)).bind ?_
  rintro ⟨_, writer⟩ t ⟨w', rfl, _, hgiven, ht⟩
  generalize stored ++ o.buffer.held = text at hgiven
  cases hgiven with
  | plain =>
    exact Work.succeeds_ofExcept ((ends_sync hfile ht).mono fun answer u hu =>
      ⟨(), hu.1, _, .plain _, hu.2⟩)
  | packed encoder told hopen =>
    refine Work.succeeds_ofExcept ?_
    rw [Writer.finish, ExceptT.run_bind, ExceptT.run_mk]
    refine Job.ends_bind.mpr ((ends_emit hfile ht _).mono ?_)
    rintro _ u ⟨rfl, hu⟩
    exact (ends_sync hfile hu).mono fun answer v hv =>
      ⟨(), hv.1, _, .packed encoder told hopen, hv.2⟩
  | piped program child pieces => exact absurd rfl (hinside program child)

end SqlBackup.Export
