import SqlBackup.Proofs.Dump.Comments
import SqlBackup.Proofs.Dump.Keeping
import SqlBackup.Proofs.Dump.Sealed
import SqlBackup.Proofs.Value.ReadBack

/-!
# Rows in a dump

What is written for a value can be read by two readers. A server reads the literal of text or of
bytes as the bytes that it was written from. A scanner in code reads a row of literals from code to
code, and every byte of it becomes text, so that the row cannot be cut, whatever its values are.
-/
namespace SqlBackup.Dump

open Scan Text Text.Utf8

variable {s : State} {row : List Value}

/-- A row starts with a parenthesis. -/
theorem encode_rowLiteral (row : List Value) :
    ∃ bytes, encode (Value.rowLiteral row) = 0x28 :: bytes ∧ bytes.getLast? = some 0x29 := by
  have hopen : encode "(" = [0x28] := by decide
  have hclose : encode ")" = [0x29] := by decide
  rw [Value.rowLiteral, encode_append, encode_append, hopen, hclose, List.append_assoc,
    List.singleton_append]
  exact ⟨_, rfl, List.getLast?_concat⟩

/-- A scanner in code gathers a row, whatever it holds. -/
theorem gathers_rowLiteral (hrow : ∀ value ∈ row, Encodable value) (hcode : s.mode = .code)
    (hdelimiter : s.delimiter = semicolon) :
    s.Gathers (encode (Value.rowLiteral row)) .code := by
  obtain ⟨bytes, hbytes, -⟩ := encode_rowLiteral row
  have hcloses : closes none (encode (Value.rowLiteral row)) = true :=
    (sealed_rowLiteral hrow).closed
  refine State.gathers_of_closes hcloses hcode (by simp) hdelimiter (.inr ⟨rfl, ?_⟩) fun _ => ?_
  · intro b hb
    rw [hbytes, List.head?_cons, Option.some_inj] at hb
    rw [← hb]
    decide
  · intro b hb
    rw [hbytes, List.head?_cons, Option.some_inj] at hb
    rw [← hb]
    exact ⟨rfl, rfl⟩

/-- No row is taken for a directive. -/
theorem directiveAt?_rowLiteral (settings : Settings) (s : State) (lineStart : Bool)
    (row : List Value) (rest : List UInt8) :
    s.directiveAt? settings lineStart (encode (Value.rowLiteral row) ++ rest) = none := by
  obtain ⟨bytes, hbytes, -⟩ := encode_rowLiteral row
  have hcut : (Chunk.cut (settings.room + 1) (0x28 :: (bytes ++ rest))).bytes =
      0x28 :: (Chunk.cut settings.room (bytes ++ rest)).bytes := rfl
  have hnone := @directive?_cons_eq_none '(' (by decide) (by decide)
    (Chunk.cut settings.room (bytes ++ rest)).bytes
  rw [State.directiveAt?, hbytes, List.cons_append, hcut]
  split
  · exact hnone
  · rfl

/-- The literal of text or bytes stands for just these bytes. A scanner in code reads a row of
literals from code to code and holds every byte of it: nowhere in the row does it end a statement,
stand in a comment or lose a byte, and the only thing that stops it is its limit, just where the
text becomes too large. So what a stream shows is what it shows to a scanner that holds the row and
has only the rest before it. -/
theorem readBack_of_literals :
    (∀ text, Sql.readLiteral? (encode (Value.literal (.text text))) = some (encode text)) ∧
    (∀ bytes, Sql.readLiteral? (encode (Value.literal (.bytes bytes))) = some bytes) ∧
    ∀ (row : List Value) (s : State), (∀ value ∈ row, Encodable value) → s.mode = .code →
      s.delimiter = semicolon →
      (∀ limit, s.size + (encode (Value.rowLiteral row)).length ≤ limit →
        s.scan limit (encode (Value.rowLiteral row)) =
          (s.holding (encode (Value.rowLiteral row)) .code, [], none) ∧
        ∀ front back, front ++ back = encode (Value.rowLiteral row) →
          ∃ mode : Mode, mode.InText ∧ s.scan limit front = (s.holding front mode, [], none)) ∧
      (∀ limit, s.size ≤ limit → limit < s.size + (encode (Value.rowLiteral row)).length →
        (s.scan limit (encode (Value.rowLiteral row))).2.2 =
          some (.error (.statementTooLarge limit (s.position + (limit - s.size) + 1)))) ∧
      ∀ settings lineStart rest,
        s.size + (encode (Value.rowLiteral row)).length ≤ settings.limit →
        s.transcript settings lineStart (encode (Value.rowLiteral row) ++ rest) =
          (s.holding (encode (Value.rowLiteral row)) .code).transcript settings false rest := by
  refine ⟨fun text => Value.readLiteral?_bytesLiteral _,
    fun bytes => Value.readLiteral?_bytesLiteral bytes, ?_⟩
  intro row s hrow hcode hdelimiter
  have hgathers := gathers_rowLiteral hrow hcode hdelimiter
  refine ⟨fun limit hroom => ⟨?_, fun front back hsplit => ?_⟩, fun limit hsize hfull => ?_,
    fun settings lineStart rest hroom => ?_⟩
  · have hscan := hgathers.scan hroom []
    rwa [List.append_nil] at hscan
  · have hlength := congrArg List.length hsplit
    rw [← hsplit] at hgathers
    rw [List.length_append] at hlength
    obtain ⟨mode, hfront, -⟩ := hgathers.split
    have hscan : s.scan limit (front ++ []) = _ := hfront.scan (by omega) []
    rw [List.append_nil] at hscan
    exact ⟨mode, hfront.inText (by rw [hcode]; trivial), hscan⟩
  · obtain ⟨t, behind, hscan⟩ := hgathers.scan_full hsize hfull []
    rw [List.append_nil] at hscan
    rw [hscan]
  · obtain ⟨bytes, hbytes, hlast⟩ := encode_rowLiteral row
    have hend : ((encode (Value.rowLiteral row)).getLast?.elim lineStart (· == 0x0A)) = false := by
      rw [hbytes, List.getLast?_cons, hlast]
      rfl
    rw [hgathers.transcript hroom (directiveAt?_rowLiteral settings s lineStart row rest), hend]

/-- A row with what could end a literal, a statement or a line. -/
def awkwardRow : List Value :=
  [.text "it's\n-- \";/*#", .bytes [0xFF, 0x27], .decimal "-1.50e+3", .bytes [], .null]

/-- Such a row is read back, and within too small a limit its last byte is too much. -/
theorem readBack_of_awkwardRow :
    (∀ value ∈ awkwardRow, Encodable value) ∧
    encode (Value.rowLiteral awkwardRow) =
      encode "('it\\'s\\n-- \\\";/*#', 0xFF27, -1.50e+3, '', NULL)" ∧
    Sql.readLiteral? (encode (Value.literal (.text "it's\n-- \";/*#"))) =
      some (encode "it's\n-- \";/*#") ∧
    Sql.readLiteral? (encode (Value.literal (.bytes [0xFF, 0x27]))) = some [0xFF, 0x27] ∧
    (State.initial 0 semicolon).scan 48 (encode (Value.rowLiteral awkwardRow)) =
      ((State.initial 0 semicolon).holding (encode (Value.rowLiteral awkwardRow)) .code, [],
        none) ∧
    ((State.initial 0 semicolon).scan 47 (encode (Value.rowLiteral awkwardRow))).2.2 =
      some (.error (.statementTooLarge 47 48)) := by
  have hrow : ∀ value ∈ awkwardRow, Encodable value := by
    have hnumeral : IsNumeral "-1.50e+3" :=
      ⟨"-", "1.50", "e+3", rfl, by simp, ⟨by decide, by simp⟩,
        .inr ⟨"e", "+", "3", rfl, by simp, by simp, by decide, by simp [Number.IsDigits]⟩⟩
    simp only [awkwardRow, List.forall_mem_cons]
    exact ⟨trivial, trivial, hnumeral, trivial, trivial, by simp⟩
  have hlength : (encode (Value.rowLiteral awkwardRow)).length = 48 := by decide +kernel
  obtain ⟨htext, hbytes, hread⟩ := readBack_of_literals
  obtain ⟨hfits, hfull, -⟩ := hread awkwardRow (.initial 0 semicolon) hrow rfl rfl
  exact ⟨hrow, by decide +kernel, htext _, hbytes _, (hfits 48 (by simp [hlength, State.initial])).1,
    hfull 47 (by simp [State.initial]) (by simp [hlength, State.initial])⟩

end SqlBackup.Dump
