import Mathlib
import SqlBackup.Proofs.Json.Passing

/-!
# Written arrays and objects read back

An array or an object is written over several lines, one for each element or member. It is read
back line by line, and a reader that does not ask for it passes over it line by line.
-/
namespace SqlBackup.Json

variable {α δ : Type} {item : Reader α} {written : String} {a : α} {fields : List (Field δ)}

/-- A line of a block at this depth, with the line feed in front of it. -/
def line (depth : Nat) (s : String) : List Char :=
  '\n' :: (List.replicate (2 * (depth + 1)) ' ' ++ s.toList)

theorem toList_indentation (depth : Nat) :
    (indentation depth).toList = List.replicate (2 * depth) ' ' := String.toList_ofList

/-- Lines with commas between them. -/
theorem toList_intercalate_lines (depth : Nat) (s : String) (lines : List String) :
    '\n' :: (",\n".intercalate ((s :: lines).map (indentation (depth + 1) ++ ·))).toList =
      line depth s ++ lines.flatMap fun more => ',' :: line depth more := by
  induction lines generalizing s with
  | nil => simp [line, toList_indentation]
  | cons t lines ih =>
    rw [List.map_cons, List.map_cons, String.intercalate_cons_cons, ← List.map_cons,
      String.toList_append, String.toList_append, List.flatMap_cons, List.cons_append, ← ih t]
    simp [line, toList_indentation]

/-- A block ends with a line of its own for the bracket. -/
def closing (depth : Nat) (right : String) : List Char :=
  '\n' :: (List.replicate (2 * depth) ' ' ++ right.toList)

/-- What stands behind the first bracket of a block. -/
def body (depth : Nat) (right : String) : List String → List Char
  | [] => right.toList
  | s :: lines =>
      line depth s ++ ((lines.flatMap fun more => ',' :: line depth more) ++ closing depth right)

theorem toList_block (depth : Nat) (left right : String) (lines : List String) :
    (block depth left right lines).toList = left.toList ++ body depth right lines := by
  cases lines with
  | nil => exact String.toList_append
  | cons s lines =>
    rw [block, if_neg (by simp), body]
    simp only [String.toList_append, toList_indentation, closing, List.append_assoc]
    rw [← List.append_assoc (line depth s), ← toList_intercalate_lines]
    simp

/-- A block has more characters than lines. -/
theorem length_lt_length_body (depth : Nat) (c : Char) (lines : List String) :
    lines.length < (body depth (String.singleton c) lines).length := by
  cases lines with
  | nil => simp [body]
  | cons s lines =>
    have hlines : lines.length ≤ (lines.flatMap fun more => ',' :: line depth more).length := by
      rw [List.length_flatMap]
      refine (List.length_map _).symm.trans_le (List.length_le_sum_of_one_le _ fun n hn => ?_)
      obtain ⟨more, -, rfl⟩ := List.mem_map.mp hn
      simp
    have hline : 1 ≤ (line depth s).length := by simp [line]
    simp only [body, closing, List.length_append, List.length_cons]
    omega

theorem skipBlanks_replicate (n : Nat) (cs : List Char) :
    skipBlanks (List.replicate n ' ' ++ cs) = skipBlanks cs :=
  List.dropWhile_append_of_pos fun _ hc => by rw [List.eq_of_mem_replicate hc]; rfl

theorem skipBlanks_line (depth : Nat) (s : String) (cs : List Char) :
    skipBlanks (line depth s ++ cs) = skipBlanks (s.toList ++ cs) := by
  rw [line, List.cons_append, List.append_assoc]
  exact skipBlanks_replicate _ _

theorem skipBlanks_closing (depth : Nat) (right : String) (cs : List Char) :
    skipBlanks (closing depth right ++ cs) = skipBlanks (right.toList ++ cs) := by
  rw [closing, List.cons_append, List.append_assoc]
  exact skipBlanks_replicate _ _

theorem ends_lines (depth : Nat) (lines : List String) (right : String) (rest : List Char) :
    Ends ((lines.flatMap fun more => ',' :: line depth more) ++ (closing depth right ++ rest)) := by
  cases lines with
  | nil => exact ends_line _
  | cons s lines => exact ends_comma _

/-- What starts a value is no blank. -/
theorem Reads.skipBlanks_append (h : Reads item written a) (cs : List Char) :
    skipBlanks (written.toList ++ cs) = written.toList ++ cs := by
  obtain ⟨c, tail, hopens, hblank, -⟩ := h.opens
  rw [hopens, List.cons_append, skipBlanks_cons _ hblank]

/-- What starts an element is no blank, also where it is passed over. -/
theorem Passes.skipBlanks_append {frame : Frame} (h : Passes frame written) (cs : List Char) :
    skipBlanks (written.toList ++ cs) = written.toList ++ cs := by
  obtain ⟨c, tail, hopens, hblank, -⟩ := h.opens
  rw [hopens, List.cons_append, skipBlanks_cons _ hblank]

/-! ### Arrays -/

/-- The first line of an array holds its first element. -/
theorem nextElement_first (h : Reads item written a) (depth : Nat) (cs : List Char) :
    nextElement true (line depth written ++ cs) = .ok (true, written.toList ++ cs) := by
  obtain ⟨c, tail, hopens, -, hbracket⟩ := h.opens
  rw [nextElement, skipBlanks_line, h.skipBlanks_append, hopens, List.cons_append]
  split
  · next heq => cases heq
  · next heq => exact absurd (List.cons.inj heq).1 hbracket
  · next heq =>
    rw [if_pos rfl, ← heq]

theorem nextElement_further (h : Reads item written a) (depth : Nat) (cs : List Char) :
    nextElement false (',' :: line depth written ++ cs) = .ok (true, written.toList ++ cs) := by
  obtain ⟨c, tail, hopens, -, hbracket⟩ := h.opens
  have hline := (skipBlanks_line depth written cs).trans (h.skipBlanks_append cs)
  have hcomma (more : List Char) : skipBlanks (',' :: more) = ',' :: more := rfl
  rw [List.cons_append, nextElement, hcomma]
  split
  · next heq => cases heq
  · next heq => cases (List.cons.inj heq).1
  · next heq =>
    obtain ⟨rfl, rfl⟩ := List.cons.inj heq
    rw [if_neg Bool.false_ne_true, if_pos (BEq.rfl : (',' == ',') = true), hline, hopens,
      List.cons_append]
    split
    · next heq => cases heq
    · next heq => exact absurd (List.cons.inj heq).1 hbracket
    · rfl

theorem nextElement_closing (first : Bool) (depth : Nat) (rest : List Char) :
    nextElement first (closing depth "]" ++ rest) = .ok (false, ']' :: rest) := by
  rw [nextElement, skipBlanks_closing]
  rfl

theorem elements_lines {β : Type} {write : β → String} {value : β → α} {values : List β}
    (h : ∀ b ∈ values, Reads item (write b) (value b)) {fuel : Nat}
    (hfuel : values.length < fuel) (depth : Nat) (rest : List Char) :
    elements item fuel false (((values.map write).flatMap fun more => ',' :: line depth more) ++
      (closing depth "]" ++ rest)) = .ok (values.map value, rest) := by
  induction values generalizing fuel with
  | nil =>
    cases fuel with
    | zero => simp at hfuel
    | succ fuel =>
      rw [List.map_nil, List.flatMap_nil, List.nil_append, elements, nextElement_closing]
      rfl
  | cons a values ih =>
    rw [List.forall_mem_cons] at h
    cases fuel with
    | zero => simp at hfuel
    | succ fuel =>
      rw [List.map_cons, List.flatMap_cons, List.append_assoc, elements, nextElement_further h.1]
      show (item _ >>= fun p => elements item fuel false p.2 >>= fun q => _) = _
      rw [h.1.reads _ _ (h.1.skipBlanks_append _) (ends_lines depth _ _ rest)]
      show (elements item fuel false _ >>= fun q => _) = _
      rw [ih h.2 (by simpa using hfuel)]
      rfl

theorem elements_body {β : Type} {write : β → String} {value : β → α} {values : List β}
    (h : ∀ b ∈ values, Reads item (write b) (value b)) {fuel : Nat}
    (hfuel : values.length < fuel) (depth : Nat) (rest : List Char) :
    elements item fuel true (body depth "]" (values.map write) ++ rest) =
      .ok (values.map value, rest) := by
  cases fuel with
  | zero => simp at hfuel
  | succ fuel =>
    cases values with
    | nil => rfl
    | cons a values =>
      rw [List.forall_mem_cons] at h
      rw [List.map_cons, body, List.append_assoc, List.append_assoc, elements,
        nextElement_first h.1]
      show (item _ >>= fun p => elements item fuel false p.2 >>= fun q => _) = _
      rw [h.1.reads _ _ (h.1.skipBlanks_append _) (ends_lines depth _ _ rest)]
      show (elements item fuel false _ >>= fun q => _) = _
      rw [elements_lines h.2 (by simpa using hfuel)]
      rfl

/-- An array is read element by element. -/
theorem reads_array_map {β : Type} {write : β → String} {value : β → α} {values : List β}
    (depth : Nat) (h : ∀ b ∈ values, Reads item (write b) (value b)) :
    Reads (array item) (arrayText depth (values.map write)) (values.map value) := by
  have hlist : (arrayText depth (values.map write)).toList =
      '[' :: body depth "]" (values.map write) := toList_block depth "[" "]" _
  refine ⟨⟨'[', _, hlist, rfl, by decide⟩, fun cs rest hcs _ => ?_⟩
  rw [hlist, List.cons_append] at hcs
  have hfuel := length_lt_length_body depth ']' (values.map write)
  rw [List.length_map] at hfuel
  simp only [array, hcs]
  refine elements_body h ?_ depth rest
  rw [List.length_append]
  exact Nat.lt_succ_of_lt (Nat.lt_of_lt_of_le hfuel (Nat.le_add_right _ _))

/-- An array whose elements are read back is read back. -/
theorem reads_array {write : α → String} {values : List α} (depth : Nat)
    (h : ∀ a ∈ values, Reads item (write a) a) :
    Reads (array item) (arrayText depth (values.map write)) values := by
  have hread : Reads (array item) (arrayText depth (values.map write)) (values.map fun a => a) :=
    reads_array_map depth h
  rwa [List.map_id_fun'] at hread

/-! ### Records -/

/-- What is written of a member, without the line feed and the blanks in front. -/
theorem toList_member (key written : String) (cs : List Char) :
    (quoted key ++ ": " ++ written).toList ++ cs =
      '"' :: (key.toList.flatMap escapedChar ++ '"' :: ':' :: ' ' :: (written.toList ++ cs)) := by
  simp [toList_quoted]

theorem skipBlanks_member (depth : Nat) (key written : String) (cs : List Char) :
    skipBlanks (line depth (quoted key ++ ": " ++ written) ++ cs) =
      '"' :: (key.toList.flatMap escapedChar ++ '"' :: ':' :: ' ' :: (written.toList ++ cs)) := by
  rw [skipBlanks_line, toList_member]
  rfl

theorem nextKey_first (depth : Nat) (key written : String) (cs : List Char) :
    nextKey true (line depth (quoted key ++ ": " ++ written) ++ cs) = .ok (true,
      key.toList.flatMap escapedChar ++ '"' :: ':' :: ' ' :: (written.toList ++ cs)) := by
  rw [nextKey, skipBlanks_member]
  rfl

theorem nextKey_further (depth : Nat) (key written : String) (cs : List Char) :
    nextKey false (',' :: line depth (quoted key ++ ": " ++ written) ++ cs) = .ok (true,
      key.toList.flatMap escapedChar ++ '"' :: ':' :: ' ' :: (written.toList ++ cs)) := by
  have hcomma (more : List Char) : skipBlanks (',' :: more) = ',' :: more := rfl
  rw [List.cons_append, nextKey, hcomma]
  split
  · next heq => cases heq
  · next heq => cases (List.cons.inj heq).1
  · next heq =>
    obtain ⟨rfl, rfl⟩ := List.cons.inj heq
    rw [if_neg Bool.false_ne_true, if_pos (BEq.rfl : (',' == ',') = true), skipBlanks_member]
    rfl

theorem nextKey_closing (first : Bool) (depth : Nat) (rest : List Char) :
    nextKey first (closing depth "\x7d" ++ rest) = .ok (false, rest) := by
  rw [nextKey, skipBlanks_closing]
  rfl

/-- Members that fill a draft one after the other. Those that no field has are passed over. -/
inductive Fills (fields : List (Field δ)) : δ → List (String × String) → δ → Prop
  | nothing (d : δ) : Fills fields d [] d
  | passed {key written : String} {d f : δ} {more : List (String × String)}
      (hfield : fields.find? (·.key == key) = none) (hpasses : Passes .array written)
      (h : Fills fields d more f) : Fills fields d ((key, written) :: more) f
  | member {key written : String} {field : Field δ} {d e f : δ} {more : List (String × String)}
      (hfield : fields.find? (·.key == key) = some field) (hfree : field.isSet d = false)
      (hread : Reads (field.read d) written e) (h : Fills fields e more f) :
      Fills fields d ((key, written) :: more) f

theorem reads_field {key : String} {get : δ → Option α} {set : δ → α → δ} {optional : Bool}
    (d : δ) (h : Reads item written a) :
    Reads ((Field.of key get set item optional).read d) written (set d a) := by
  refine ⟨h.opens, fun cs rest hcs hrest => ?_⟩
  show (item cs >>= fun p => _) = _
  rw [h.reads cs rest hcs hrest]
  rfl

/-- A member, behind the first quotation mark of its key. -/
theorem members_member {key written : String} {field : Field δ} {d d' : δ}
    (hfield : fields.find? (·.key == key) = some field) (hfree : field.isSet d = false)
    (hread : Reads (field.read d) written d') {fuel : Nat} {first : Bool} {cs rest : List Char}
    (hnext : nextKey first cs = .ok (true,
      key.toList.flatMap escapedChar ++ '"' :: ':' :: ' ' :: (written.toList ++ rest)))
    (hrest : Ends rest) :
    members fields (fuel + 1) first d cs = members fields fuel false d' rest := by
  have hvalue : field.read d (' ' :: (written.toList ++ rest)) = .ok (d', rest) :=
    hread.reads _ rest (hread.skipBlanks_append rest) hrest
  have hcolon : colon (':' :: ' ' :: (written.toList ++ rest)) =
      .ok (' ' :: (written.toList ++ rest)) := rfl
  simp only [members, hnext, textTail_quoted, bind, Except.bind, hfield, hfree, hcolon, hvalue,
    Bool.false_eq_true, if_false]

/-- A member that no field has, behind the first quotation mark of its key. -/
theorem members_passed {key written : String} {d : δ}
    (hfield : fields.find? (·.key == key) = none) (hpasses : Passes .array written) {fuel : Nat}
    {first : Bool} {cs rest : List Char}
    (hnext : nextKey first cs = .ok (true,
      key.toList.flatMap escapedChar ++ '"' :: ':' :: ' ' :: (written.toList ++ rest)))
    (hrest : Ends rest) :
    members fields (fuel + 1) first d cs = members fields fuel false d rest := by
  have hvalue : skipValue (' ' :: (written.toList ++ rest)) = .ok rest :=
    hpasses.skipValue (hpasses.skipBlanks_append rest) hrest
  have hcolon : colon (':' :: ' ' :: (written.toList ++ rest)) =
      .ok (' ' :: (written.toList ++ rest)) := rfl
  simp only [members, hnext, textTail_quoted, bind, Except.bind, hfield, hcolon, hvalue]

/-- The lines of an object's members. -/
def memberLines (ms : List (String × String)) : List String :=
  ms.map fun m => quoted m.1 ++ ": " ++ m.2

theorem members_lines {ms : List (String × String)} {d d' : δ} (h : Fills fields d ms d')
    {fuel : Nat} (hfuel : ms.length < fuel) (depth : Nat) (rest : List Char) :
    members fields fuel false d (((memberLines ms).flatMap fun more => ',' :: line depth more) ++
      (closing depth "\x7d" ++ rest)) = .ok (d', rest) := by
  induction h generalizing fuel with
  | nothing d =>
    cases fuel with
    | zero => simp at hfuel
    | succ fuel =>
      rw [memberLines, List.map_nil, List.flatMap_nil, List.nil_append, members, nextKey_closing]
      rfl
  | @passed key written d f more hfield hpasses h ih =>
    cases fuel with
    | zero => simp at hfuel
    | succ fuel =>
      rw [memberLines, List.map_cons, List.flatMap_cons, List.append_assoc,
        members_passed hfield hpasses (nextKey_further depth key written _)
          (ends_lines depth _ _ rest)]
      exact ih (by simpa using hfuel)
  | @member key written field d e f more hfield hfree hread h ih =>
    cases fuel with
    | zero => simp at hfuel
    | succ fuel =>
      rw [memberLines, List.map_cons, List.flatMap_cons, List.append_assoc,
        members_member hfield hfree hread (nextKey_further depth key written _)
          (ends_lines depth _ _ rest)]
      exact ih (by simpa using hfuel)

theorem members_body {ms : List (String × String)} {d d' : δ} (h : Fills fields d ms d')
    {fuel : Nat} (hfuel : ms.length < fuel) (depth : Nat) (rest : List Char) :
    members fields fuel true d (body depth "\x7d" (memberLines ms) ++ rest) = .ok (d', rest) := by
  cases fuel with
  | zero => simp at hfuel
  | succ fuel =>
    cases h with
    | nothing => rfl
    | @passed key written _ _ more hfield hpasses h =>
      rw [memberLines, List.map_cons, body, List.append_assoc, List.append_assoc,
        members_passed hfield hpasses (nextKey_first depth key written _)
          (ends_lines depth _ _ rest)]
      exact members_lines h (by simpa using hfuel) depth rest
    | @member key written field d e f more hfield hfree hread h =>
      rw [memberLines, List.map_cons, body, List.append_assoc, List.append_assoc,
        members_member hfield hfree hread (nextKey_first depth key written _)
          (ends_lines depth _ _ rest)]
      exact members_lines h (by simpa using hfuel) depth rest

/-- An object whose members fill a draft is read back as what the draft makes. -/
theorem reads_record {empty d : δ} {build : δ → Option α} {ms : List (String × String)}
    (h : Fills fields empty ms d) (hbuild : build d = some a) (depth : Nat) :
    Reads (record fields empty build) (objectText depth ms) a := by
  have hlist : (objectText depth ms).toList = '\x7b' :: body depth "\x7d" (memberLines ms) :=
    toList_block depth "\x7b" "\x7d" _
  refine ⟨⟨'\x7b', _, hlist, rfl, by decide⟩, fun cs rest hcs _ => ?_⟩
  rw [hlist, List.cons_append] at hcs
  have hfuel := length_lt_length_body depth '\x7d' (memberLines ms)
  rw [memberLines, List.length_map, ← memberLines] at hfuel
  simp only [record, hcs]
  rw [members_body h (by
    rw [List.length_append]
    exact Nat.lt_succ_of_lt (Nat.lt_of_lt_of_le hfuel (Nat.le_add_right _ _))) depth rest]
  simp only [bind, Except.bind, hbuild]

/-- A value that is read back is the whole of its text. -/
theorem Reads.whole (h : Reads item written a) : Json.whole item written = .ok a := by
  have hread := h.reads written.toList [] ?_ ends_nil
  · rw [Json.whole, hread]
    rfl
  · have hopens := h.skipBlanks_append []
    rwa [List.append_nil] at hopens ⊢

/-! ### Passing over blocks -/

/-- A member is passed over where its value is. -/
theorem Passes.member (h : Passes .array written) (key : String) :
    Passes .object (quoted key ++ ": " ++ written) := by
  obtain ⟨steps, hle, hpasses⟩ := h.passes
  refine ⟨⟨'"', _, (List.append_nil _).symm.trans (toList_member key written []), rfl, by decide⟩,
    steps, ?_, fun fuel frames cs rest hcs hrest => ?_⟩
  · simp only [String.toList_append, List.length_append]
    omega
  · have hkey : skipKey cs = .ok (' ' :: (written.toList ++ rest)) := by
      rw [skipKey, hcs, toList_member]
      show (skipText _ >>= _) = _
      rw [skipText_quoted]
      rfl
    show (skipKey cs >>= _) = _
    rw [hkey]
    exact hpasses fuel frames _ rest (h.skipBlanks_append rest) hrest

/-- The bracket that opens a frame. -/
def Frame.opening : Frame → Char
  | array => '['
  | object => '\x7b'

/-- The bracket that ends a frame. -/
theorem skipOpen_closing (frame : Frame) (fuel : Nat) (frames : List Frame) (depth : Nat)
    (rest : List Char) :
    skipOpen (fuel + 1) .further (frame :: frames)
        (closing depth (String.singleton frame.close) ++ rest) =
      skipOpen fuel .further frames rest := by
  have hclosing : skipBlanks (closing depth (String.singleton frame.close) ++ rest) =
      frame.close :: rest := by
    rw [skipBlanks_closing]
    cases frame <;> rfl
  rw [skipOpen, hclosing]
  exact if_pos BEq.rfl

theorem length_le_length_line (depth : Nat) (s : String) :
    s.toList.length ≤ (line depth s).length := by
  rw [line, List.length_cons, List.length_append]
  omega

/-- The lines behind the first one, up to the end of the frame. -/
theorem skipOpen_lines {frame : Frame} {lines : List String} (h : ∀ s ∈ lines, Passes frame s)
    (depth : Nat) :
    ∃ steps ≤ 2 * (lines.flatMap fun more => ',' :: line depth more).length + 1,
      ∀ fuel frames rest, skipOpen (fuel + steps) .further (frame :: frames)
          ((lines.flatMap fun more => ',' :: line depth more) ++
            (closing depth (String.singleton frame.close) ++ rest)) =
        skipOpen fuel .further frames rest := by
  induction lines with
  | nil =>
    exact ⟨1, by simp, fun fuel frames rest => skipOpen_closing frame fuel frames depth rest⟩
  | cons s lines ih =>
    rw [List.forall_mem_cons] at h
    obtain ⟨more, hmore, hlines⟩ := ih h.2
    obtain ⟨steps, hle, hpasses⟩ := h.1.passes
    refine ⟨more + steps + 1, ?_, fun fuel frames rest => ?_⟩
    · have hline := length_le_length_line depth s
      simp only [List.flatMap_cons, List.length_append, List.length_cons]
      omega
    · rw [List.flatMap_cons, List.append_assoc, ← Nat.add_assoc, ← Nat.add_assoc]
      have hcomma (cs : List Char) : skipBlanks (',' :: cs) = ',' :: cs := rfl
      have hopen : (',' == frame.close) = false := by cases frame <;> rfl
      rw [List.cons_append, skipOpen, hcomma]
      dsimp only
      rw [hopen, if_neg Bool.false_ne_true, if_pos BEq.rfl]
      rw [hpasses _ _ _ _ ((skipBlanks_line depth s _).trans (h.1.skipBlanks_append _))
        (ends_lines depth _ _ _)]
      exact hlines fuel frames rest

/-- All lines, from behind the bracket that opens the frame. -/
theorem skipOpen_body {frame : Frame} {lines : List String} (h : ∀ s ∈ lines, Passes frame s)
    (depth : Nat) :
    ∃ steps ≤ 2 * (body depth (String.singleton frame.close) lines).length,
      ∀ fuel frames rest, skipOpen (fuel + steps) .first (frame :: frames)
          (body depth (String.singleton frame.close) lines ++ rest) =
        skipOpen fuel .further frames rest := by
  cases lines with
  | nil =>
    refine ⟨1, by simp [body], fun fuel frames rest => ?_⟩
    cases frame <;> rfl
  | cons s lines =>
    rw [List.forall_mem_cons] at h
    obtain ⟨more, hmore, hlines⟩ := skipOpen_lines h.2 depth
    obtain ⟨c, tail, hopens, -, hclose⟩ := h.1.opens
    obtain ⟨steps, hle, hpasses⟩ := h.1.passes
    refine ⟨more + steps + 1, ?_, fun fuel frames rest => ?_⟩
    · have hline := length_le_length_line depth s
      have hclosing : 1 ≤ (closing depth (String.singleton frame.close)).length := by simp [closing]
      simp only [body, List.length_append]
      omega
    · have hfirst (cs : List Char) : skipBlanks (line depth s ++ cs) = c :: (tail ++ cs) := by
        rw [skipBlanks_line, h.1.skipBlanks_append, hopens, List.cons_append]
      have hwritten (cs : List Char) : skipBlanks (c :: (tail ++ cs)) = s.toList ++ cs := by
        rw [← hfirst, skipBlanks_skipBlanks, skipBlanks_line, h.1.skipBlanks_append]
      rw [body, List.append_assoc, List.append_assoc, ← Nat.add_assoc, ← Nat.add_assoc, skipOpen,
        hfirst]
      dsimp only
      rw [if_neg (by simpa using hclose), hpasses _ _ _ _ (hwritten _) (ends_lines depth _ _ _)]
      exact hlines fuel frames rest

/-- A block whose lines are passed over is passed over. -/
theorem passes_block {frame : Frame} {lines : List String} (h : ∀ s ∈ lines, Passes frame s)
    (depth : Nat) :
    Passes .array
      (block depth (String.singleton frame.opening) (String.singleton frame.close) lines) := by
  have hlist := toList_block depth (String.singleton frame.opening)
    (String.singleton frame.close) lines
  rw [String.toList_singleton, List.singleton_append] at hlist
  obtain ⟨steps, hle, hbody⟩ := skipOpen_body h depth
  refine ⟨⟨frame.opening, _, hlist, ?_, ?_⟩, steps + 1, ?_, fun fuel frames cs rest hcs _ => ?_⟩
  · cases frame <;> rfl
  · cases frame <;> decide
  · rw [hlist, List.length_cons]
    omega
  · rw [hlist, List.cons_append] at hcs
    rw [← hbody fuel frames rest]
    show skipOpen (fuel + steps + 1) .value frames cs = _
    rw [skipOpen, hcs]
    cases frame <;> rfl

theorem passes_array {values : List String} (h : ∀ written ∈ values, Passes .array written)
    (depth : Nat) : Passes .array (arrayText depth values) := passes_block h depth

theorem passes_object {ms : List (String × String)} (h : ∀ m ∈ ms, Passes .array m.2)
    (depth : Nat) : Passes .array (objectText depth ms) := by
  have hmembers : ∀ s ∈ memberLines ms, Passes .object s := by
    intro s hs
    obtain ⟨m, hm, rfl⟩ := List.mem_map.mp hs
    exact (h m hm).member m.1
  exact passes_block hmembers depth

end SqlBackup.Json
