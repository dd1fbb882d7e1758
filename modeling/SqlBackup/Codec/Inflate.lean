import SqlBackup.Codec.Output

/-!
# Deflate streams

Bits are taken from each byte lowest first. A block is stored as it is or written in two prefix
codes, one for literals and lengths of matches and one for their distances. The codes are given by
the lengths of their words; words of one length are in the order of their symbols.
-/
namespace SqlBackup.Codec.Inflate

/-- A prefix code: how many words there are of each length, and the symbols in the order of their
words. -/
structure Code where
  counts : Array Nat
  symbols : Array Nat

/-- The longest word of a code. -/
def longest : Nat := 15

/-- The code with these word lengths, where 0 stands for no word. A code of two words or more must
be complete. -/
def Code.ofLengths? (lengths : Array Nat) : Option Code :=
  let counts := (List.range (longest + 1)).toArray.map fun n =>
    if n = 0 then 0 else lengths.foldl (fun k length => if length = n then k + 1 else k) 0
  let used := counts.foldl (· + ·) 0
  let space := (List.range (longest + 1)).foldl
    (fun space n => space + counts.getD n 0 * Nat.pow 2 (longest - n)) 0
  if 1 < used && space != Nat.pow 2 longest then none
  else
    let symbols := (List.range longest).flatMap fun n =>
      (List.range lengths.size).filter fun symbol => lengths.getD symbol 0 = n + 1
    some ⟨counts, symbols.toArray⟩

/-- A decoder at work: where it reads and what it has made. -/
structure State where
  /-- The index of the next bit of the input. -/
  position : Nat
  output : Output
  /-- Where the output of this stream starts. -/
  start : Nat

/-- A step of decoding. -/
abbrev Step (α : Type) := State → Except (Trouble × State) (α × State)

def bitAt (input : ByteArray) (i : Nat) : Nat :=
  (byteAt input (i / 8)).toNat / Nat.pow 2 (i % 8) % 2

/-- The next bit. -/
def nextBit (input : ByteArray) : Step Nat
  | ⟨position, output, start⟩ =>
      if 8 * input.size ≤ position then .error (.cutShort, ⟨position, output, start⟩)
      else .ok (bitAt input position, ⟨position + 1, output.touch (position / 8), start⟩)

/-- The number in the next `count` bits, lowest first. -/
def bits (input : ByteArray) : Nat → Step Nat
  | 0 => fun s => .ok (0, s)
  | count + 1 => fun s =>
      match nextBit input s with
      | .error trouble => .error trouble
      | .ok (bit, s) =>
          match bits input count s with
          | .error trouble => .error trouble
          | .ok (n, s) => .ok (2 * n + bit, s)

/-- Reads a word of a code. `word` and `first` are the word so far and the first one of its length,
`index` counts the shorter words. -/
def symbolFrom (input : ByteArray) (code : Code) : List Nat → Nat → Nat → Nat → Step Nat
  | [], _, _, _ => fun s => .error (.corrupt, s)
  | length :: lengths, word, first, index => fun s =>
      match nextBit input s with
      | .error trouble => .error trouble
      | .ok (bit, s) =>
          let word := 2 * word + bit
          let first := 2 * first
          let count := code.counts.getD length 0
          if word < first + count then
            match code.symbols[index + (word - first)]? with
            | some symbol => .ok (symbol, s)
            | none => .error (.corrupt, s)
          else symbolFrom input code lengths word (first + count) (index + count) s

/-- Reads a word of a code. -/
def symbol (input : ByteArray) (code : Code) : Step Nat :=
  symbolFrom input code ((List.range longest).map (· + 1)) 0 0 0

/-- The size of the circle that output goes through on its way to the reader. -/
def circle : Nat := 32 * 1024

/-- Adds a byte. When the circle is full and holds what the reader asks for, it is emptied. -/
def State.emit : State → UInt8 → State
  | ⟨position, output, start⟩, b =>
      let output := output.push b
      if (output.bytes.size - start) % circle = 0 &&
          output.room ≤ output.bytes.size - output.delivered then
        ⟨position, output.settle, start⟩
      else ⟨position, output, start⟩

/-- Repeats what is `distance` back, byte by byte. -/
def State.copy (s : State) (distance : Nat) : Nat → State
  | 0 => s
  | n + 1 => (s.emit (s.output.back s.start distance)).copy distance n

/-- The least length of each length symbol from 257 on, and how many bits follow. -/
def lengthTable : Array (Nat × Nat) :=
  #[(3, 0), (4, 0), (5, 0), (6, 0), (7, 0), (8, 0), (9, 0), (10, 0), (11, 1), (13, 1), (15, 1),
    (17, 1), (19, 2), (23, 2), (27, 2), (31, 2), (35, 3), (43, 3), (51, 3), (59, 3), (67, 4),
    (83, 4), (99, 4), (115, 4), (131, 5), (163, 5), (195, 5), (227, 5), (258, 0)]

/-- The least distance of each distance symbol, and how many bits follow. -/
def distanceTable : Array (Nat × Nat) :=
  #[(1, 0), (2, 0), (3, 0), (4, 0), (5, 1), (7, 1), (9, 2), (13, 2), (17, 3), (25, 3), (33, 4),
    (49, 4), (65, 5), (97, 5), (129, 6), (193, 6), (257, 7), (385, 7), (513, 8), (769, 8),
    (1025, 9), (1537, 9), (2049, 10), (3073, 10), (4097, 11), (6145, 11), (8193, 12), (12289, 12),
    (16385, 13), (24577, 13)]

/-- The number of a table's row and of the bits that follow. -/
def extended (input : ByteArray) (table : Array (Nat × Nat)) (row : Nat) : Step Nat := fun s =>
  match table[row]? with
  | none => .error (.corrupt, s)
  | some (base, extra) =>
      match bits input extra s with
      | .error trouble => .error trouble
      | .ok (n, s) => .ok (base + n, s)

/-- Reads literals and matches up to the end of the block. A symbol takes a bit at least, so the
bits of the input are fuel enough. -/
def compressed (input : ByteArray) (literals distances : Code) : Nat → Step Unit
  | 0 => fun s => .error (.cutShort, s)
  | fuel + 1 => fun s =>
      match symbol input literals s with
      | .error trouble => .error trouble
      | .ok (n, s) =>
          if n < 256 then compressed input literals distances fuel (s.emit (.ofNat n))
          else if n = 256 then .ok ((), s)
          else
            match extended input lengthTable (n - 257) s with
            | .error trouble => .error trouble
            | .ok (length, s) =>
                match symbol input distances s with
                | .error trouble => .error trouble
                | .ok (row, s) =>
                    match extended input distanceTable row s with
                    | .error trouble => .error trouble
                    | .ok (distance, s) =>
                        compressed input literals distances fuel (s.copy distance length)

/-- Copies bytes of the input. -/
def stored (input : ByteArray) : Nat → Step Unit
  | 0 => fun s => .ok ((), s)
  | n + 1 => fun s =>
      match bits input 8 s with
      | .error trouble => .error trouble
      | .ok (b, s) => stored input n (s.emit (.ofNat b))

/-- The lengths of the code for literals that needs no description. -/
def fixedLiterals : Array Nat :=
  (List.range 288).toArray.map fun n =>
    if n < 144 then 8 else if n < 256 then 9 else if n < 280 then 7 else 8

def fixedDistances : Array Nat := (List.replicate 32 5).toArray

/-- The order in which the lengths of the code of lengths are given. -/
def lengthOrder : List Nat := [16, 17, 18, 0, 8, 7, 9, 6, 10, 5, 11, 4, 12, 3, 13, 2, 14, 1, 15]

/-- Reads the lengths of the code of lengths. -/
def lengthLengths (input : ByteArray) : List Nat → Array Nat → Step (Array Nat)
  | [], lengths => fun s => .ok (lengths, s)
  | i :: order, lengths => fun s =>
      match bits input 3 s with
      | .error trouble => .error trouble
      | .ok (n, s) => lengthLengths input order (lengths.setIfInBounds i n) s

/-- Reads `count` code lengths, with runs of the last one and of zero. -/
def codeLengths (input : ByteArray) (code : Code) (count : Nat) :
    Nat → Array Nat → Step (Array Nat)
  | 0, _ => fun s => .error (.corrupt, s)
  | fuel + 1, lengths => fun s =>
      if lengths.size = count then .ok (lengths, s)
      else if count < lengths.size then .error (.corrupt, s)
      else
        match symbol input code s with
        | .error trouble => .error trouble
        | .ok (n, s) =>
            if n < 16 then codeLengths input code count fuel (lengths.push n) s
            else if n = 16 && lengths.isEmpty then .error (.corrupt, s)
            else
              let (value, least, extra) :=
                if n = 16 then (lengths.back?.getD 0, 3, 2)
                else if n = 17 then (0, 3, 3) else (0, 11, 7)
              match bits input extra s with
              | .error trouble => .error trouble
              | .ok (more, s) =>
                  codeLengths input code count fuel
                    (lengths ++ (List.replicate (least + more) value).toArray) s

/-- Reads the two codes of a block that describes its own. -/
def codes (input : ByteArray) : Step (Code × Code) := fun s =>
  match bits input 14 s with
  | .error trouble => .error trouble
  | .ok (sizes, s) =>
      let literals := sizes % 32 + 257
      let distances := sizes / 32 % 32 + 1
      if 286 < literals || 30 < distances then .error (.corrupt, s)
      else
        match lengthLengths input (lengthOrder.take (sizes / 1024 + 4))
            (List.replicate 19 0).toArray s with
        | .error trouble => .error trouble
        | .ok (lengths, s) =>
            match Code.ofLengths? lengths with
            | none => .error (.corrupt, s)
            | some code =>
                let count := literals + distances
                match codeLengths input code count (count + 1) #[] s with
                | .error trouble => .error trouble
                | .ok (lengths, s) =>
                    match Code.ofLengths? (lengths.extract 0 literals),
                        Code.ofLengths? (lengths.extract literals count) with
                    | some a, some b => .ok ((a, b), s)
                    | _, _ => .error (.corrupt, s)

/-- Reads one block; the flag tells whether it is the last. -/
def block (input : ByteArray) : Step Bool := fun s =>
  match bits input 3 s with
  | .error trouble => .error trouble
  | .ok (header, s) =>
      let last := header % 2 = 1
      let body : Step Unit := fun s =>
        match header / 2 with
        | 0 =>
            match bits input 32 { s with position := (s.position + 7) / 8 * 8 } with
            | .error trouble => .error trouble
            | .ok (n, s) =>
                if n % 65536 + n / 65536 = 65535 then stored input (n % 65536) s
                else .error (.corrupt, s)
        | 1 =>
            match Code.ofLengths? fixedLiterals, Code.ofLengths? fixedDistances with
            | some literals, some distances =>
                compressed input literals distances (8 * input.size + 1) s
            | _, _ => .error (.corrupt, s)
        | 2 =>
            match codes input s with
            | .error trouble => .error trouble
            | .ok ((literals, distances), s) =>
                compressed input literals distances (8 * input.size + 1) s
        | _ => .error (.corrupt, s)
      match body s with
      | .error trouble => .error trouble
      | .ok (_, s) => .ok (last, s)

/-- Reads blocks up to the last. Each takes three bits at least. -/
def blocks (input : ByteArray) : Nat → Step Unit
  | 0 => fun s => .error (.cutShort, s)
  | fuel + 1 => fun s =>
      match block input s with
      | .error trouble => .error trouble
      | .ok (true, s) => .ok ((), s)
      | .ok (false, s) => blocks input fuel s

end SqlBackup.Codec.Inflate
