import SqlBackup.Codec.Output
import SqlBackup.Codec.Zstd.PrefixTable

/-!
# Blocks of Zstandard

A compressed block is a run of literals and a list of sequences. A sequence copies some literals
and then repeats an earlier stretch of the output; what is left of the literals comes last. Codes
and the last three offsets carry over from block to block of a frame.
-/
namespace SqlBackup.Codec.Zstd

/-- The most bytes that a block makes. -/
def blockLimit : Nat := 128 * 1024

/-- What carries over to the next block of a frame. -/
structure Memory where
  literals : Option PrefixTable
  lengths : Option StateTable
  offsets : Option StateTable
  matchings : Option StateTable
  /-- The last three offsets, the latest first. -/
  recent : Nat × Nat × Nat

def Memory.initial : Memory := ⟨none, none, none, none, (1, 4, 8)⟩

/-- The literals of a block, and the offset behind them. -/
structure Literals where
  bytes : Array UInt8
  behind : Nat
  table : Option PrefixTable

/-- Reads literals as four streams, of which the first three have their lengths given. Bits may be
left over where every stream has eight bytes or more and no word is longer than eleven bits. -/
def fourStreams (input : ByteArray) (t : PrefixTable) (base length count : Nat) :
    Option (Array UInt8) :=
  let a := numberAt input base 2
  let b := numberAt input (base + 2) 2
  let c := numberAt input (base + 4) 2
  let part := (count + 3) / 4
  if length < 6 + a + b + c || count < 3 * part || count < 6 then none
  else
    let data := base + 6
    let last := length - 6 - a - b - c
    let exact := a < 8 || b < 8 || c < 8 || last < 8 || 11 < t.log || count = 3 * part
    ((t.literals? input data a part exact #[]).bind fun x =>
      (t.literals? input (data + a) b part exact x).bind fun x =>
        (t.literals? input (data + a + b) c part exact x).bind fun x =>
          t.literals? input (data + a + b + c) last (count - 3 * part) exact x)

/-- Reads coded literals. `form` tells the width of the two sizes and the number of streams. -/
def codedLiterals (input : ByteArray) (m : Memory) (limit base behind : Nat) (fresh : Bool)
    (form : Nat) : Option Literals :=
  let (width, header) := match form with
    | 2 => (14, 4)
    | 3 => (18, 5)
    | _ => (10, 3)
  if behind < base + header then none
  else
    let sizes := numberAt input base header / 16
    let count := sizes % Nat.pow 2 width
    let length := sizes / Nat.pow 2 width % Nat.pow 2 width
    let data := base + header
    if limit < count || behind < data + length then none
    else
      let table :=
        if fresh then PrefixTable.read? input data length
        else m.literals.map fun t => (t, 0)
      match table with
      | none => none
      | some (t, described) =>
          let streams := data + described
          let left := length - described
          let bytes :=
            if form = 0 then t.literals? input streams left count true #[]
            else fourStreams input t streams left count
          bytes.map fun bytes => ⟨bytes, data + length, some t⟩

/-- Reads the literals of the block between the two offsets. -/
def literals (input : ByteArray) (m : Memory) (limit base behind : Nat) : Option Literals :=
  let first := byteNumber input base
  let form := first / 4 % 4
  if behind < base + 2 then none
  else if 2 ≤ first % 4 then codedLiterals input m limit base behind (first % 4 == 2) form
  else
    let (header, count) := match form with
      | 1 => (2, numberAt input base 2 / 16)
      | 3 => (3, numberAt input base 3 / 16)
      | _ => (1, first / 8)
    let data := base + header
    if limit < count then none
    else if first % 4 = 0 then
      if behind < data + count then none
      else some ⟨(input.extract data (data + count)).data, data + count, m.literals⟩
    else if behind < data + 1 then none
    else some ⟨(List.replicate count (byteAt input data)).toArray, data + 1, m.literals⟩

/-- A kind of number in a sequence: how many codes it has, how large its table may be, the table
that needs no description, and what each code stands for. -/
structure Field where
  symbols : Nat
  maxLog : Nat
  default : StateTable
  /-- The least number of a code and how many bits follow. -/
  value : Nat → Nat × Nat

/-- How many literals go before a match. -/
def lengthField : Field where
  symbols := 36
  maxLog := 9
  default := .fixed 6
    [4, 3, 2, 2, 2, 2, 2, 2, 2, 2, 2, 2, 2, 1, 1, 1, 2, 2, 2, 2, 2, 2, 2, 2, 2, 3, 2, 1, 1, 1, 1,
      1, -1, -1, -1, -1]
  value code :=
    if code < 16 then (code, 0)
    else
      #[(16, 1), (18, 1), (20, 1), (22, 1), (24, 2), (28, 2), (32, 3), (40, 3), (48, 4), (64, 6),
        (128, 7), (256, 8), (512, 9), (1024, 10), (2048, 11), (4096, 12), (8192, 13), (16384, 14),
        (32768, 15), (65536, 16)].getD (code - 16) (0, 0)

/-- How far back a match is. -/
def offsetField : Field where
  symbols := 32
  maxLog := 8
  default := .fixed 5
    [1, 1, 1, 1, 1, 1, 2, 2, 2, 1, 1, 1, 1, 1, 1, 1, 1, 1, 1, 1, 1, 1, 1, 1, -1, -1, -1, -1, -1]
  value code := (Nat.pow 2 code, code)

/-- How long a match is. -/
def matchField : Field where
  symbols := 53
  maxLog := 9
  default := .fixed 6
    [1, 4, 3, 2, 2, 2, 2, 2, 2, 1, 1, 1, 1, 1, 1, 1, 1, 1, 1, 1, 1, 1, 1, 1, 1, 1, 1, 1, 1, 1, 1,
      1, 1, 1, 1, 1, 1, 1, 1, 1, 1, 1, 1, 1, 1, 1, -1, -1, -1, -1, -1, -1, -1]
  value code :=
    if code < 32 then (code + 3, 0)
    else
      #[(35, 1), (37, 1), (39, 1), (41, 1), (43, 2), (47, 2), (51, 3), (59, 3), (67, 4), (83, 4),
        (99, 5), (131, 7), (259, 8), (515, 9), (1027, 10), (2051, 11), (4099, 12), (8195, 13),
        (16387, 14), (32771, 15), (65539, 16)].getD (code - 32) (0, 0)

/-- The table of a field in a block, and the offset behind its description. -/
def fieldTable (input : ByteArray) (f : Field) (mode : Nat) (before : Option StateTable)
    (base behind : Nat) : Option (StateTable × Nat) :=
  match mode with
  | 0 => some (f.default, base)
  | 1 =>
      let code := byteNumber input base
      if behind ≤ base || f.symbols ≤ code then none else some (.constant code, base + 1)
  | 2 =>
      match StateTable.Shares.read? input base (behind - base) f.symbols f.maxLog with
      | none => none
      | some shares => (StateTable.ofShares? shares).map fun t => (t, base + shares.length)
  | _ => before.map fun t => (t, base)

/-- A block at work. -/
structure Run where
  output : Output
  stream : Backward
  recent : Nat × Nat × Nat
  /-- How many literals are used up. -/
  used : Nat

/-- The offset that a number stands for, and the recent offsets after it. Small numbers name a
recent offset, the next one where there are no literals. A wrong one comes out as 0. -/
def resolve (recent : Nat × Nat × Nat) (number length : Nat) : Nat × (Nat × Nat × Nat) :=
  let (a, b, c) := recent
  if 3 < number then (number - 3, (number - 3, a, b))
  else
    match (if length = 0 then number + 1 else number) with
    | 1 => (a, recent)
    | 2 => (b, (b, a, c))
    | 3 => (c, (c, a, b))
    | _ => (a - 1, (a - 1, a, b))

/-- Adds the bytes between two indices. -/
def pushRange (bytes : Array UInt8) (o : Output) (i : Nat) : Nat → Output
  | 0 => o
  | n + 1 => pushRange bytes (o.push (bytes.getD i 0)) (i + 1) n

/-- Repeats what is `distance` back, byte by byte. -/
def copyBack (o : Output) (start distance : Nat) : Nat → Output
  | 0 => o
  | n + 1 => copyBack (o.push (o.back start distance)) start distance n

/-- The numbers of one sequence: its literals, its offset and the length of its match. -/
def sequenceNumbers (input : ByteArray) (b : Backward) (lengthCode offsetCode matchCode : Nat) :
    Nat × Nat × Nat × Backward :=
  let (offsetBase, offsetBits) := offsetField.value offsetCode
  let (matchBase, matchBits) := matchField.value matchCode
  let (lengthBase, lengthBits) := lengthField.value lengthCode
  let (offset, b) := b.take input offsetBits
  let (matched, b) := b.take input matchBits
  let (length, b) := b.take input lengthBits
  (lengthBase + length, offsetBase + offset, matchBase + matched, b)

/-- The three tables of a block's sequences. -/
structure Tables where
  lengths : StateTable
  offsets : StateTable
  matchings : StateTable

/-- Carries sequences out. `start` is where the frame's output starts and `made` where the
block's does. -/
def sequences (input : ByteArray) (literals : Array UInt8) (t : Tables) (limit start made : Nat) :
    Nat → Nat → Nat → Nat → Run → Option Run
  | 0, _, _, _, r => if r.stream.exhausted then some r else none
  | count + 1, lengthState, offsetState, matchState, ⟨output, stream, recent, used⟩ =>
      let lengthCell := t.lengths.cell lengthState
      let offsetCell := t.offsets.cell offsetState
      let matchCell := t.matchings.cell matchState
      let (length, number, matched, stream) :=
        sequenceNumbers input stream lengthCell.symbol offsetCell.symbol matchCell.symbol
      let (distance, recent) := resolve recent number length
      let output := pushRange literals output used (min length (literals.size - used))
      if stream.overrun || literals.size < used + length || distance = 0 ||
          output.bytes.size - start < distance ||
          limit < output.bytes.size - made + matched then none
      else
        let output := copyBack output start distance matched
        if count = 0 then
          sequences input literals t limit start made count lengthState offsetState matchState
            ⟨output, stream, recent, used + length⟩
        else
          let (a, stream) := stream.take input lengthCell.bits
          let (b, stream) := stream.take input matchCell.bits
          let (c, stream) := stream.take input offsetCell.bits
          sequences input literals t limit start made count (lengthCell.base + a)
            (offsetCell.base + c) (matchCell.base + b) ⟨output, stream, recent, used + length⟩

/-- How many sequences a block has, and the offset behind that number. -/
def sequenceCount (input : ByteArray) (base behind : Nat) : Option (Nat × Nat) :=
  let first := byteNumber input base
  if behind ≤ base then none
  else if first < 128 then some (first, base + 1)
  else if first < 255 then
    if behind < base + 2 then none
    else some ((first - 128) * 256 + byteNumber input (base + 1), base + 2)
  else if behind < base + 3 then none
  else some (numberAt input (base + 1) 2 + 0x7F00, base + 3)

/-- Carries out the sequences between the two offsets, and adds the literals that are left. -/
def sequenceSection (input : ByteArray) (m : Memory) (l : Literals) (limit start behind : Nat)
    (o : Output) : Option (Memory × Output) :=
  let made := o.bytes.size
  let m := { m with literals := l.table }
  match sequenceCount input l.behind behind with
  | none => none
  | some (0, base) =>
      if base != behind then none else some (m, pushRange l.bytes o 0 l.bytes.size)
  | some (count, base) =>
      let modes := byteNumber input base
      if behind ≤ base || modes % 4 != 0 then none
      else
        (fieldTable input lengthField (modes / 64) m.lengths (base + 1) behind).bind
          fun (lengths, base) =>
        (fieldTable input offsetField (modes / 16 % 4) m.offsets base behind).bind
          fun (offsets, base) =>
        (fieldTable input matchField (modes / 4 % 4) m.matchings base behind).bind
          fun (matchings, base) =>
        (Backward.ofBytes? input base (behind - base)).bind fun stream =>
          let (lengthState, stream) := stream.take input lengths.log
          let (offsetState, stream) := stream.take input offsets.log
          let (matchState, stream) := stream.take input matchings.log
          (sequences input l.bytes ⟨lengths, offsets, matchings⟩ limit start made count lengthState
            offsetState matchState ⟨o, stream, m.recent, 0⟩).map fun r =>
              ({ m with
                  lengths := some lengths, offsets := some offsets, matchings := some matchings
                  recent := r.recent },
                pushRange l.bytes r.output r.used (l.bytes.size - r.used))

/-- Decodes the compressed block between the two offsets. -/
def block (input : ByteArray) (m : Memory) (limit start base behind : Nat) (o : Output) :
    Option (Memory × Output) :=
  match literals input m limit base behind with
  | none => none
  | some l => sequenceSection input m l limit start behind o

end SqlBackup.Codec.Zstd
