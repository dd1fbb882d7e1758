import SqlBackup.Codec.Zstd.StateTable

/-!
# Prefix codes of literals

A code is given by the weights of its symbols; the last weight follows from the others. A weight
`w` stands for a word of `log + 1 - w` bits, and a weight of 0 for no word. All words of up to
`log` bits are kept in one table.
-/
namespace SqlBackup.Codec.Zstd

structure PrefixTable where
  log : Nat
  /-- For each `log` bits the symbol they start with and the length of its word. -/
  cells : Array (Nat × Nat)

namespace PrefixTable

/-- The longest word of a code. -/
def maxLog : Nat := 12

/-- The table of these weights, which leave out the last. -/
def ofWeights? (weights : List Nat) : Option PrefixTable :=
  let total := (weights.map fun w => if w = 0 then 0 else Nat.pow 2 (w - 1)).foldl (· + ·) 0
  if total = 0 || weights.any (maxLog < ·) then none
  else
    let log := log2 total + 1
    let rest := Nat.pow 2 log - total
    let weights := weights ++ [log2 rest + 1]
    let ones := (weights.filter (· == 1)).length
    if maxLog < log || Nat.pow 2 (log2 rest) != rest || ones < 2 || ones % 2 = 1 then none
    else
      let indexed := weights.zipIdx
      let cells := (List.range log).flatMap fun k =>
        (indexed.filter fun p => p.1 == k + 1).flatMap fun p =>
          List.replicate (Nat.pow 2 k) (p.2, log - k)
      some ⟨log, cells.toArray⟩

/-- Reads weights in a finite state code of two states in turn, until the stream is overrun. The
state that is not updated then gives the last weight. -/
def weightsFrom (input : ByteArray) (t : StateTable) :
    Nat → Backward → Nat → Nat → List Nat → Option (List Nat)
  | 0, _, _, _, _ => none
  | fuel + 1, b, state, other, weights =>
      let cell := t.cell state
      let (n, b) := b.take input cell.bits
      let weights := cell.symbol :: weights
      if b.overrun then some ((t.cell other).symbol :: weights).reverse
      else weightsFrom input t fuel b other (cell.base + n) weights

/-- The weights in the `length` bytes at `base`, which start with the description of the code they
are written in. -/
def codedWeights? (input : ByteArray) (base length : Nat) : Option (List Nat) :=
  match StateTable.Shares.read? input base length 256 6 with
  | none => none
  | some shares =>
      match StateTable.ofShares? shares,
          Backward.ofBytes? input (base + shares.length) (length - shares.length) with
      | some t, some b =>
          let (state, b) := b.take input t.log
          let (other, b) := b.take input t.log
          if b.overrun then none else weightsFrom input t 254 b state other []
      | _, _ => none

/-- The weights that are four bits each, the high ones first. -/
def plainWeights (input : ByteArray) (base count : Nat) : List Nat :=
  (List.range count).map fun i =>
    let b := byteNumber input (base + i / 2)
    if i % 2 = 0 then b / 16 else b % 16

/-- Reads the description of a code in the `length` bytes at `base`, and how long it is. -/
def read? (input : ByteArray) (base length : Nat) : Option (PrefixTable × Nat) :=
  if length = 0 then none
  else
    let header := byteNumber input base
    if header < 128 then
      if length < header + 1 then none
      else
        match (codedWeights? input (base + 1) header).bind ofWeights? with
        | none => none
        | some t => some (t, header + 1)
    else
      let count := header - 127
      let size := (count + 1) / 2
      if length < size + 1 then none
      else
        match ofWeights? (plainWeights input (base + 1) count) with
        | none => none
        | some t => some (t, size + 1)

/-- Reads `count` literals, the last one first in the result. -/
def literalsFrom (input : ByteArray) (t : PrefixTable) :
    Nat → Backward → Array UInt8 → Array UInt8 × Backward
  | 0, b, literals => (literals, b)
  | count + 1, b, literals =>
      let (symbol, bits) := t.cells.getD (b.peek input t.log) (0, 0)
      literalsFrom input t count (b.drop bits) (literals.push (.ofNat symbol))

/-- The `count` literals in the stream of `length` bytes at `base`, behind those of the streams
before. If `exact` they must use the stream up; otherwise bits may be left over. -/
def literals? (input : ByteArray) (t : PrefixTable) (base length count : Nat) (exact : Bool)
    (before : Array UInt8) : Option (Array UInt8) :=
  match Backward.ofBytes? input base length with
  | none => none
  | some b =>
      let (literals, b) := literalsFrom input t count b before
      if b.exhausted || (!exact && !b.overrun) then some literals else none

end PrefixTable

end SqlBackup.Codec.Zstd
