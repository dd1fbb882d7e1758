import SqlBackup.Codec.Zstd.Bits

/-!
# Finite state codes

A code of symbols with given shares of a table of `2^log` states. Each state has a symbol, and the
next state is a base plus a few bits of the stream.
-/
namespace SqlBackup.Codec.Zstd

/-- What a state stands for and leads to. -/
structure Cell where
  symbol : Nat
  bits : Nat
  base : Nat
  deriving Inhabited

structure StateTable where
  log : Nat
  cells : Array Cell

namespace StateTable

/-- A code whose only symbol takes no bits. -/
def constant (symbol : Nat) : StateTable := ⟨0, #[⟨symbol, 0, 0⟩]⟩

def cell (t : StateTable) (state : Nat) : Cell := t.cells.getD state ⟨0, 0, 0⟩

/-- The shares of the symbols and the length of their description in bytes. A share of -1 is one
state at the end of the table. -/
structure Shares where
  log : Nat
  shares : List Int
  length : Nat

/-- A description that is being read. -/
structure Reading where
  /-- The index of the next bit. -/
  position : Nat
  /-- What is left of the table, plus one. -/
  remaining : Nat
  /-- The shares so far, the last one first. -/
  shares : List Int

/-- Reads how many symbols have no share: runs of three, up to a shorter one. -/
def zeroRun (input : ByteArray) (base limit : Nat) : Nat → Nat → Nat → Nat × Nat
  | 0, position, count => (count, position)
  | fuel + 1, position, count =>
      let n := bitsAt input base limit position 2
      if n = 3 then zeroRun input base limit fuel (position + 2) (count + 3)
      else (count + n, position + 2)

/-- Reads the share of one symbol. Shares that are too large for what is left save a bit. -/
def share (input : ByteArray) (base limit : Nat) (r : Reading) : Reading :=
  let width := log2 r.remaining + 1
  let threshold := Nat.pow 2 (width - 1)
  let most := 2 * threshold - 1 - r.remaining
  let short := bitsAt input base limit r.position (width - 1)
  let (count, position) :=
    if short < most then (short, r.position + (width - 1))
    else
      let long := bitsAt input base limit r.position width
      (if threshold ≤ long then long - most else long, r.position + width)
  let value : Int := (count : Int) - 1
  { position, remaining := r.remaining - value.natAbs, shares := value :: r.shares }

/-- Reads shares until the table is full. There are at most `symbols` of them. -/
def readShares (input : ByteArray) (base limit symbols : Nat) : Nat → Reading → Option Reading
  | 0, _ => none
  | fuel + 1, r =>
      if r.remaining ≤ 1 then some r
      else if symbols ≤ r.shares.length then some r
      else
        let r := share input base limit r
        if r.shares.head? == some 0 && 1 < r.remaining then
          let (zeros, position) := zeroRun input base limit (symbols + 1) r.position 0
          if symbols < r.shares.length + zeros then none
          else
            readShares input base limit symbols fuel
              { r with position, shares := List.replicate zeros 0 ++ r.shares }
        else readShares input base limit symbols fuel r

/-- Reads the description of a code for at most `symbols` symbols in the `length` bytes at
`base`. -/
def Shares.read? (input : ByteArray) (base length symbols maxLog : Nat) : Option Shares :=
  let limit := 8 * length
  let log := bitsAt input base limit 0 4 + 5
  if length = 0 || maxLog < log then none
  else
    match readShares input base limit symbols (Nat.pow 2 log + symbols + 2)
        ⟨4, Nat.pow 2 log + 1, []⟩ with
    | none => none
    | some r =>
        if r.remaining != 1 || limit < r.position then none
        else some ⟨log, r.shares.reverse, (r.position + 7) / 8⟩

/-- The place a fixed step further in a table of this size. -/
def further (size position : Nat) : Nat := (position + size / 2 + size / 8 + 3) % size

/-- Puts `count` states of a symbol into the table, a fixed step apart, passing over the states at
its end that are taken. -/
def spread (size free symbol : Nat) : Nat → Nat → Nat → Array Nat → Nat × Array Nat
  | 0, _, position, table => (position, table)
  | fuel + 1, count, position, table =>
      if free ≤ position then spread size free symbol fuel count (further size position) table
      else
        match count with
        | 0 => (position, table)
        | count + 1 =>
            spread size free symbol fuel count (further size position)
              (table.setIfInBounds position symbol)

/-- The symbols of all states. -/
def symbolsOf (s : Shares) : Option (Array Nat) :=
  let size := Nat.pow 2 s.log
  let indexed := s.shares.zipIdx
  let rare := indexed.filterMap fun (share, symbol) => if share = -1 then some symbol else none
  let free := size - rare.length
  let table := (List.replicate size 0).toArray
  let table := rare.zipIdx.foldl
    (fun table (symbol, k) => table.setIfInBounds (size - 1 - k) symbol) table
  let (position, table) := indexed.foldl
    (fun (position, table) (share, symbol) =>
      if 0 < share then spread size free symbol (2 * size) share.toNat position table
      else (position, table))
    (0, table)
  if position = 0 then some table else none

/-- The cells of the states in order. `next` counts the states of each symbol, from its share
on. -/
def cellsOf (log : Nat) : List Nat → Array Nat → List Cell
  | [], _ => []
  | symbol :: symbols, next =>
      let n := next.getD symbol 1
      let bits := log - log2 n
      ⟨symbol, bits, n * Nat.pow 2 bits - Nat.pow 2 log⟩ ::
        cellsOf log symbols (next.setIfInBounds symbol (n + 1))

/-- The table of these shares. -/
def ofShares? (s : Shares) : Option StateTable :=
  (symbolsOf s).map fun symbols =>
    let next := (s.shares.map Int.natAbs).toArray
    ⟨s.log, (cellsOf s.log symbols.toList next).toArray⟩

/-- The table of shares that are known beforehand. -/
def fixed (log : Nat) (shares : List Int) : StateTable :=
  (ofShares? ⟨log, shares, 0⟩).getD (constant 0)

end StateTable

end SqlBackup.Codec.Zstd
