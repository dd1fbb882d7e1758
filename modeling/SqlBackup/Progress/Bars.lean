import SqlBackup.Progress.Event

/-!
# Progress bars

A reader follows each database by a bar. A bar has a length, which events may change, and a
position. Events move a bar even after its end.
-/
namespace SqlBackup.Progress

/-- The bar of a database. -/
structure Bar where
  length : Nat := 100
  position : Nat := 0
  ended : Bool := false
  deriving DecidableEq, Inhabited

namespace Bar

/-- Moves a bar to its end. -/
def finish (b : Bar) : Bar := { b with position := b.length, ended := true }

/-- Moves a bar as an event tells. -/
def apply (b : Bar) : Event → Bar
  | .started _ _ _ => b
  | .table _ _ index total _ => { b with length := total, position := index }
  | .loading _ bytesRead (some total) _ => { b with length := total, position := bytesRead }
  | .loading _ _ none _ => { b with position := 0 }
  | .percent _ (some percent) _ => { b with length := 100, position := percent }
  | .percent _ none _ => { b with length := 100 }
  | .finished _ => b.finish

end Bar

/-- The bars, by database. -/
structure Bars where
  bars : List (String × Bar) := []
  deriving Inhabited

namespace Bars

def bar? (b : Bars) (database : String) : Option Bar :=
  (b.bars.find? (·.1 == database)).map (·.2)

/-- Changes the bar of a database, which is made if there is none. -/
def update (f : Bar → Bar) (database : String) : List (String × Bar) → List (String × Bar)
  | [] => [(database, f {})]
  | (name, bar) :: bars =>
      if name == database then (name, f bar) :: bars
      else (name, bar) :: update f database bars

/-- Applies an event to the bar of its database. -/
def apply (b : Bars) (event : Event) : Bars :=
  ⟨update (·.apply event) event.database b.bars⟩

/-- Ends all bars that have not ended. -/
def finishAll (b : Bars) : Bars :=
  ⟨b.bars.map fun e => (e.1, if e.2.ended then e.2 else e.2.finish)⟩

/-- The position of a bar, if there is one. -/
def position? (b : Bars) (database : String) : Option Nat := (b.bar? database).map (·.position)

end Bars

end SqlBackup.Progress
