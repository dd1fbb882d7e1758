import SqlBackup.Fault
import SqlBackup.Glob.Match

/-!
# The tables of an export

A filter names the tables that are wanted, all where it names none, and the patterns of those that
are left out.
-/
namespace SqlBackup

/-- Which tables of a database are exported. -/
structure TableFilter where
  /-- The wanted tables in their order; none stand for all. -/
  wanted : List String
  /-- The patterns of tables that are left out. -/
  exclude : List (List Glob.Token)
  deriving Inhabited

namespace TableFilter

/-- The filter that leaves nothing out. -/
def all : TableFilter := ⟨[], []⟩

/-- Reads patterns, up to the first that cannot be read. -/
def readPatterns : List String → Except Fault (List (List Glob.Token))
  | [] => .ok []
  | p :: ps =>
      match Glob.tokens p with
      | .error fault =>
          .error (.invalidOptions ("Invalid table exclusion pattern '" ++ p ++
            "': error parsing glob '" ++ p ++ "': " ++ fault.message))
      | .ok ts => (readPatterns ps).map (ts :: ·)

/-- A filter of these tables and patterns. -/
def ofPatterns (wanted patterns : List String) : Except Fault TableFilter :=
  (readPatterns patterns).map fun exclude => ⟨wanted, exclude⟩

/-- Whether a table is left out. -/
def excludes (f : TableFilter) (table : String) : Bool :=
  f.exclude.any fun ts => Glob.matchesTokens ts (Text.Utf8.encode table)

/-- The tables to export of those that exist. All wanted ones must exist, even those that a
pattern then leaves out. -/
def select (f : TableFilter) (available : List String) : Except Fault (List String) :=
  if f.wanted.isEmpty then .ok (available.filter (!f.excludes ·))
  else
    let missing := f.wanted.filter (!available.contains ·)
    if missing.isEmpty then .ok (f.wanted.filter (!f.excludes ·))
    else .error (.invalidOptions ("Tables not found: " ++ ", ".intercalate missing))

@[simp] theorem excludes_all (table : String) : all.excludes table = false := rfl

theorem select_all (available : List String) : all.select available = .ok available := by
  simp [select, all, excludes]

end TableFilter

end SqlBackup
