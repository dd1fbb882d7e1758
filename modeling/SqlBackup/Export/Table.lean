import SqlBackup.Export.Outlet

/-!
# The export of a table

A table is read page by page, in the order of its key, until a page is not full. Each page becomes
statements that insert a bounded number of rows.
-/
namespace SqlBackup.Export

/-- How tables are exported. -/
structure TableOptions where
  /-- How many rows a page has at most. -/
  fetchSize : Nat := 10000
  /-- How many rows a statement inserts at most. -/
  batchRows : Nat := 1000
  dropFirst : Bool := true
  structureOnly : Bool := false
  deriving DecidableEq, Inhabited

/-- No offset reaches this number. -/
def offsetLimit : Nat := Nat.pow 2 64

/-- Writes the rows from an offset on, and tells the offset behind the last one. -/
def exportRows (s : Session) (options : TableOptions) (table : String) (order : List String)
    (offset : Nat) (out : Outlet) : Work (Nat × Outlet) := do
  let limit := max 1 options.fetchSize
  let page ← s.call (.query (Sql.selectPage table order limit offset))
  if _empty : page.rows.length = 0 then pure (offset, out)
  else
    let out ← out.putAll (Dump.inserts table (max 1 options.batchRows) page)
    let next := offset + page.rows.length
    if _last : page.rows.length < limit ∨ offsetLimit ≤ next then pure (next, out)
    else exportRows s options table order next out
termination_by offsetLimit - offset
decreasing_by
  simp only [not_or, Nat.not_le] at _last
  omega

/-- The statement that creates a table. -/
def creation (s : Session) (table : String) : Work String := do
  let query := Sql.showCreateTable table
  let result ← s.call (.query query)
  match result.cellText? 0 Sql.createTableColumn with
  | some sql => pure sql
  | none => .fail (.session (.unexpectedResult query "no creation statement returned"))

/-- Writes a table, and tells how many rows it has. -/
def exportTable (s : Session) (options : TableOptions) (database table : String) (out : Outlet) :
    Work (Nat × Outlet) := do
  let out ← out.putAll (Dump.structureHeading table options.dropFirst)
  let sql ← creation s table
  let out ← out.put (.statement sql)
  if options.structureOnly then pure (0, out)
  else
    let out ← out.putAll (Dump.dataHeading table)
    let order ← s.call (.query (Sql.orderColumns database table))
    exportRows s options table order.firstColumn 0 out

end SqlBackup.Export
