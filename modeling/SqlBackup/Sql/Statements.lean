import SqlBackup.Sql.Quoting

/-!
# Statements and queries of the server

The texts that exports and imports send to a MySQL server. Nothing here talks to a server.
-/
namespace SqlBackup.Sql

/-- The name of the language. -/
def dialectName : String := "mysql"

def createDatabase (database : String) : String :=
  "CREATE DATABASE IF NOT EXISTS " ++ quoteName database

def dropDatabase (database : String) : String :=
  "DROP DATABASE IF EXISTS " ++ quoteName database

def useDatabase (database : String) : String := "USE " ++ quoteName database

/-- One database a row, in the first column. -/
def listDatabases : String := "SHOW DATABASES"

/-- Databases of the server's own, which are not backed up unless they are asked for. -/
def systemDatabases : List String := ["information_schema", "mysql", "performance_schema", "sys"]

/-- One table a row, in the first column. -/
def listTables (database : String) : String :=
  "SHOW FULL TABLES FROM " ++ quoteName database ++ " WHERE Table_type = 'BASE TABLE'"

/-- The statement that creates the table, in the column `createTableColumn`. -/
def showCreateTable (table : String) : String := "SHOW CREATE TABLE " ++ quoteName table

def createTableColumn : Nat := 1

def dropTable (table : String) : String := "DROP TABLE IF EXISTS " ++ quoteName table

/-- One column a row: those of the primary key, or all where there is none. They order the rows of
the table. -/
def orderColumns (database table : String) : String :=
  let scope :=
    "TABLE_SCHEMA = " ++ quoteString database ++ " AND TABLE_NAME = " ++ quoteString table
  "SELECT COLUMN_NAME FROM information_schema.COLUMNS WHERE " ++ scope ++
    " AND (COLUMN_KEY = 'PRI' OR NOT EXISTS " ++
    "(SELECT 1 FROM information_schema.COLUMNS WHERE " ++ scope ++ " AND COLUMN_KEY = 'PRI')) " ++
    "ORDER BY ORDINAL_POSITION"

/-- A page of a table's rows. -/
def selectPage (table : String) (order : List String) (limit offset : Nat) : String :=
  "SELECT * FROM " ++ quoteName table ++
    (if order.isEmpty then "" else " ORDER BY " ++ ", ".intercalate (order.map quoteName)) ++
    " LIMIT " ++ toString limit ++ " OFFSET " ++ toString offset

/-- Pins the session to one snapshot, so that all pages show the same data. -/
def beginSnapshot : List String :=
  ["SET SESSION TRANSACTION ISOLATION LEVEL REPEATABLE READ",
    "START TRANSACTION WITH CONSISTENT SNAPSHOT"]

/-- Lets the snapshot go. -/
def endSnapshot : List String := ["COMMIT"]

/-- The session variables that switch the checks of foreign and unique keys. -/
def constraintVariables : List String := ["FOREIGN_KEY_CHECKS", "UNIQUE_CHECKS"]

def readVariable (name : String) : String := "SELECT @@SESSION." ++ name

/-- Sets a session variable to a literal. -/
def setVariable (name literal : String) : String := "SET SESSION " ++ name ++ " = " ++ literal

/-- What a dump starts with, before any table. -/
def prologue : List String :=
  ["SET NAMES utf8mb4", "SET FOREIGN_KEY_CHECKS = 0", "SET UNIQUE_CHECKS = 0",
    "SET AUTOCOMMIT = 0"]

/-- What a dump ends with, behind the last table. -/
def epilogue : List String :=
  ["COMMIT", "SET UNIQUE_CHECKS = 1", "SET FOREIGN_KEY_CHECKS = 1"]

end SqlBackup.Sql
