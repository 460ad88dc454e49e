import SchemaDesign.TypeSignature
import SchemaDesign.Sql.Delimited

/-!
# Dialects

All dialects share one template for statements.  A dialect is a record of what it changes there:
the statement that comes first, the text that closes a table, the place of foreign keys, and the
quote that delimits table names.  It also lists the signatures of the types it offers, ordered by
their characters.
-/

namespace SchemaDesign

/-- Where a foreign key stands in a statement. -/
inductive ForeignKeyPlace where
  /-- In a clause of its own after the columns. -/
  | clause
  /-- In a named clause of its own after the columns. -/
  | namedClause
  /-- On the column. -/
  | inline
deriving Repr, DecidableEq

inductive Dialect where
  | sqlite
  | postgres
  | mysql
  | sqlServer
deriving Repr, DecidableEq, Inhabited

namespace Dialect

def all : List Dialect := [.sqlite, .postgres, .mysql, .sqlServer]

/-- What a dialect changes in the shared template. -/
structure Rules where
  name : String
  /-- The statement before all tables; empty for none. -/
  preamble : String
  /-- Stands between the closing parenthesis and the semicolon. -/
  tableSuffix : String
  foreignKeys : ForeignKeyPlace
  quote : Char
  typeTemplates : List String

def sqliteRules : Rules where
  name := "sqlite"
  preamble := "PRAGMA foreign_keys = ON;"
  tableSuffix := ""
  foreignKeys := .clause
  quote := '"'
  typeTemplates :=
    ["BIGINT", "BLOB", "BOOLEAN", "CHARACTER(n)", "CLOB", "DATE", "DATETIME", "DECIMAL(p, s)",
      "DOUBLE", "DOUBLE PRECISION", "FLOAT", "INT", "INT2", "INT8", "INTEGER", "MEDIUMINT",
      "NATIVE CHARACTER(n)", "NCHAR(n)", "NUMERIC", "NVARCHAR(n)", "REAL", "SMALLINT", "TEXT",
      "TINYINT", "UNSIGNED BIG INT", "VARCHAR(n)", "VARYING CHARACTER(n)"]

def postgresRules : Rules where
  name := "postgres"
  preamble := ""
  tableSuffix := ""
  foreignKeys := .namedClause
  quote := '"'
  typeTemplates :=
    ["BIGINT", "BIGSERIAL", "BIT VARYING(n)", "BIT(n)", "BOOL", "BOOLEAN", "BOX", "BYTEA",
      "CHAR(n)", "CHARACTER VARYING(n)", "CHARACTER(n)", "CIDR", "CIRCLE", "DATE", "DECIMAL(p,s)",
      "DOUBLE PRECISION", "FLOAT4", "FLOAT8", "INET", "INT", "INT2", "INT4", "INT8", "INTEGER",
      "INTERVAL", "JSON", "JSONB", "LINE", "LSEG", "MACADDR", "MACADDR8", "MONEY", "NUMERIC(p,s)",
      "PATH", "PG_LSN", "PG_SNAPSHOT", "POINT", "POLYGON", "REAL", "SERIAL", "SERIAL2", "SERIAL4",
      "SERIAL8", "SMALLINT", "SMALLSERIAL", "TEXT", "TIME(p)", "TIME(p) WITH TIME ZONE",
      "TIMESTAMP(p)", "TIMESTAMP(p) WITH TIME ZONE", "TIMESTAMPTZ", "TIMETZ", "TSQUERY",
      "TSVECTOR", "TXID_SNAPSHOT", "UUID", "VARBIT(n)", "VARCHAR(n)", "XML"]

/-- Only one storage engine enforces foreign keys, so tables name it. -/
def mysqlRules : Rules where
  name := "mysql"
  preamble := ""
  tableSuffix := " ENGINE=InnoDB"
  foreignKeys := .namedClause
  quote := '\x60'
  typeTemplates :=
    ["BIGINT", "BIT", "BLOB", "BOOL", "CHAR(m)", "DATE", "DATETIME", "DEC(m, d)", "DECIMAL(m, d)",
      "DOUBLE", "DOUBLE PRECISION", "FLOAT", "INT", "INTEGER", "JSON", "LONGBLOB", "LONGTEXT",
      "MEDIUMBLOB", "MEDIUMINT", "MEDIUMTEXT", "NUMERIC(m, d)", "REAL", "SMALLINT", "TEXT",
      "TIME", "TIMESTAMP(n)", "TINYBLOB", "TINYINT", "TINYTEXT", "VARCHAR(m)", "YEAR(n)"]

def sqlServerRules : Rules where
  name := "tsql"
  preamble := ""
  tableSuffix := ""
  foreignKeys := .inline
  quote := '"'
  typeTemplates :=
    ["BIGINT", "BINARY(n)", "BIT", "CHAR(n)", "DATE", "DATETIME", "DATETIME2(p)",
      "DATETIMEOFFSET(p)", "DECIMAL(p,s)", "FLOAT(n)", "GEOGRAPHY", "GEOMETRY", "IMAGE", "INT",
      "JSON", "MONEY", "NTEXT", "NUMERIC(p,s)", "REAL", "ROWVERSION", "SMALLDATETIME", "SMALLINT",
      "SMALLMONEY", "SQL_VARIANT", "TEXT", "TIME(p)", "TINYINT", "UNIQUEIDENTIFIER",
      "VARBINARY(n)", "VARCHAR(n)", "VECTOR(d)", "XML"]

def rules : Dialect → Rules
  | .sqlite => sqliteRules
  | .postgres => postgresRules
  | .mysql => mysqlRules
  | .sqlServer => sqlServerRules

def name (dialect : Dialect) : String := dialect.rules.name

def preamble (dialect : Dialect) : String := dialect.rules.preamble

def tableSuffix (dialect : Dialect) : String := dialect.rules.tableSuffix

def foreignKeys (dialect : Dialect) : ForeignKeyPlace := dialect.rules.foreignKeys

def delimited (dialect : Dialect) (name : String) : String :=
  Sql.delimited dialect.rules.quote name

def typeTemplates (dialect : Dialect) : List TypeSignature :=
  dialect.rules.typeTemplates.map .parse

/-- The dialect that a text names, in any case.  Only ASCII letters have capital forms here: no
other character is the capital form of a letter of these names. -/
def ofName? (text : String) : Option Dialect :=
  let plain := text.toLower
  if plain ∈ ["sqlite", "sqlite3"] then some .sqlite
  else if plain ∈ ["postgres", "postgresql", "pg"] then some .postgres
  else if plain ∈ ["mysql", "mariadb"] then some .mysql
  else if plain ∈ ["tsql", "mssql", "sqlserver"] then some .sqlServer
  else none

def occursIn (pattern : List Char) : List Char → Bool
  | [] => pattern.isEmpty
  | c :: rest => pattern.isPrefixOf (c :: rest) || occursIn pattern rest

/-- The dialect that the description of a database driver speaks of. -/
def ofDriverName? (description : String) : Option Dialect :=
  let plain := description.toLower.toList
  let mentions (pattern : String) : Bool := occursIn pattern.toList plain
  if mentions "sqlite" then some .sqlite
  else if mentions "postgresql" || mentions "psqlodbc" then some .postgres
  else if mentions "mysql" || mentions "mariadb" then some .mysql
  else if mentions "sql server" then some .sqlServer
  else none

end Dialect

end SchemaDesign
