import SchemaDesign.Identity

/-!
# Designs

A design is a flat collection of tables, columns and relations.  A column names the table that
owns it, and a relation names the table, and possibly the column, at each of its two ends.  Nothing
in the type makes these references resolve; a design read from a file may hold anything, and the
modules on gates and issues say which designs are sound.

A relation has no id of its own.  An inheritance relation leads from a table to its parent and has
no columns at its ends.
-/

namespace SchemaDesign

/-- How inheritance hierarchies become plain tables. -/
inductive InheritanceKind where
  /-- Every hierarchy becomes its root table with a discriminator column. -/
  | singleTable
  /-- Every table stays, and each descendant shares the key of its root. -/
  | classTable
  /-- Columns are copied down to the descendants, and abstract tables disappear. -/
  | concreteTable
deriving Repr, DecidableEq, Inhabited

namespace InheritanceKind

def all : List InheritanceKind := [.singleTable, .classTable, .concreteTable]

def name : InheritanceKind → String
  | .singleTable => "SingleTable"
  | .classTable => "ClassTable"
  | .concreteTable => "ConcreteTable"

/-- A text with ASCII capitals made small and hyphens made underscores.  No other character is
the capital form of a letter of the names below. -/
def plainName (text : String) : String :=
  text.toLower.map fun c => if c = '-' then '_' else c

/-- The kind that a text names: its name in any case, the name in two words, or its first word. -/
def ofName? (text : String) : Option InheritanceKind :=
  let plain := plainName text
  if plain ∈ ["singletable", "single_table", "single"] then some .singleTable
  else if plain ∈ ["classtable", "class_table", "class"] then some .classTable
  else if plain ∈ ["concretetable", "concrete_table", "concrete"] then some .concreteTable
  else none

/-- The kind at a position, for designs that hold numbers instead of names. -/
def ofIndex? (index : Nat) : Option InheritanceKind :=
  all[index]?

end InheritanceKind

inductive RelationKind where
  | oneToOne
  | oneToMany
  | manyToMany
  /-- The source table inherits from the target table. -/
  | inheritsFrom
deriving Repr, DecidableEq, Inhabited

namespace RelationKind

def all : List RelationKind := [.oneToOne, .oneToMany, .manyToMany, .inheritsFrom]

def name : RelationKind → String
  | .oneToOne => "OneToOne"
  | .oneToMany => "OneToMany"
  | .manyToMany => "ManyToMany"
  | .inheritsFrom => "InheritsFrom"

def ofName? (text : String) : Option RelationKind :=
  all.find? (·.name == text)

/-- The kind at a position, for designs that hold numbers instead of names. -/
def ofIndex? (index : Nat) : Option RelationKind :=
  all[index]?

end RelationKind

structure Position where
  x : Float
  y : Float
deriving BEq

namespace Position

def origin : Position := ⟨0.0, 0.0⟩

def midpoint (p q : Position) : Position :=
  ⟨(p.x + q.x) / 2.0, (p.y + q.y) / 2.0⟩

end Position

structure Table where
  id : TableId
  name : String
  position : Position
  /-- Such a table disappears when columns are copied down to the descendants. -/
  isAbstract : Bool
  color : Option String
deriving BEq

namespace Table

def create (id : TableId) (name : String) : Table :=
  ⟨id, name, .origin, false, none⟩

def withId (table : Table) (id : TableId) : Table :=
  { table with id := id }

def placedAt (table : Table) (x y : Float) : Table :=
  { table with position := ⟨x, y⟩ }

def asAbstract (table : Table) : Table :=
  { table with isAbstract := true }

def withColor (table : Table) (color : String) : Table :=
  { table with color := some color }

end Table

structure Column where
  id : ColumnId
  table : TableId
  name : String
  /-- The type as it is written in statements, such as `DECIMAL(10, 2)`. -/
  typeText : String
  isPrimaryKey : Bool
  isForeignKey : Bool
  isNullable : Bool
  isUnique : Bool
  defaultValue : Option String
deriving Repr, DecidableEq

namespace Column

/-- A nullable column that is no key. -/
def create (id : ColumnId) (table : TableId) (name typeText : String) : Column :=
  ⟨id, table, name, typeText, false, false, true, false, none⟩

def withId (column : Column) (id : ColumnId) : Column :=
  { column with id := id }

/-- A primary key is never nullable. -/
def primaryKey (column : Column) : Column :=
  { column with isPrimaryKey := true, isNullable := false }

def foreignKey (column : Column) : Column :=
  { column with isForeignKey := true }

def unique (column : Column) : Column :=
  { column with isUnique := true }

def notNull (column : Column) : Column :=
  { column with isNullable := false }

def withDefault (column : Column) (value : String) : Column :=
  { column with defaultValue := some value }

/-- The same column on another table, under a new id. -/
def copyTo (column : Column) (id : ColumnId) (table : TableId) : Column :=
  { column with id := id, table := table }

end Column

structure Endpoint where
  table : TableId
  column : Option ColumnId
deriving Repr, DecidableEq

structure Relation where
  source : Endpoint
  target : Endpoint
  kind : RelationKind
deriving Repr, DecidableEq

namespace Relation

def inherits (child parent : TableId) : Relation :=
  ⟨⟨child, none⟩, ⟨parent, none⟩, .inheritsFrom⟩

def between (kind : RelationKind) (sourceTable : TableId) (sourceColumn : ColumnId)
    (targetTable : TableId) (targetColumn : ColumnId) : Relation :=
  ⟨⟨sourceTable, some sourceColumn⟩, ⟨targetTable, some targetColumn⟩, kind⟩

def isInheritance (relation : Relation) : Bool :=
  relation.kind == .inheritsFrom

def touchesTable (relation : Relation) (id : TableId) : Bool :=
  relation.source.table == id || relation.target.table == id

def touchesColumn (relation : Relation) (id : ColumnId) : Bool :=
  relation.source.column == some id || relation.target.column == some id

def joins (relation : Relation) (source target : ColumnId) : Bool :=
  relation.source.column == some source && relation.target.column == some target

end Relation

structure Design where
  tables : List Table
  columns : List Column
  relations : List Relation
  inheritance : InheritanceKind
deriving BEq

namespace Design

def empty (inheritance : InheritanceKind) : Design :=
  ⟨[], [], [], inheritance⟩

/-! ### Lookups

Where ids or names repeat, the first record counts. -/

def table? (design : Design) (id : TableId) : Option Table :=
  design.tables.find? (·.id == id)

def tableNamed? (design : Design) (name : String) : Option Table :=
  design.tables.find? (·.name == name)

def column? (design : Design) (id : ColumnId) : Option Column :=
  design.columns.find? (·.id == id)

def columnsOf (design : Design) (id : TableId) : List Column :=
  design.columns.filter (·.table == id)

def columnNamed? (design : Design) (id : TableId) (name : String) : Option Column :=
  design.columns.find? fun column => column.table == id && column.name == name

def primaryKeyOf? (design : Design) (id : TableId) : Option Column :=
  design.columns.find? fun column => column.table == id && column.isPrimaryKey

def relationsFrom (design : Design) (id : TableId) : List Relation :=
  design.relations.filter (·.source.table == id)

def relationsTo (design : Design) (id : TableId) : List Relation :=
  design.relations.filter (·.target.table == id)

/-- The target of the first inheritance relation from a table. -/
def parentOf? (design : Design) (id : TableId) : Option TableId :=
  (design.relations.find? fun relation =>
    relation.source.table == id && relation.isInheritance).map (·.target.table)

def countRelations (design : Design) (kind : RelationKind) : Nat :=
  design.relations.countP (·.kind == kind)

def hasTable (design : Design) (id : TableId) : Bool :=
  (design.table? id).isSome

end Design

end SchemaDesign
