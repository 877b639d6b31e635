import RelationalMapping.Text.Description

/-!
The relational side of a mapping: tables, the values that attributes are bound to, and how
statements use a bound value.
-/

namespace RelationalMapping

structure Table where
  logicalName : String
  /-- Given only where the database knows the table by another name. -/
  physicalName : Option String := none
  schema : Option String := none
deriving DecidableEq, Repr

structure Column where
  /-- The logical name of its table. -/
  table : String
  name : String
deriving DecidableEq, Repr

namespace Table

/-- The name that the database uses. -/
def databaseName (t : Table) : String := t.physicalName.getD t.logicalName

def column (t : Table) (name : String) : Column := ⟨t.logicalName, name⟩

end Table

instance : Describe Column := ⟨fun c => .plain ("Column(" ++ c.table ++ "." ++ c.name ++ ")")⟩

/-- What an attribute can be bound to: a column, or an expression that the database computes. -/
inductive RelationalValue where
  | column (c : Column)
  | derived (expression : String)
deriving DecidableEq, Repr

namespace RelationalValue

def isColumn : RelationalValue → Bool
  | .column _ => true
  | .derived _ => false

def column? : RelationalValue → Option Column
  | .column c => some c
  | .derived _ => none

instance : Describe RelationalValue where
  describe
    | .column c => describe c
    | .derived expression => .plain ("Derived(" ++ expression ++ ")")

end RelationalValue

/-- A relational value together with the statements that write it. -/
structure BoundValue where
  value : RelationalValue
  inserted : Bool
  updated : Bool
  nullable : Bool := true
deriving DecidableEq, Repr

namespace BoundValue

/-- Written by inserts and by updates. -/
def written (value : RelationalValue) : BoundValue :=
  { value, inserted := true, updated := true }

/-- Never written. -/
def readOnly (value : RelationalValue) : BoundValue :=
  { value, inserted := false, updated := false }

/-- Columns are written, derived values are not. -/
def ofValue (value : RelationalValue) : BoundValue :=
  if value.isColumn then written value else readOnly value

def isDerived (b : BoundValue) : Bool := !b.value.isColumn

instance : Describe BoundValue where
  describe b := .record "RelationalValueBinding"
    [("value", describe b.value), ("include_in_insert", describe b.inserted),
     ("include_in_update", describe b.updated), ("nullable", describe b.nullable)]

end BoundValue

end RelationalMapping
