import RelationalMapping.Entity.Basic
import RelationalMapping.Outcome

/-!
The tables of an entity: a primary one with a name of its own, and secondary ones by their logical
names, the latest under each name.
-/

namespace RelationalMapping.EntityMapping

def setPrimaryTable (e : EntityMapping) (t : Table) : EntityMapping :=
  { e with primaryTable := some t }

def setPrimaryTableName (e : EntityMapping) (name : String) : EntityMapping :=
  { e with primaryTableName := some name }

def withSecondaryTable (e : EntityMapping) (s : SecondaryTable) : EntityMapping :=
  { e with secondaryTables := e.secondaryTables.enter s.table.logicalName s }

def addSecondaryTable (e : EntityMapping) (s : SecondaryTable) : Outcome EntityMapping Unit where
  state := e.withSecondaryTable s
  events := [.tableAdded e.id s.table.logicalName]
  answer := .ok ()

def secondaryTable? (e : EntityMapping) (name : String) : Option SecondaryTable :=
  e.secondaryTables.find? name

def requirePrimaryTable (e : EntityMapping) : Answer Table :=
  .require (.noPrimaryTable e.label) e.primaryTable

/-- No name and the primary name stand for the primary table, whether it is set or not; any other
name is looked up among the secondary tables. -/
def locateTable (e : EntityMapping) (name : Option String) : Answer Table :=
  match name with
  | none => e.requirePrimaryTable
  | some n =>
      if e.primaryTableName = some n then e.requirePrimaryTable
      else
        .require (.unknownTable n e.secondaryTables.names)
          ((e.secondaryTable? n).map SecondaryTable.table)

end RelationalMapping.EntityMapping
