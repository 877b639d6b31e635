import RelationalMapping.Attribute.Basic
import RelationalMapping.Collections.OrderedSet
import RelationalMapping.Domain.EntityType
import RelationalMapping.Entity.Filter
import RelationalMapping.Entity.Settings
import RelationalMapping.Fault

/-!
Entity mappings: one entity's place in an inheritance tree, its tables, and the store of its
attribute mappings.
-/

namespace RelationalMapping

/-- What registering an attribute under a taken name does. -/
inductive NameCollision where
  /-- The new attribute takes the name over. -/
  | replace
  /-- The new attribute is refused. -/
  | reject
deriving DecidableEq, Repr

instance : Enumeration NameCollision where
  all := [.replace, .reject]
  name
    | .replace => "Replace"
    | .reject => "Reject"
  find_name a := by cases a <;> decide

/-- A table joined to the primary table. -/
structure SecondaryTable where
  table : Table
  /-- Its columns that refer to the key of the primary table. -/
  foreignKey : List RelationalValue := []
  /-- Rows may be missing. -/
  optional : Bool := false
  /-- The entity never writes to the table. -/
  inverse : Bool := false
  lazy : Bool := false
  cascadeDelete : Bool := false
  insertStatement : Option CustomStatement := none
  updateStatement : Option CustomStatement := none
  deleteStatement : Option CustomStatement := none
deriving DecidableEq, Repr

structure EntityMapping where
  id : EntityId
  parent : Option EntityId
  /-- In the order in which they were added. -/
  children : List EntityId := []
  hierarchy : HierarchyId
  collisions : NameCollision
  type : Option EntityType := none
  primaryTable : Option Table := none
  primaryTableName : Option String := none
  /-- Entered under their logical names. -/
  secondaryTables : Roster SecondaryTable := .empty
  /-- Every attribute that was ever registered, replaced ones and parts of composites included. -/
  store : List AttributeMapping := []
  /-- The attributes declared on the entity itself, by their positions in the store. -/
  declared : Roster Nat := .empty
  filters : OrderedSet Filter := .empty
  /-- Tables whose change makes cached queries for the entity stale. -/
  synchronizedTables : OrderedSet String := .empty
  settings : EntitySettings := {}

namespace EntityMapping

def isRoot (e : EntityMapping) : Bool := e.parent.isNone

def hasChildren (e : EntityMapping) : Bool := !e.children.isEmpty

def label (e : EntityMapping) : EntityLabel := ⟨e.type.map EntityType.name⟩

/-- The name that paths to attributes of the entity begin with. -/
def path (e : EntityMapping) : String :=
  match e.type with
  | some t => t.name
  | none => e.id.text

def className? (e : EntityMapping) : Option ClassName := e.type.bind EntityType.className

/-- The id of the attribute that is registered next. -/
def nextId (e : EntityMapping) : AttributeId := ⟨e.id, e.store.length⟩

/-- The stored attribute of that id, if the entity is the one that the id names. -/
def stored? (e : EntityMapping) (id : AttributeId) : Option AttributeMapping :=
  if id.entity = e.id then e.store[id.index]? else none

/-- Asking for an attribute of another entity is a breach of its own. -/
def getAttribute (e : EntityMapping) (id : AttributeId) : Answer AttributeMapping :=
  if id.entity = e.id then .ofOption .unknownAttribute e.store[id.index]?
  else .breach (.foreignAttribute e.id id.entity)

/-- The attribute at a position that the entity itself has recorded. -/
def storedAt (e : EntityMapping) (index : Nat) : Answer AttributeMapping :=
  .atIndex e.store index

/-- How many attributes are declared on the entity itself. -/
def span (e : EntityMapping) : Nat := e.declared.size

end EntityMapping

end RelationalMapping
