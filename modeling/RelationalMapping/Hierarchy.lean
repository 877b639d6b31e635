import RelationalMapping.Identity
import RelationalMapping.Relational.Value

/-!
Inheritance hierarchies: the facts that all entities of one inheritance tree share.
-/

namespace RelationalMapping

/-- How the entities of a hierarchy are spread over tables. -/
inductive Inheritance where
  | none
  | singleTable
  | joined
  | tablePerClass
deriving DecidableEq, Repr

instance : Enumeration Inheritance where
  all := [.none, .singleTable, .joined, .tablePerClass]
  name
    | .none => "NoInheritance"
    | .singleTable => "SingleTable"
    | .joined => "Joined"
    | .tablePerClass => "TablePerClass"
  find_name a := by cases a <;> decide

/-- What an entity is in memory: an object, or a map from names to values. -/
inductive EntityMode where
  | object
  | map
deriving DecidableEq, Repr

instance : Enumeration EntityMode where
  all := [.object, .map]
  name
    | .object => "Pojo"
    | .map => "Map"
  find_name a := by cases a <;> decide

/-- What an optimistic update compares. -/
inductive OptimisticLocking where
  | none
  | version
  | dirty
  | all
deriving DecidableEq, Repr

instance : Enumeration OptimisticLocking where
  all := [.none, .version, .dirty, .all]
  name
    | .none => "None"
    | .version => "Version"
    | .dirty => "Dirty"
    | .all => "All"
  find_name a := by cases a <;> decide

inductive CacheAccess where
  | readOnly
  | readWrite
  | nonstrictReadWrite
  | transactional
deriving DecidableEq, Repr

instance : Enumeration CacheAccess where
  all := [.readOnly, .readWrite, .nonstrictReadWrite, .transactional]
  name
    | .readOnly => "ReadOnly"
    | .readWrite => "ReadWrite"
    | .nonstrictReadWrite => "NonstrictReadWrite"
    | .transactional => "Transactional"
  find_name a := by cases a <;> decide

/-- The value that tells the entities of one table apart. -/
structure Discriminator where
  value : RelationalValue
  /-- Queries ask for it even where they need not. -/
  forced : Bool := false
  /-- Inserts write it. -/
  inserted : Bool := true
deriving DecidableEq, Repr

structure Caching where
  region : String
  access : CacheAccess
  lazyProperties : Bool := false
deriving DecidableEq, Repr

/-- What the mapping says about a hierarchy. -/
structure HierarchySettings where
  inheritance : Inheritance
  mode : EntityMode
  identifier : Option AttributeId := none
  discriminator : Option Discriminator := none
  version : Option AttributeId := none
  /-- The version of an entity that was never saved. -/
  unsavedValue : Option String := none
  locking : OptimisticLocking := .version
  /-- Only queries that name the hierarchy return its entities. -/
  explicitPolymorphism : Bool := false
  caching : Option Caching := none
deriving DecidableEq, Repr

structure Hierarchy where
  id : HierarchyId
  /-- The entity at the top. -/
  root : EntityId
  settings : HierarchySettings
deriving DecidableEq, Repr

namespace Hierarchy

def isVersioned (h : Hierarchy) : Bool := h.settings.version.isSome

def hasDiscriminator (h : Hierarchy) : Bool := h.settings.discriminator.isSome

end Hierarchy

end RelationalMapping
