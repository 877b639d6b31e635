import RelationalMapping.Entity.Binding
import RelationalMapping.Entity.Tables

/-!
Models: the entities of a mapping and their hierarchies, each found by its position.
-/

namespace RelationalMapping

structure Model where
  collisions : NameCollision := .replace
  /-- Whether finishing the model verifies it first. -/
  verifying : Bool := true
  entities : List EntityMapping := []
  hierarchies : List Hierarchy := []

namespace Model

def entity? (m : Model) (id : EntityId) : Option EntityMapping := m.entities[id.index]?

def hierarchy? (m : Model) (id : HierarchyId) : Option Hierarchy := m.hierarchies[id.index]?

/-- An attribute wherever it is stored, found by the two positions in its id. -/
def attribute? (m : Model) (id : AttributeId) : Option AttributeMapping :=
  (m.entity? id.entity).bind fun e => e.store[id.index]?

def getEntity (m : Model) (id : EntityId) : Answer EntityMapping :=
  .ofOption .unknownEntity (m.entity? id)

def getHierarchy (m : Model) (id : HierarchyId) : Answer Hierarchy :=
  .ofOption .unknownHierarchy (m.hierarchy? id)

def getAttribute (m : Model) (id : AttributeId) : Answer AttributeMapping := do
  (← m.getEntity id.entity).getAttribute id

/-- The hierarchy that an entity shares with the rest of its tree. -/
def hierarchyOf (m : Model) (id : EntityId) : Answer Hierarchy := do
  m.getHierarchy (← m.getEntity id).hierarchy

/-- The first entity whose entity type has that name. -/
def locateEntity (m : Model) (name : String) : Option EntityMapping :=
  m.entities.find? fun e => e.type.any fun t => t.name == name

/-- Whether a query for the entity may find entities of other types too. -/
def isPolymorphic (m : Model) (id : EntityId) : Answer Bool := do
  let e ← m.getEntity id
  if e.isRoot then
    return (← m.getHierarchy e.hierarchy).hasDiscriminator || e.hasChildren
  else
    return true

def isVersioned (m : Model) (id : EntityId) : Answer Bool := do
  return (← m.hierarchyOf id).isVersioned

/-- The number of all stored attributes. -/
def storeSize (m : Model) : Nat := (m.entities.flatMap EntityMapping.store).length

def putEntity (m : Model) (id : EntityId) (e : EntityMapping) : Model :=
  { m with entities := m.entities.set id.index e }

def putHierarchy (m : Model) (id : HierarchyId) (h : Hierarchy) : Model :=
  { m with hierarchies := m.hierarchies.set id.index h }

theorem attribute?_eq_some_iff {m : Model} {id : AttributeId} {a : AttributeMapping} :
    m.attribute? id = some a ↔
      ∃ e, m.entity? id.entity = some e ∧ e.store[id.index]? = some a :=
  Option.bind_eq_some_iff

theorem entity?_putEntity_self {m : Model} {id : EntityId} (e : EntityMapping)
    (h : id.index < m.entities.length) : (m.putEntity id e).entity? id = some e := by
  simp [entity?, putEntity, h]

theorem entity?_putEntity_of_ne {m : Model} {id other : EntityId} (e : EntityMapping)
    (h : other ≠ id) : (m.putEntity id e).entity? other = m.entity? other := by
  simp [entity?, putEntity, List.getElem?_set_ne (EntityId.index_ne h.symm)]

/-- Carries out an operation on the entity at that position. -/
def onEntity {α : Type} (m : Model) (id : EntityId)
    (f : EntityMapping → Outcome EntityMapping α) : Outcome Model α :=
  match m.entity? id with
  | none => .refuse m (.breach .unknownEntity)
  | some e => (f e).within (m.putEntity id)

/-- Changes the entity at that position. -/
def changeEntity (m : Model) (id : EntityId) (f : EntityMapping → EntityMapping) :
    Outcome Model Unit :=
  m.onEntity id fun e => .done (f e) ()

/-- Changes the hierarchy at that position. -/
def changeHierarchy (m : Model) (id : HierarchyId) (f : Hierarchy → Hierarchy) :
    Outcome Model Unit :=
  match m.hierarchy? id with
  | none => .refuse m (.breach .unknownHierarchy)
  | some h => .done (m.putHierarchy id (f h)) ()

end Model

/-- A scope of a model: an entity, or one of its composites. -/
structure Place where
  entity : EntityId
  composite : Option AttributeId := none
deriving DecidableEq, Repr

namespace Model

def openPlace (m : Model) (p : Place) : Answer (EntityMapping × Scope) := do
  let e ← m.getEntity p.entity
  return (e, ← e.openScope p.composite)

/-- Carries out an operation in the scope at that place. -/
def onPlace {α : Type} (m : Model) (p : Place)
    (f : EntityMapping → Scope → Outcome EntityMapping α) : Outcome Model α :=
  m.onEntity p.entity fun e =>
    match e.openScope p.composite with
    | .error fault => .refuse e fault
    | .ok scope => f e scope

end Model

end RelationalMapping
