import RelationalMapping.Entity.Basic
import RelationalMapping.Outcome

/-!
Scopes: the places where attributes can be registered by name, which are the entity itself and
each of its composites. Each finds its attributes by name through an index of its own, and every
attribute goes into the one store of the entity, wherever it is registered.
-/

namespace RelationalMapping

inductive Scope where
  | entity
  /-- The composite at that position of the store. -/
  | composite (index : Nat)
deriving DecidableEq, Repr

namespace AttributeMapping

/-- Enters a part into a composite; other attributes have no parts. -/
def withPart (a : AttributeMapping) (name : String) (id : AttributeId) : AttributeMapping :=
  match a.body with
  | .composite c => { a with body := .composite (c.enterPart name id) }
  | _ => a

end AttributeMapping

namespace EntityMapping

/-- A composite of the entity as a scope. -/
def openComposite (e : EntityMapping) (id : AttributeId) : Answer Scope :=
  .require (.notComposite id e.label)
    (((e.stored? id).bind AttributeMapping.composite?).map fun _ => .composite id.index)

/-- The entity itself, or one of its composites. -/
def openScope (e : EntityMapping) (composite : Option AttributeId) : Answer Scope :=
  match composite with
  | none => .ok .entity
  | some id => e.openComposite id

/-- The name and the body of the composite behind a scope. -/
def compositeAt (e : EntityMapping) (index : Nat) : Answer (String × CompositeBody) := do
  let a ← e.getAttribute ⟨e.id, index⟩
  return (a.name, ← a.expectComposite)

/-- The dotted path that names the scope in messages: that of the entity, followed by the name of
the composite. -/
def scopePath (e : EntityMapping) : Scope → Answer String
  | .entity => .ok e.path
  | .composite i => do return e.path ++ "." ++ (← e.compositeAt i).1

/-- The path of an attribute of that name. -/
def attributePath (e : EntityMapping) (scope : Scope) (name : String) : Answer String :=
  match scope with
  | .entity => .ok (e.path ++ "." ++ name)
  | .composite i => do return e.path ++ "." ++ (← e.storedAt i).name ++ "." ++ name

/-- The attributes declared on the entity itself. -/
def attributes (e : EntityMapping) : Answer (List AttributeMapping) :=
  e.declared.values.mapM e.storedAt

/-- The attributes that the scope lists. The parts of a composite are looked up by their position
in the entity's store, and what is not there is left out. -/
def listing (e : EntityMapping) : Scope → Answer (List AttributeMapping)
  | .entity => e.attributes
  | .composite i => do
      return (← e.compositeAt i).2.partIds.filterMap fun id => e.store[id.index]?

/-- The attribute that the scope lists under that name. -/
def locate (e : EntityMapping) (scope : Scope) (name : String) :
    Answer (Option AttributeMapping) :=
  match scope with
  | .entity =>
      match e.declared.find? name with
      | none => .ok none
      | some i => (e.storedAt i).map some
  | .composite i => do
      return (← (← e.compositeAt i).2.part? name).bind fun id => e.store[id.index]?

/-- The first basic attribute that the scope lists with exactly these values. -/
def locateByValues (e : EntityMapping) (scope : Scope) (values : List RelationalValue) :
    Answer (Option AttributeMapping) :=
  let holds (a : AttributeMapping) : Bool := a.basic?.any fun b => b.holds values
  match scope with
  | .entity =>
      e.declared.values.findSomeM? fun i => do
        let a ← e.storedAt i
        return if holds a then some a else none
  | .composite i => do return (← e.listing (.composite i)).find? holds

/-- Whether the scope lists an attribute of that name. -/
def lists (e : EntityMapping) (scope : Scope) (name : String) : Answer Bool :=
  match scope with
  | .entity => .ok (e.declared.contains name)
  | .composite i => do return (← (← (← e.storedAt i).expectComposite).part? name).isSome

/-- What a new attribute of that name takes over, by its path; under the entity's policy a taken
name may be refused. -/
def takenOver (e : EntityMapping) (scope : Scope) (name : String) : Answer (Option String) := do
  if ← e.lists scope name then
    let path ← e.attributePath scope name
    match e.collisions with
    | .replace => return some path
    | .reject => .inconsistent (.nameTaken path)
  else return none

/-- The entity with one more attribute in its store, listed by the scope. -/
def withAttribute (e : EntityMapping) (scope : Scope) (a : AttributeMapping) : EntityMapping :=
  let store := e.store ++ [a]
  match scope with
  | .entity => { e with store, declared := e.declared.enter a.name a.id.index }
  | .composite i => { e with store := store.modify i fun c => c.withPart a.name a.id }

theorem length_store_withAttribute (e : EntityMapping) (scope : Scope) (a : AttributeMapping) :
    (e.withAttribute scope a).store.length = e.store.length + 1 := by
  cases scope <;> simp [withAttribute]

theorem id_withAttribute (e : EntityMapping) (scope : Scope) (a : AttributeMapping) :
    (e.withAttribute scope a).id = e.id := by
  cases scope <;> rfl

/-- What a registration that is let in comes to; `replaced` is the path of what it takes over. -/
def enrol (e : EntityMapping) (scope : Scope) (a : AttributeMapping) (replaced : Option String) :
    Outcome EntityMapping AttributeId where
  state := e.withAttribute scope a
  events := (replaced.map (Event.attributeReplaced e.id)).toList ++
    [.attributeAdded e.id a.name a.kind]
  answer := .ok a.id

/-- Registers an attribute, which must bear the next id. Under a taken name it is refused or takes
the name over, as the entity's policy says. -/
def register (e : EntityMapping) (scope : Scope) (a : AttributeMapping) :
    Outcome EntityMapping AttributeId :=
  if a.id ≠ e.nextId then .refuse e (.breach (.misplacedAttribute a.id e.nextId))
  else
    match e.takenOver scope a.name with
    | .error fault => .refuse e fault
    | .ok replaced => e.enrol scope a replaced

end EntityMapping

end RelationalMapping
