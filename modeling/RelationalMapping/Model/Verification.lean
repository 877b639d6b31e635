import RelationalMapping.Model.Lineage

/-!
Verification: whether the links of a model hold together. It reports the first broken one: a
parent that does not list its child exactly once, a child outside its parent's hierarchy, a
reference that leads nowhere or to what it may not mean, a hierarchy without its root.
-/

namespace RelationalMapping.Model

def requireEntity (m : Model) (referrer : EntityMapping) (id : EntityId) : Answer EntityMapping :=
  .require (.missingEntity referrer.label id) (m.entity? id)

def requireAttribute (m : Model) (referrer : String) (id : AttributeId) :
    Answer AttributeMapping :=
  .require (.missingAttribute referrer id) (m.attribute? id)

/-- The parent lists the entity once and shares its hierarchy. -/
def verifyParent (m : Model) (e : EntityMapping) : Answer Unit :=
  match e.parent with
  | none => .ok ()
  | some id => do
      let parent ← m.requireEntity e id
      let times := parent.children.count e.id
      .ensure (times == 1) (.miscountedChild e.label times parent.label)
      .ensure (parent.hierarchy == e.hierarchy) (.outsideHierarchy e.label parent.label)

/-- Every listed child has the entity for its parent. -/
def verifyChildren (m : Model) (e : EntityMapping) : Answer Unit :=
  e.children.forM fun id => do
    let child ← m.requireEntity e id
    .ensure (child.parent == some e.id) (.foreignChild child.label e.label)

def verifyReference (m : Model) (name : String) (r : ReferenceBody) : Answer Unit := do
  let target ← .require (.missingTarget name r.target) (m.entity? r.target)
  let _ ← m.requireAttribute name r.targetAttribute
  .ensure (← m.sees target r.targetAttribute) (.hiddenTarget name r.targetAttribute target.label)

def verifyInverse (m : Model) (name : String) (i : InverseBody) : Answer Unit := do
  let collection ← m.requireAttribute name i.collection
  .ensure collection.isCollection (.inverseOfSingle name collection.name)

/-- What an attribute refers to is there and is what it may refer to, and so it is for the parts
of a composite, whose nesting is followed at most `depth` deep. -/
def verifyAttribute (m : Model) : Nat → AttributeMapping → Answer Unit
  | depth, a =>
    match a.body, depth with
    | .basic _, _ => .ok ()
    | .composite _, 0 => .breach .circular
    | .composite c, depth + 1 =>
        c.partIds.forM fun id => do
          m.verifyAttribute depth (← m.requireAttribute a.name id)
    | .reference r, _ => m.verifyReference a.name r
    | .inverse i, _ => m.verifyInverse a.name i
    | .collection c, _ => do
        let _ ← m.requireAttribute a.name c.referenced

theorem verifyAttribute_composite_zero {m : Model} {a : AttributeMapping} {c : CompositeBody}
    (h : a.composite? = some c) : m.verifyAttribute 0 a = .breach .circular := by
  obtain ⟨id, name, body⟩ := a
  cases AttributeMapping.composite?_eq_some_iff.mp h
  rfl

theorem verifyAttribute_composite_succ {m : Model} {a : AttributeMapping} {c : CompositeBody}
    (h : a.composite? = some c) (depth : Nat) :
    m.verifyAttribute (depth + 1) a =
      forM a.partIds fun id => m.requireAttribute a.name id >>= m.verifyAttribute depth := by
  obtain ⟨id, name, body⟩ := a
  cases AttributeMapping.composite?_eq_some_iff.mp h
  rfl

/-- Only the parts of composites are followed. -/
theorem verifyAttribute_eq_of_single {m : Model} {a : AttributeMapping} (h : a.composite? = none)
    (depth other : Nat) : m.verifyAttribute depth a = m.verifyAttribute other a := by
  obtain ⟨id, name, body⟩ := a
  cases body with
  | composite c => cases h
  | _ => cases depth <;> cases other <;> rfl

def verifyEntity (m : Model) (depth : Nat) (e : EntityMapping) : Answer Unit := do
  m.verifyParent e
  m.verifyChildren e
  e.declared.values.forM fun i => do m.verifyAttribute depth (← e.storedAt i)

def verifyVersion (m : Model) (root : EntityMapping) (id : AttributeId) : Answer Unit := do
  let version ← m.requireAttribute "version" id
  .ensure version.basic?.isSome (.versionNotBasic version.name root.label)

/-- The root is one and has this hierarchy, and the attributes the hierarchy names are there. -/
def verifyHierarchy (m : Model) (h : Hierarchy) : Answer Unit := do
  let root ← .require (.missingRoot h.id h.root) (m.entity? h.root)
  .ensure (root.isRoot && root.hierarchy == h.id) (.notRoot root.label h.id)
  h.settings.identifier.forM fun id => discard (m.requireAttribute "identifier" id)
  h.settings.version.forM (m.verifyVersion root)

/-- Verification that follows the nesting of composites at most `depth` deep. -/
def verifyWithin (m : Model) (depth : Nat) : Answer Unit := do
  m.entities.forM (m.verifyEntity depth)
  m.hierarchies.forM m.verifyHierarchy

/-- Composites nested deeper than there are attributes contain themselves. -/
def verify (m : Model) : Answer Unit := m.verifyWithin m.storeSize

/-- The model may be put to use: it was verified, if it is to be. -/
def finish (m : Model) : Outcome Model Unit :=
  match if m.verifying then m.verify else .ok () with
  | .error fault => .refuse m fault
  | .ok _ =>
      { state := m
        events := [.modelFinished m.entities.length m.hierarchies.length]
        answer := .ok () }

end RelationalMapping.Model
