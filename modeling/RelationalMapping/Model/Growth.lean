import RelationalMapping.Model.Lineage

/-!
Adding entities: a root with a hierarchy of its own, or a child that joins its parent's.
-/

namespace RelationalMapping.Model

def addRoot (m : Model) (inheritance : Inheritance) (mode : EntityMode) :
    Outcome Model EntityId :=
  let id : EntityId := ⟨m.entities.length⟩
  let hierarchy : HierarchyId := ⟨m.hierarchies.length⟩
  let settings : HierarchySettings := { inheritance, mode }
  let root : EntityMapping :=
    { id, parent := none, hierarchy, collisions := m.collisions }
  { state :=
      { m with
        entities := m.entities ++ [root]
        hierarchies := m.hierarchies ++ [{ id := hierarchy, root := id, settings }] }
    events := [.rootAdded id hierarchy inheritance mode]
    answer := .ok id }

/-- Whether the entity may get a child: the tree it stands in must have the root that its
hierarchy records. The answer is the hierarchy's id. -/
def checkParent (m : Model) (parent : EntityId) : Answer HierarchyId := do
  let e ← m.getEntity parent
  let top ← m.top parent
  let root := (← m.getHierarchy e.hierarchy).root
  if top = root then return e.hierarchy else .breach (.strayParent top root)

/-- The child comes last among the children of its parent. -/
def addChild (m : Model) (parent : EntityId) : Outcome Model EntityId :=
  match m.checkParent parent with
  | .error fault => .refuse m fault
  | .ok hierarchy =>
      let id : EntityId := ⟨m.entities.length⟩
      let child : EntityMapping :=
        { id, parent := some parent, hierarchy, collisions := m.collisions }
      let listed (e : EntityMapping) : EntityMapping :=
        { e with children := e.children ++ [id] }
      { state :=
          { m with entities := m.entities.modify parent.index listed ++ [child] }
        events := [.childAdded id parent hierarchy]
        answer := .ok id }

end RelationalMapping.Model
