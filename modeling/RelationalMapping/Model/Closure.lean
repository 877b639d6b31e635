import RelationalMapping.Model.Lineage

/-!
The closures of an entity: the entities below it, and the attributes that it has by its tree.

The descendants are counted, and visited one by one in two orders, parents first (`TopDown`) and
descendants first (`BottomUp`). Both visits are machines that hold what is still to come, so a
visit can be left and taken up again. A visit that meets a fault ends there, so running one costs
the steps it takes and no more; how many it may take is bounded by the entities and the links of
the model. Only links that lead back to where they came from exceed the bounds.

An entity has by inheritance the attributes of its lineage; the attributes of its descendants take
part in its whole tree too. Attributes of one name on different levels are all kept.
-/

namespace RelationalMapping

namespace Model

/-- The number of links below the entity at that position, along at most `depth` links. -/
def countBelow (m : Model) : Nat → EntityId → Answer Nat
  | depth, id =>
    match m.entity? id, depth with
    | none, _ => .breach .unknownEntity
    | some _, 0 => .breach .circular
    | some e, depth + 1 =>
        e.children.foldlM (fun n child => return n + (← m.countBelow depth child))
          e.children.length

theorem countBelow_succ {m : Model} {id : EntityId} {e : EntityMapping} (h : m.entity? id = some e)
    (depth : Nat) :
    m.countBelow (depth + 1) id =
      e.children.foldlM (fun n child => return n + (← m.countBelow depth child))
        e.children.length := by
  rw [countBelow.eq_def]
  simp only [h]

/-- The number of descendants of the entity at that position. -/
def descendantCount (m : Model) (id : EntityId) : Answer Nat :=
  m.countBelow m.entities.length id

/-- The number of links from a parent to a child. -/
def linkCount (m : Model) : Nat := (m.entities.flatMap EntityMapping.children).length

/-- Steps enough to visit an entity and all below it, unless links lead back to where they came
from. An entity with `k` children takes at most `k + 2` steps besides those of its children. If
`b` steps are enough for each child, and `b` is not less than `k + 2`, then `(k + 2) * b` are
enough for the entity: one more power for each link of a path, and no path has as many links as
the model has entities. -/
def visitBound (m : Model) : Nat := Nat.pow (m.linkCount + 2) (m.entities.length + 1)

end Model

/-- A visit that meets each entity before its descendants. -/
structure TopDown where
  /-- The entities to visit next, each to be followed by its own descendants. -/
  pending : List EntityId

namespace TopDown

/-- All descendants of the entity at that position. -/
def below (m : Model) (id : EntityId) : Answer TopDown := do
  return ⟨(← m.getEntity id).children⟩

/-- The next entity, and the visit as it goes on from there. -/
def next (m : Model) (v : TopDown) : Answer (Option (EntityMapping × TopDown)) :=
  match v.pending with
  | [] => .ok none
  | id :: rest => do
      let e ← m.getEntity id
      return some (e, ⟨e.children ++ rest⟩)

/-- Steps enough for the whole visit. -/
def steps (m : Model) (v : TopDown) : Nat := v.pending.length * m.visitBound

def runFor (m : Model) : Nat → TopDown → Walk
  | n, v =>
    match v.next m, n with
    | .error fault, _ => ⟨[], some fault⟩
    | .ok none, _ => .done
    | .ok (some _), 0 => .broken .circular
    | .ok (some (e, rest)), n + 1 => (runFor m n rest).meet e

/-- All that is still to come. -/
def run (m : Model) (v : TopDown) : Walk := v.runFor m (v.steps m)

theorem runFor_next {m : Model} {v rest : TopDown} {e : EntityMapping}
    (h : v.next m = .ok (some (e, rest))) (n : Nat) :
    runFor m (n + 1) v = (runFor m n rest).meet e := by
  rw [runFor.eq_def]
  simp only [h]

theorem runFor_end {m : Model} {v : TopDown} (h : v.next m = .ok none) (n : Nat) :
    runFor m n v = .done := by
  rw [runFor.eq_def]
  simp only [h]

end TopDown

/-- A visit that meets each entity after all of its descendants, and siblings one after the
other. -/
structure BottomUp where
  /-- For each entity on the way down, innermost first: the children still to be gone into, and
  those still to be met once that is done. -/
  frames : List (List EntityId × List EntityId)

namespace BottomUp

/-- All descendants of the entity at that position, as the one at its own id lists them. -/
def below (m : Model) (id : EntityId) : Answer BottomUp := do
  let children := (← m.getEntity (← m.getEntity id).id).children
  return ⟨[(children, children)]⟩

/-- What a single step comes to. -/
inductive Step where
  | finished
  | moved (rest : BottomUp)
  | met (e : EntityMapping) (rest : BottomUp)

/-- Goes into a child, meets a child, or leaves an entity that is done with. -/
def step (m : Model) (v : BottomUp) : Answer Step :=
  match v.frames with
  | [] => .ok .finished
  | (into :: later, met) :: outer => do
      let children := (← m.getEntity into).children
      return .moved ⟨(children, children) :: (later, met) :: outer⟩
  | ([], next :: later) :: outer => do
      return .met (← m.getEntity next) ⟨([], later) :: outer⟩
  | ([], []) :: outer => .ok (.moved ⟨outer⟩)

/-- Steps enough for the whole visit: what is to be gone into takes as many as any entity may, what
is to be met takes one each, and so does leaving a frame. -/
def steps (m : Model) (v : BottomUp) : Nat :=
  (v.frames.flatMap Prod.fst).length * m.visitBound + (v.frames.flatMap Prod.snd).length +
    v.frames.length

def runFor (m : Model) : Nat → BottomUp → Walk
  | n, v =>
    match v.step m, n with
    | .error fault, _ => ⟨[], some fault⟩
    | .ok .finished, _ => .done
    | .ok _, 0 => .broken .circular
    | .ok (.moved rest), n + 1 => runFor m n rest
    | .ok (.met e rest), n + 1 => (runFor m n rest).meet e

/-- All that is still to come. -/
def run (m : Model) (v : BottomUp) : Walk := v.runFor m (v.steps m)

theorem runFor_moved {m : Model} {v rest : BottomUp} (h : v.step m = .ok (.moved rest))
    (n : Nat) : runFor m (n + 1) v = runFor m n rest := by
  rw [runFor.eq_def]
  simp only [h]

theorem runFor_met {m : Model} {v rest : BottomUp} {e : EntityMapping}
    (h : v.step m = .ok (.met e rest)) (n : Nat) :
    runFor m (n + 1) v = (runFor m n rest).meet e := by
  rw [runFor.eq_def]
  simp only [h]

theorem runFor_end {m : Model} {v : BottomUp} (h : v.step m = .ok .finished) (n : Nat) :
    runFor m n v = .done := by
  rw [runFor.eq_def]
  simp only [h]

end BottomUp

namespace Model

/-- The descendants of the entity at that position, parents first. -/
def descendantsTopDown (m : Model) (id : EntityId) : Walk :=
  match TopDown.below m id with
  | .error fault => ⟨[], some fault⟩
  | .ok v => v.run m

/-- The descendants of the entity at that position, descendants first. -/
def descendantsBottomUp (m : Model) (id : EntityId) : Walk :=
  match BottomUp.below m id with
  | .error fault => ⟨[], some fault⟩
  | .ok v => v.run m

/-- The attributes of the lineage, those of the root first and those of the entity last. -/
def attributeClosure (m : Model) (id : EntityId) : Answer (List AttributeMapping) := do
  let e ← m.getEntity id
  let lineage ← (m.ancestors e.id).all
  return (← (lineage.reverse ++ [e]).mapM EntityMapping.attributes).flatten

/-- How many attributes the closure has. -/
def attributeClosureSpan (m : Model) (id : EntityId) : Answer Nat := do
  let e ← m.getEntity id
  let lineage ← (m.ancestors e.id).all
  return (lineage.map EntityMapping.span).foldl (· + ·) e.span

/-- The closure of the entity, followed by the attributes of its descendants, parents first. -/
def treeAttributes (m : Model) (id : EntityId) : Answer (List AttributeMapping) := do
  let inherited ← m.attributeClosure id
  let descendants ← (m.descendantsTopDown id).all
  return inherited ++ (← descendants.mapM EntityMapping.attributes).flatten

end Model

end RelationalMapping
