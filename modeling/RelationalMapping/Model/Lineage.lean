import RelationalMapping.Model.Basic

/-!
Walks over the entities of a model, and the one to its root: the lineage of an entity is its
ancestors, nearest first, up to and including the root.

A walk comes to the entities it came across, in order, and to whether it ran to its end. It goes no
further than it is read, so a question that an entity met early decides is answered even where going
on would fail.
-/

namespace RelationalMapping

structure Walk where
  found : List EntityMapping
  /-- Why the walk broke off, if it did. -/
  stop : Option Fault := none

namespace Walk

def done : Walk := ⟨[], none⟩

def broken (b : Breach) : Walk := ⟨[], some (.breach b)⟩

/-- Comes across `e` first. -/
def meet (e : EntityMapping) (w : Walk) : Walk := { w with found := e :: w.found }

/-- Every entity on the walk, if it ran to its end. -/
def all (w : Walk) : Answer (List EntityMapping) :=
  match w.stop with
  | none => .ok w.found
  | some fault => .error fault

/-- Whether the walk comes across such an entity; it is read no further than to the first. -/
def any (w : Walk) (p : EntityMapping → Bool) : Answer Bool :=
  if w.found.any p then .ok true
  else
    match w.stop with
    | none => .ok false
    | some fault => .error fault

theorem all_eq_ok_iff (w : Walk) (es : List EntityMapping) :
    w.all = .ok es ↔ w.stop = none ∧ w.found = es := by
  unfold all
  cases w.stop <;> simp

theorem any_eq_ok_true_iff (w : Walk) (p : EntityMapping → Bool) :
    w.any p = .ok true ↔ w.found.any p = true := by
  unfold any
  split
  · rename_i h
    exact iff_of_true rfl h
  · rename_i h
    cases w.stop <;> simp [h]

theorem all_meet (e : EntityMapping) (w : Walk) : (w.meet e).all = w.all.map (e :: ·) := by
  unfold all meet
  cases w.stop <;> rfl

end Walk

namespace Model

/-- Follows parent links. A walk of more steps than the model has entities comes back to where it
was, so `steps` bounds every walk that ends. -/
def climb (m : Model) : Nat → Option EntityId → Walk
  | _, none => .done
  | 0, some _ => .broken .circular
  | steps + 1, some id =>
      match m.entity? id with
      | none => .broken .unknownEntity
      | some e => (m.climb steps e.parent).meet e

/-- The ancestors of the entity at that position. -/
def ancestors (m : Model) (id : EntityId) : Walk :=
  match m.entity? id with
  | none => .broken .unknownEntity
  | some e => m.climb m.entities.length e.parent

/-- The root of the tree that the entity at that position stands in, by its own id: the last of
its ancestors, or the position itself if it has none. -/
def top (m : Model) (id : EntityId) : Answer EntityId := do
  let lineage ← (m.ancestors id).all
  return (lineage.getLast?.map EntityMapping.id).getD id

/-- Whether an attribute stored by `id.entity` is in reach of `e`: `e` itself or one of its
ancestors bears that id. -/
def sees (m : Model) (e : EntityMapping) (id : AttributeId) : Answer Bool :=
  if id.entity = e.id then .ok true
  else (m.ancestors e.id).any fun ancestor => ancestor.id == id.entity

end Model

end RelationalMapping
