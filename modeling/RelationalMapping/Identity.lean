import RelationalMapping.Exchange.Datum

/-!
The identities of the parts of a model: entities and hierarchies are known by their position, an
attribute by its entity and its position in that entity's store.
-/

namespace RelationalMapping

structure EntityId where
  index : Nat
deriving DecidableEq, Repr

theorem EntityId.index_ne {x y : EntityId} (h : x ≠ y) : x.index ≠ y.index :=
  fun heq => h (congrArg EntityId.mk heq)

theorem EntityId.ne_of_lt {x y : EntityId} (h : x.index < y.index) : x ≠ y :=
  fun heq => Nat.ne_of_lt h (congrArg EntityId.index heq)

structure HierarchyId where
  index : Nat
deriving DecidableEq, Repr

structure AttributeId where
  entity : EntityId
  index : Nat
deriving DecidableEq, Repr

def EntityId.text (id : EntityId) : String := "EntityBindingId(" ++ toString id.index ++ ")"

def HierarchyId.text (id : HierarchyId) : String := "HierarchyId(" ++ toString id.index ++ ")"

def AttributeId.text (id : AttributeId) : String :=
  "AttributeBindingId(" ++ toString id.entity.index ++ "/" ++ toString id.index ++ ")"

instance : Describe EntityId := ⟨fun id => .plain id.text⟩

instance : Describe HierarchyId := ⟨fun id => .plain id.text⟩

instance : Describe AttributeId := ⟨fun id => .plain id.text⟩

instance : Exchange EntityId where
  write id := Exchange.write id.index
  read? d := (Exchange.read? d).map EntityId.mk

instance : Exchange HierarchyId where
  write id := Exchange.write id.index
  read? d := (Exchange.read? d).map HierarchyId.mk

/-- Read from a record with both fields, other fields being ignored, or from a list of the two. -/
instance : Exchange AttributeId where
  write id := .record [("entity", Exchange.write id.entity), ("index", Exchange.write id.index)]
  read?
    | .record fields => do
        return ⟨← Exchange.field? fields "entity", ← Exchange.field? fields "index"⟩
    | .list [entity, index] => do
        return ⟨← Exchange.read? entity, ← Exchange.read? index⟩
    | _ => none

end RelationalMapping
