import RelationalMapping.Attribute.Options
import RelationalMapping.Attribute.Shape
import RelationalMapping.Identity
import RelationalMapping.Relational.Value

/-!
Attribute mappings: what one attribute of an entity is bound to. There are five kinds of body: a
basic value, a composite of other attributes, a reference to an entity, the inverse side of a
collection, and a collection.
-/

namespace RelationalMapping

structure BasicBody where
  synthetic : Bool
  options : SingleOptions
  values : List BoundValue
  generation : ValueGeneration

namespace BasicBody

/-- Bound to exactly these values, in this order, however statements use them. -/
def holds (b : BasicBody) (values : List RelationalValue) : Bool :=
  b.values.map BoundValue.value == values

def hasDerived (b : BasicBody) : Bool := b.values.any BoundValue.isDerived

def isNullable (b : BasicBody) : Bool := b.values.any BoundValue.nullable

theorem holds_iff (b : BasicBody) (values : List RelationalValue) :
    b.holds values = true ↔ b.values.map BoundValue.value = values := by
  simp [holds]

end BasicBody

/-- The parts are attributes in the store of an entity, found by the position of their name. -/
structure CompositeBody where
  synthetic : Bool
  options : SingleOptions
  /-- The attribute of a part's type that leads back to the owner. -/
  parentReference : Option SingleAttribute
  /-- In order. Several may share a name. -/
  partIds : List AttributeId := []
  /-- Where among the parts the first one of each name stands. -/
  positions : Roster Nat := .empty
  /-- A virtual composite groups attributes that were there before it. -/
  isVirtual : Bool

namespace CompositeBody

/-- One more part at the end. A name keeps the position it has. -/
def appendPart (c : CompositeBody) (name : String) (id : AttributeId) : CompositeBody :=
  { c with
    partIds := c.partIds ++ [id]
    positions :=
      if c.positions.contains name then c.positions
      else c.positions.enter name c.partIds.length }

/-- The part under that name is replaced in its place, or else one more comes at the end. -/
def enterPart (c : CompositeBody) (name : String) (id : AttributeId) : CompositeBody :=
  match c.positions.find? name with
  | some i => { c with partIds := c.partIds.set i id }
  | none =>
      { c with
        partIds := c.partIds ++ [id]
        positions := c.positions.enter name c.partIds.length }

end CompositeBody

structure ReferenceBody where
  synthetic : Bool
  options : SingleOptions
  target : EntityId
  /-- What the foreign key joins to, as a rule the identifier of the target. -/
  targetAttribute : AttributeId
  values : List BoundValue

structure InverseBody where
  synthetic : Bool
  collection : AttributeId

structure CollectionBody where
  /-- The nature that the attribute was declared with. -/
  nature : CollectionNature
  element : ElementNature
  /-- The attribute that the key of the collection refers to. -/
  referenced : AttributeId
  options : CollectionOptions
  shape : CollectionShape

inductive AttributeBody where
  | basic (b : BasicBody)
  | composite (c : CompositeBody)
  | reference (r : ReferenceBody)
  | inverse (i : InverseBody)
  | collection (c : CollectionBody)

/-- What kind of body an attribute mapping has. -/
inductive AttributeKind where
  | basic
  | composite
  | reference
  | inverse
  | collection (nature : CollectionNature)
deriving DecidableEq, Repr

def AttributeKind.label : AttributeKind → String
  | .basic => "basic"
  | .composite => "composite"
  | .reference => "many-to-one"
  | .inverse => "back-ref"
  | .collection nature => nature.label

structure AttributeMapping where
  id : AttributeId
  name : String
  body : AttributeBody

namespace AttributeMapping

/-- A collection counts by the nature of its shape. -/
def kind (a : AttributeMapping) : AttributeKind :=
  match a.body with
  | .basic _ => .basic
  | .composite _ => .composite
  | .reference _ => .reference
  | .inverse _ => .inverse
  | .collection c => .collection c.shape.nature

def basic? (a : AttributeMapping) : Option BasicBody :=
  match a.body with
  | .basic b => some b
  | _ => none

def composite? (a : AttributeMapping) : Option CompositeBody :=
  match a.body with
  | .composite c => some c
  | _ => none

def reference? (a : AttributeMapping) : Option ReferenceBody :=
  match a.body with
  | .reference r => some r
  | _ => none

def inverse? (a : AttributeMapping) : Option InverseBody :=
  match a.body with
  | .inverse i => some i
  | _ => none

def collection? (a : AttributeMapping) : Option CollectionBody :=
  match a.body with
  | .collection c => some c
  | _ => none

def isSynthetic (a : AttributeMapping) : Bool :=
  match a.body with
  | .basic b => b.synthetic
  | .composite c => c.synthetic
  | .reference r => r.synthetic
  | .inverse i => i.synthetic
  | .collection _ => false

def isCollection (a : AttributeMapping) : Bool := a.collection?.isSome

def isSingle (a : AttributeMapping) : Bool := !a.isCollection

/-- References and collections associate the entity with others. -/
def isAssociation (a : AttributeMapping) : Bool := a.reference?.isSome || a.isCollection

def isLazy (a : AttributeMapping) : Bool :=
  match a.body with
  | .basic b => b.options.lazy
  | .composite c => c.options.lazy
  | .reference r => r.options.lazy
  | .inverse _ | .collection _ => false

/-- The inverse side of a collection has no remarks of its own. -/
def remarks? (a : AttributeMapping) : Option Remarks :=
  match a.body with
  | .basic b => b.options.remarks
  | .composite c => c.options.remarks
  | .reference r => r.options.remarks
  | .inverse _ => none
  | .collection c => c.options.remarks

/-- The parts of a composite; other attributes have none. -/
def partIds (a : AttributeMapping) : List AttributeId :=
  match a.body with
  | .composite c => c.partIds
  | _ => []

theorem composite?_eq_some_iff {a : AttributeMapping} {c : CompositeBody} :
    a.composite? = some c ↔ a.body = .composite c := by
  unfold composite?
  cases a.body <;> simp

theorem composite_of_mem_partIds {a : AttributeMapping} {id : AttributeId} (h : id ∈ a.partIds) :
    ∃ c, a.composite? = some c := by
  unfold partIds at h
  split at h
  · rename_i c hc
    exact ⟨c, composite?_eq_some_iff.mpr hc⟩
  · cases h

/-- The attribute of the domain that is mapped, if it is a single one. -/
def mapped (a : AttributeMapping) (synthetic : Bool) : SingleAttribute := ⟨a.name, synthetic⟩

instance : Describe AttributeMapping where
  describe a :=
    match a.body with
    | .basic b => .tuple "Basic" [.record "BasicAttributeBinding"
        [("id", describe a.id),
         ("attribute", describe (a.mapped b.synthetic)),
         ("relational_value_bindings", describe b.values),
         ("options", describe b.options),
         ("generation", describe b.generation)]]
    | .composite c => .tuple "Composite" [.record "CompositeAttributeBinding"
        [("id", describe a.id),
         ("attribute", describe (a.mapped c.synthetic)),
         ("parent_reference", describe c.parentReference),
         ("options", describe c.options),
         ("sub_attribute_bindings", describe c.partIds),
         ("names", .map (c.positions.entries.map fun p => (p.1, describe p.2))),
         ("virtual_", describe c.isVirtual)]]
    | .reference r => .tuple "ManyToOne" [.record "ManyToOneAttributeBinding"
        [("id", describe a.id),
         ("attribute", describe (a.mapped r.synthetic)),
         ("options", describe r.options),
         ("referenced_entity_binding", describe r.target),
         ("referenced_attribute_binding", describe r.targetAttribute),
         ("relational_value_bindings", describe r.values)]]
    | .inverse i => .tuple "BackRef" [.record "BackRefAttributeBinding"
        [("id", describe a.id),
         ("attribute", describe (a.mapped i.synthetic)),
         ("plural_attribute_binding", describe i.collection)]]
    | .collection c => .tuple "Plural" [.record "PluralAttributeBinding"
        [("id", describe a.id),
         ("attribute", describe ({ name := a.name, nature := c.nature } : CollectionAttribute)),
         ("element_nature", describe c.element),
         ("referenced_attribute_binding", describe c.referenced),
         ("options", describe c.options),
         ("kind", describe c.shape)]]

end AttributeMapping

end RelationalMapping
