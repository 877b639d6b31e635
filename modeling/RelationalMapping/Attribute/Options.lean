import RelationalMapping.Remarks
import RelationalMapping.Exchange.Datum

/-!
Settings of bound attributes that do not depend on what the attribute is bound to.
-/

namespace RelationalMapping

/-- The part an attribute plays in the natural identifier of its entity. -/
inductive NaturalIdPart where
  | changeable
  | fixed
  | absent
deriving DecidableEq, Repr

instance : Enumeration NaturalIdPart where
  all := [.changeable, .fixed, .absent]
  name
    | .changeable => "Mutable"
    | .fixed => "Immutable"
    | .absent => "NotNaturalId"
  find_name a := by cases a <;> decide

/-- When the database produces the value of an attribute. -/
inductive ValueGeneration where
  | never
  | onInsert
  | always
deriving DecidableEq, Repr

instance : Enumeration ValueGeneration where
  all := [.never, .onInsert, .always]
  name
    | .never => "Never"
    | .onInsert => "Insert"
    | .always => "Always"
  find_name a := by cases a <;> decide

structure SingleOptions where
  /-- How the attribute is read and written, if not in the usual way. -/
  accessor : Option String := none
  /-- Whether changing the attribute takes part in optimistic locking. -/
  locking : Bool := true
  lazy : Bool := false
  naturalId : NaturalIdPart := .absent
  remarks : Option Remarks := none

instance : Describe SingleOptions where
  describe o := .record "SingularBindingOptions"
    [("property_accessor_name", describe o.accessor),
     ("included_in_optimistic_locking", describe o.locking),
     ("lazy", describe o.lazy),
     ("natural_id_mutability", describe o.naturalId),
     ("meta_attribute_context", describe o.remarks)]

structure CollectionOptions where
  accessor : Option String := none
  locking : Bool := true
  remarks : Option Remarks := none

instance : Describe CollectionOptions where
  describe o := .record "PluralBindingOptions"
    [("property_accessor_name", describe o.accessor),
     ("included_in_optimistic_locking", describe o.locking),
     ("meta_attribute_context", describe o.remarks)]

end RelationalMapping
