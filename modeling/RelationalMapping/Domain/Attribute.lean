import RelationalMapping.Exchange.Datum

/-!
Attributes as the domain declares them: single ones and collections.
-/

namespace RelationalMapping

/-- How the elements of a collection are kept. -/
inductive CollectionNature where
  | bag
  | list
  | map
  | set
deriving DecidableEq, Repr

namespace CollectionNature

/-- The nature as messages and descriptions spell it. -/
def label : CollectionNature → String
  | .bag => "BAG"
  | .list => "LIST"
  | .map => "MAP"
  | .set => "SET"

instance : Enumeration CollectionNature where
  all := [.bag, .list, .map, .set]
  name
    | .bag => "Bag"
    | .list => "List"
    | .map => "Map"
    | .set => "Set"
  find_name a := by cases a <;> decide

instance : Describe CollectionNature := ⟨fun n => .plain n.label⟩

end CollectionNature

/-- An attribute with one value. A synthetic one was made while mapping, not declared. -/
structure SingleAttribute where
  name : String
  synthetic : Bool := false
deriving DecidableEq, Repr

instance : Describe SingleAttribute where
  describe a := .record "SingularAttribute"
    [("name", describe a.name), ("synthetic", describe a.synthetic)]

structure CollectionAttribute where
  name : String
  nature : CollectionNature
deriving DecidableEq, Repr

instance : Describe CollectionAttribute where
  describe a := .record "PluralAttribute"
    [("name", describe a.name), ("nature", describe a.nature)]

inductive Attribute where
  | single (a : SingleAttribute)
  | collection (a : CollectionAttribute)
deriving DecidableEq, Repr

namespace Attribute

def name : Attribute → String
  | .single a => a.name
  | .collection a => a.name

def isSingle : Attribute → Bool
  | .single _ => true
  | .collection _ => false

def isCollection (a : Attribute) : Bool := !a.isSingle

def single? : Attribute → Option SingleAttribute
  | .single a => some a
  | .collection _ => none

def collection? : Attribute → Option CollectionAttribute
  | .single _ => none
  | .collection a => some a

instance : Describe Attribute where
  describe
    | .single a => .tuple "Singular" [describe a]
    | .collection a => .tuple "Plural" [describe a]

end Attribute

end RelationalMapping
