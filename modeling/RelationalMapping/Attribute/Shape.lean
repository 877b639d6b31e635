import RelationalMapping.Domain.Attribute

/-!
The shape of a bound collection: how its elements are kept, what they are, and what a map is
indexed by.
-/

namespace RelationalMapping

/-- What the elements of a collection are. -/
inductive ElementNature where
  | basic
  | aggregate
  | oneToMany
  | manyToMany
  | manyToAny
deriving DecidableEq, Repr

namespace ElementNature

instance : Enumeration ElementNature where
  all := [.basic, .aggregate, .oneToMany, .manyToMany, .manyToAny]
  name
    | .basic => "Basic"
    | .aggregate => "Aggregate"
    | .oneToMany => "OneToMany"
    | .manyToMany => "ManyToMany"
    | .manyToAny => "ManyToAny"
  find_name a := by cases a <;> decide

/-- Whether the elements are entities of their own. -/
def isAssociation : ElementNature → Bool
  | .oneToMany | .manyToMany | .manyToAny => true
  | .basic | .aggregate => false

end ElementNature

/-- What a map is indexed by. -/
inductive IndexNature where
  | basic
  | aggregate
  | manyToMany
  | manyToAny
deriving DecidableEq, Repr

instance : Enumeration IndexNature where
  all := [.basic, .aggregate, .manyToMany, .manyToAny]
  name
    | .basic => "Basic"
    | .aggregate => "Aggregate"
    | .manyToMany => "ManyToMany"
    | .manyToAny => "ManyToAny"
  find_name a := by cases a <;> decide

/-- How the elements are kept; a list starts to count at its base. -/
inductive CollectionShape where
  | bag
  | list (base : Int32)
  | map (index : IndexNature)
  | set
deriving DecidableEq

namespace CollectionShape

def nature : CollectionShape → CollectionNature
  | .bag => .bag
  | .list _ => .list
  | .map _ => .map
  | .set => .set

def base? : CollectionShape → Option Int32
  | .list base => some base
  | _ => none

def index? : CollectionShape → Option IndexNature
  | .map index => some index
  | _ => none

/-- Lists and maps find an element by its index. -/
def isIndexed : CollectionShape → Bool
  | .list _ | .map _ => true
  | .bag | .set => false

instance : Describe CollectionShape where
  describe
    | .bag => .plain "Bag"
    | .list base => .record "List" [("base", .plain (toString base.toInt))]
    | .map index => .record "Map" [("index_nature", describe index)]
    | .set => .plain "Set"

/-- Shapes without data are read as the values of an enumeration, the others from a record whose
only field has the name of the shape and holds a record with the shape's data. -/
instance : Exchange CollectionShape where
  write
    | .bag => .text "Bag"
    | .list base => .record [("List", .record [("base", Exchange.write base)])]
    | .map index => .record [("Map", .record [("index_nature", Exchange.write index)])]
    | .set => .text "Set"
  read?
    | .text "Bag" | .record [("Bag", .null)] => some .bag
    | .text "Set" | .record [("Set", .null)] => some .set
    | .record [("List", .record fields)] => (Exchange.field? fields "base").map .list
    | .record [("Map", .record fields)] => (Exchange.field? fields "index_nature").map .map
    | _ => none

end CollectionShape

end RelationalMapping
