import RelationalMapping.Collections.Roster
import RelationalMapping.Domain.Attribute

/-!
Entity types as the domain declares them: a name, the class behind them and their attributes.
-/

namespace RelationalMapping

/-- The name of a class on the application's side. -/
structure ClassName where
  name : String
deriving DecidableEq, Repr

instance : Describe ClassName := ⟨fun c => .plain ("ClassRef(" ++ c.name ++ ")")⟩

instance : Exchange ClassName where
  write c := .text c.name
  read? d := (Exchange.read? d).map ClassName.mk

structure EntityType where
  name : String
  className : Option ClassName := none
  attributes : Roster Attribute := .empty

namespace EntityType

/-- A redeclared name keeps its place. -/
def declare (e : EntityType) (a : Attribute) : EntityType :=
  { e with attributes := e.attributes.enter a.name a }

def attribute? (e : EntityType) (name : String) : Option Attribute := e.attributes.find? name

/-- No class is behind a dynamic entity type. -/
def isDynamic (e : EntityType) : Bool := e.className.isNone

/-- The order in which attributes were declared does not tell entity types apart. -/
instance : BEq EntityType where
  beq e f := e.name == f.name && e.className == f.className &&
    e.attributes.sameEntries f.attributes

instance : Describe EntityType where
  describe e := .record "Entity"
    [("name", describe e.name), ("class_reference", describe e.className),
     ("attributes", .map (e.attributes.entries.map fun p => (p.1, describe p.2)))]

end EntityType

end RelationalMapping
