import RelationalMapping.Attribute.Basic
import RelationalMapping.Hierarchy

/-!
The events that operations on a model report as they happen.
-/

namespace RelationalMapping

inductive EventLevel where
  | debug
  | trace
deriving DecidableEq, Repr

def EventLevel.text : EventLevel → String
  | .debug => "DEBUG"
  | .trace => "TRACE"

inductive Event where
  | rootAdded (entity : EntityId) (hierarchy : HierarchyId) (inheritance : Inheritance)
      (mode : EntityMode)
  | childAdded (entity parent : EntityId) (hierarchy : HierarchyId)
  | tableAdded (entity : EntityId) (table : String)
  | attributeReplaced (entity : EntityId) (path : String)
  | attributeAdded (entity : EntityId) (name : String) (kind : AttributeKind)
  | modelFinished (entities hierarchies : Nat)
deriving DecidableEq, Repr

namespace Event

/-- That one more attribute is there is of interest only when every step is. -/
def level : Event → EventLevel
  | .attributeAdded .. => .trace
  | _ => .debug

def message : Event → String
  | .rootAdded .. => "created root entity binding"
  | .childAdded .. => "created sub-entity binding"
  | .tableAdded .. => "registered secondary table"
  | .attributeReplaced .. => "replacing attribute binding"
  | .attributeAdded .. => "registered attribute binding"
  | .modelFinished .. => "metamodel finished"

/-- The data of the event, by name. -/
def fields : Event → List (String × String)
  | .rootAdded entity hierarchy inheritance mode =>
      [("entity_binding", entity.text), ("hierarchy", hierarchy.text),
       ("inheritance_type", describeInline inheritance), ("entity_mode", describeInline mode)]
  | .childAdded entity parent hierarchy =>
      [("entity_binding", entity.text), ("super_entity_binding", parent.text),
       ("hierarchy", hierarchy.text)]
  | .tableAdded entity table => [("entity_binding", entity.text), ("table", table)]
  | .attributeReplaced entity path => [("entity_binding", entity.text), ("attribute", path)]
  | .attributeAdded entity name kind =>
      [("entity_binding", entity.text), ("attribute", name), ("kind", kind.label)]
  | .modelFinished entities hierarchies =>
      [("entity_bindings", toString entities), ("hierarchies", toString hierarchies)]

end Event

end RelationalMapping
