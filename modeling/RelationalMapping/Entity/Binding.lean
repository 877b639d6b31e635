import RelationalMapping.Entity.Scope

/-!
Binding attributes: each operation checks what its kind of attribute asks for, builds the
attribute with the next id, and registers it.
-/

namespace RelationalMapping.EntityMapping

def bindBasic (e : EntityMapping) (scope : Scope) (attr : SingleAttribute)
    (values : List BoundValue) (options : SingleOptions) (generation : ValueGeneration) :
    Outcome EntityMapping AttributeId :=
  e.register scope
    { id := e.nextId, name := attr.name
      body := .basic { synthetic := attr.synthetic, options, values, generation } }

/-- A composite starts without parts; they are bound in its own scope. -/
def bindComponent (e : EntityMapping) (scope : Scope) (attr : SingleAttribute)
    (parentReference : Option SingleAttribute) (options : SingleOptions) :
    Outcome EntityMapping AttributeId :=
  e.register scope
    { id := e.nextId, name := attr.name
      body := .composite
        { synthetic := attr.synthetic, options, parentReference, isVirtual := false } }

def bindReference (e : EntityMapping) (scope : Scope) (attr : SingleAttribute)
    (options : SingleOptions) (target : EntityId) (targetAttribute : AttributeId)
    (values : List BoundValue) : Outcome EntityMapping AttributeId :=
  e.register scope
    { id := e.nextId, name := attr.name
      body := .reference
        { synthetic := attr.synthetic, options, target, targetAttribute, values } }

/-- The shape must have the nature that the attribute was declared with. -/
def bindCollection (e : EntityMapping) (scope : Scope) (attr : CollectionAttribute)
    (element : ElementNature) (referenced : AttributeId) (options : CollectionOptions)
    (shape : CollectionShape) : Outcome EntityMapping AttributeId :=
  if attr.nature = shape.nature then
    e.register scope
      { id := e.nextId, name := attr.name
        body := .collection { nature := attr.nature, element, referenced, options, shape } }
  else
    match e.scopePath scope with
    | .error fault => .refuse e fault
    | .ok path =>
        .refuse e (.inconsistent
          (.unexpectedNature (path ++ "." ++ attr.name) shape.nature attr.nature))

/-- The parts of a virtual composite with their names; the first that is not bound on the entity
is reported. -/
def namedParts (e : EntityMapping) (composite : String) :
    List AttributeId → Except Inconsistency (List (String × AttributeId))
  | [] => .ok []
  | id :: rest =>
      match e.stored? id with
      | none => .error (.unboundPart composite id e.label)
      | some part => (namedParts e composite rest).map ((part.name, id) :: ·)

/-- The parts one after the other in a composite that is read through the attributes it groups. -/
def virtualBody (named : List (String × AttributeId)) (remarks : Option Remarks) :
    CompositeBody :=
  named.foldl (fun c part => c.appendPart part.1 part.2)
    { synthetic := true
      options := { accessor := some "embedded", locking := false, remarks }
      parentReference := none, isVirtual := true }

/-- Groups attributes that are bound already. All parts are kept in the given order, also those
that share a name. -/
def bindVirtual (e : EntityMapping) (attr : SingleAttribute) (parts : List AttributeId)
    (remarks : Option Remarks) : Outcome EntityMapping AttributeId :=
  if attr.synthetic then
    match e.namedParts attr.name parts with
    | .error reason => .refuse e (.inconsistent reason)
    | .ok named =>
        e.register .entity
          { id := e.nextId, name := attr.name
            body := .composite (virtualBody named remarks) }
  else .refuse e (.inconsistent (.notSynthetic attr.name))

/-- The inverse side of a collection, which is not looked up here. -/
def bindInverse (e : EntityMapping) (attr : SingleAttribute) (collection : AttributeId) :
    Outcome EntityMapping AttributeId :=
  if attr.synthetic then
    e.register .entity
      { id := e.nextId, name := attr.name, body := .inverse { synthetic := true, collection } }
  else .refuse e (.inconsistent (.notSynthetic attr.name))

end RelationalMapping.EntityMapping
