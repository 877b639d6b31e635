import RelationalMapping.Model.Growth

/-!
The operations that build a model, as data. A model is built by carrying out commands one after the
other from a fresh one; a command that is refused is passed over.
-/

namespace RelationalMapping

inductive Command where
  | addRoot (inheritance : Inheritance) (mode : EntityMode)
  | addChild (parent : EntityId)
  | setType (entity : EntityId) (type : EntityType)
  | setPrimaryTable (entity : EntityId) (table : Table)
  | setPrimaryTableName (entity : EntityId) (name : String)
  | addSecondaryTable (entity : EntityId) (table : SecondaryTable)
  | addFilter (entity : EntityId) (filter : Filter)
  | addSynchronizedTables (entity : EntityId) (names : List String)
  | configureEntity (entity : EntityId) (change : EntitySettings → EntitySettings)
  | configureHierarchy (hierarchy : HierarchyId) (change : HierarchySettings → HierarchySettings)
  | bindBasic (place : Place) (attr : SingleAttribute) (values : List BoundValue)
      (options : SingleOptions) (generation : ValueGeneration)
  | bindComponent (place : Place) (attr : SingleAttribute)
      (parentReference : Option SingleAttribute) (options : SingleOptions)
  | bindReference (place : Place) (attr : SingleAttribute) (options : SingleOptions)
      (target : EntityId) (targetAttribute : AttributeId) (values : List BoundValue)
  | bindCollection (place : Place) (attr : CollectionAttribute) (element : ElementNature)
      (referenced : AttributeId) (options : CollectionOptions) (shape : CollectionShape)
  | bindVirtual (entity : EntityId) (attr : SingleAttribute) (parts : List AttributeId)
      (remarks : Option Remarks)
  | bindInverse (entity : EntityId) (attr : SingleAttribute) (collection : AttributeId)
  | register (place : Place) (mapping : AttributeMapping)

/-- What a command that was carried out answers. -/
inductive Reply where
  | done
  | entity (id : EntityId)
  | mapped (id : AttributeId)
deriving DecidableEq, Repr

namespace Model

/-- Carries out one command. -/
def apply (m : Model) : Command → Outcome Model Reply
  | .addRoot inheritance mode => (m.addRoot inheritance mode).map .entity
  | .addChild parent => (m.addChild parent).map .entity
  | .setType id type => (m.changeEntity id fun e => { e with type := some type }).map fun _ => .done
  | .setPrimaryTable id table =>
      (m.changeEntity id fun e => e.setPrimaryTable table).map fun _ => .done
  | .setPrimaryTableName id name =>
      (m.changeEntity id fun e => e.setPrimaryTableName name).map fun _ => .done
  | .addSecondaryTable id table =>
      (m.onEntity id fun e => e.addSecondaryTable table).map fun _ => .done
  | .addFilter id filter =>
      (m.changeEntity id fun e => { e with filters := e.filters.insert filter }).map fun _ => .done
  | .addSynchronizedTables id names =>
      (m.changeEntity id fun e =>
        { e with synchronizedTables := e.synchronizedTables.insertAll names }).map fun _ => .done
  | .configureEntity id change =>
      (m.changeEntity id fun e => { e with settings := change e.settings }).map fun _ => .done
  | .configureHierarchy id change =>
      (m.changeHierarchy id fun h => { h with settings := change h.settings }).map fun _ => .done
  | .bindBasic place attr values options generation =>
      (m.onPlace place fun e s => e.bindBasic s attr values options generation).map .mapped
  | .bindComponent place attr parentReference options =>
      (m.onPlace place fun e s => e.bindComponent s attr parentReference options).map .mapped
  | .bindReference place attr options target targetAttribute values =>
      (m.onPlace place fun e s =>
        e.bindReference s attr options target targetAttribute values).map .mapped
  | .bindCollection place attr element referenced options shape =>
      (m.onPlace place fun e s =>
        e.bindCollection s attr element referenced options shape).map .mapped
  | .bindVirtual id attr parts remarks =>
      (m.onEntity id fun e => e.bindVirtual attr parts remarks).map .mapped
  | .bindInverse id attr collection =>
      (m.onEntity id fun e => e.bindInverse attr collection).map .mapped
  | .register place mapping => (m.onPlace place fun e s => e.register s mapping).map .mapped

/-- A model without entities. -/
def fresh (collisions : NameCollision) (verifying : Bool) : Model := { collisions, verifying }

/-- The model that the commands leave, carried out one after the other. -/
def after (m : Model) : List Command → Model
  | [] => m
  | c :: rest => (m.apply c).state.after rest

/-- What each of the commands came to. -/
def outcomes (m : Model) : List Command → List (Outcome Model Reply)
  | [] => []
  | c :: rest => m.apply c :: (m.apply c).state.outcomes rest

/-- The events that the commands reported. -/
def eventsOf (m : Model) (commands : List Command) : List Event :=
  (m.outcomes commands).flatMap Outcome.events

@[simp] theorem after_nil (m : Model) : m.after [] = m := rfl

@[simp] theorem after_cons (m : Model) (c : Command) (rest : List Command) :
    m.after (c :: rest) = (m.apply c).state.after rest := rfl

theorem after_append (m : Model) (first second : List Command) :
    m.after (first ++ second) = (m.after first).after second := by
  induction first generalizing m with
  | nil => rfl
  | cons c rest ih => exact ih _

/-- A run with one command more. -/
theorem after_concat (m : Model) (commands : List Command) (c : Command) :
    m.after (commands ++ [c]) = ((m.after commands).apply c).state :=
  m.after_append commands [c]

end Model

end RelationalMapping
