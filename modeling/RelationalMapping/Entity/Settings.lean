import RelationalMapping.Domain.EntityType
import RelationalMapping.Remarks

/-!
Settings of a mapped entity that stand for themselves: nothing else in a model depends on them.
Among them are statements written by hand that take the place of generated ones, and classes whose
methods are called as entities go through their life cycle.
-/

namespace RelationalMapping

/-- How the number of changed rows is checked. -/
inductive RowCheck where
  | none
  | count
  | parameter
deriving DecidableEq, Repr

instance : Enumeration RowCheck where
  all := [.none, .count, .parameter]
  name
    | .none => "None"
    | .count => "Count"
    | .parameter => "Param"
  find_name a := by cases a <;> decide

structure CustomStatement where
  sql : String
  /-- Whether it calls a stored procedure. -/
  callable : Bool := false
  check : RowCheck := .count
deriving DecidableEq, Repr

/-- A stored procedure gives the number of rows in a parameter. -/
def CustomStatement.procedure (sql : String) : CustomStatement :=
  { sql, callable := true, check := .parameter }

inductive LifecycleEvent where
  | prePersist
  | postPersist
  | preRemove
  | postRemove
  | preUpdate
  | postUpdate
  | postLoad
deriving DecidableEq, Repr

instance : Enumeration LifecycleEvent where
  all := [.prePersist, .postPersist, .preRemove, .postRemove, .preUpdate, .postUpdate, .postLoad]
  name
    | .prePersist => "PrePersist"
    | .postPersist => "PostPersist"
    | .preRemove => "PreRemove"
    | .postRemove => "PostRemove"
    | .preUpdate => "PreUpdate"
    | .postUpdate => "PostUpdate"
    | .postLoad => "PostLoad"
  find_name a := by cases a <;> decide

structure CallbackSource where
  className : ClassName
  /-- A listener is a class of its own, not that of the entity. -/
  listener : Bool := false
  methods : List (LifecycleEvent × String)
deriving DecidableEq, Repr

/-- The first method declared for the event. -/
def CallbackSource.method? (s : CallbackSource) (event : LifecycleEvent) : Option String :=
  s.methods.lookup event

structure EntitySettings where
  proxyInterface : Option ClassName := none
  /-- The name of the entity in queries. -/
  queryName : Option String := none
  persister : Option ClassName := none
  tuplizer : Option ClassName := none
  /-- The discriminator value of the entity; two values stand for null and for anything else. -/
  discriminatorMatch : Option String := none
  remarks : Option Remarks := none
  lazy : Bool := false
  mutable : Bool := true
  whereClause : Option String := none
  /-- The column that holds row ids, where the database has one. -/
  rowId : Option String := none
  dynamicUpdate : Bool := false
  dynamicInsert : Bool := false
  batchSize : Nat := 0
  selectBeforeUpdate : Bool := false
  subselectCollections : Bool := false
  /-- Open until the mapping says so one way or the other. -/
  isAbstract : Option Bool := none
  loader : Option String := none
  insertStatement : Option CustomStatement := none
  updateStatement : Option CustomStatement := none
  deleteStatement : Option CustomStatement := none
  /-- In the order in which they are called. -/
  callbacks : List CallbackSource := []

namespace EntitySettings

def matchesNull (s : EntitySettings) : Bool := s.discriminatorMatch == some "null"

def matchesNotNull (s : EntitySettings) : Bool := s.discriminatorMatch == some "not null"

end EntitySettings

end RelationalMapping
