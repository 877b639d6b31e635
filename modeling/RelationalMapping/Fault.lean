import RelationalMapping.Attribute.Basic
import RelationalMapping.Failure.Kind

/-!
Why an operation on a model does not give its answer. An `Inconsistency` is a report about the
model and what was asked of it; a `Breach` is a call that breaks the terms of the operation, such
as naming an entity that does not exist.
-/

namespace RelationalMapping

/-- An entity is named in messages by its entity type, once that is set. -/
structure EntityLabel where
  typeName : Option String
deriving DecidableEq, Repr

def EntityLabel.text (l : EntityLabel) : String :=
  "EntityBinding\x7bentity=" ++ l.typeName.getD "not set" ++ "\x7d"

inductive Inconsistency where
  | noPrimaryTable (entity : EntityLabel)
  | unknownTable (name : String) (known : List String)
  | notComposite (id : AttributeId) (entity : EntityLabel)
  | notSynthetic (name : String)
  | unboundPart (composite : String) (part : AttributeId) (entity : EntityLabel)
  | unexpectedNature (path : String) (expected found : CollectionNature)
  | nameTaken (path : String)
  | missingEntity (referrer : EntityLabel) (id : EntityId)
  | missingAttribute (referrer : String) (id : AttributeId)
  | miscountedChild (child : EntityLabel) (times : Nat) (parent : EntityLabel)
  | outsideHierarchy (child parent : EntityLabel)
  | foreignChild (child parent : EntityLabel)
  | missingRoot (hierarchy : HierarchyId) (root : EntityId)
  | notRoot (entity : EntityLabel) (hierarchy : HierarchyId)
  | versionNotBasic (version : String) (root : EntityLabel)
  | missingTarget (reference : String) (target : EntityId)
  | hiddenTarget (reference : String) (id : AttributeId) (target : EntityLabel)
  | inverseOfSingle (inverse : String) (found : String)
deriving DecidableEq, Repr

def Inconsistency.message : Inconsistency → String
  | .noPrimaryTable entity => entity.text ++ " has no primary table"
  | .unknownTable name known =>
      "Unable to find table " ++ name ++ " amongst tables " ++ describeInline known
  | .notComposite id entity =>
      id.text ++ " is not a composite attribute binding of " ++ entity.text
  | .notSynthetic name =>
      "Illegal attempt to create synthetic attribute binding from non-synthetic attribute " ++
        "reference `" ++ name ++ "`"
  | .unboundPart composite part entity =>
      "virtual composite `" ++ composite ++ "` refers to " ++ part.text ++
        ", which is not bound on " ++ entity.text
  | .unexpectedNature path expected found =>
      "Expected attribute `" ++ path ++ "` to have plural nature " ++ expected.label ++
        ", but was " ++ found.label
  | .nameTaken path => "attribute binding `" ++ path ++ "` is already registered"
  | .missingEntity referrer id => referrer.text ++ " refers to missing " ++ id.text
  | .missingAttribute referrer id => "`" ++ referrer ++ "` refers to missing " ++ id.text
  | .miscountedChild child times parent =>
      child.text ++ " appears " ++ toString times ++ " times among the sub-entity bindings of " ++
        parent.text
  | .outsideHierarchy child parent =>
      child.text ++ " is not in the hierarchy of its super-entity binding " ++ parent.text
  | .foreignChild child parent =>
      child.text ++ " is listed as a sub-entity binding of " ++ parent.text ++
        ", which is not its super-entity binding"
  | .missingRoot hierarchy root => hierarchy.text ++ " has a dangling root " ++ root.text
  | .notRoot entity hierarchy =>
      entity.text ++ " is recorded as the root of " ++ hierarchy.text ++ " but is not"
  | .versionNotBasic version root =>
      "version attribute `" ++ version ++ "` of " ++ root.text ++
        " must be a basic attribute binding"
  | .missingTarget reference target =>
      "many-to-one `" ++ reference ++ "` references missing " ++ target.text
  | .hiddenTarget reference id target =>
      "many-to-one `" ++ reference ++ "` references " ++ id.text ++
        ", which is not visible on " ++ target.text
  | .inverseOfSingle inverse found =>
      "back-reference `" ++ inverse ++ "` must mirror a plural attribute binding, but `" ++
        found ++ "` is not one"

/-- The kinds of attribute that a caller may insist on. -/
inductive ExpectedKind where
  | basic
  | composite
  | reference
  | collection
deriving DecidableEq, Repr

def ExpectedKind.label : ExpectedKind → String
  | .basic => "basic"
  | .composite => "composite"
  | .reference => "many-to-one"
  | .collection => "plural"

inductive Breach where
  | unknownEntity
  | unknownHierarchy
  | unknownAttribute
  | foreignAttribute (owner asked : EntityId)
  | strayParent (top root : EntityId)
  | misplacedAttribute (given next : AttributeId)
  | unexpectedKind (expected : ExpectedKind) (found : AttributeMapping)
  | outOfBounds (index length : Nat)
  /-- A walk along links that lead back to where they came from. -/
  | circular

/-- Two values that ought to be equal. -/
def Breach.mismatch (reason left right : String) : String :=
  "assertion `left == right` failed" ++ reason ++ "\n  left: " ++ left ++ "\n right: " ++ right

def Breach.message : Breach → String
  | .unknownEntity => "invalid entity binding ID"
  | .unknownHierarchy => "invalid hierarchy ID"
  | .unknownAttribute => "invalid attribute binding ID"
  | .foreignAttribute owner asked =>
      mismatch ": attribute binding of another entity binding" owner.text asked.text
  | .strayParent top root =>
      mismatch ": super entity binding is not part of its hierarchy" top.text root.text
  | .misplacedAttribute given next => mismatch "" given.text next.text
  | .unexpectedKind expected found =>
      "expected " ++ expected.label ++ " attribute binding, but was " ++ describeInline found
  | .outOfBounds index length =>
      "index out of bounds: the len is " ++ toString length ++ " but the index is " ++
        toString index
  | .circular => "circular links"

inductive Fault where
  | inconsistent (i : Inconsistency)
  | breach (b : Breach)

/-- An inconsistency is reported as a failure of its own, without a cause. -/
def Fault.message : Fault → String
  | .inconsistent i => FailureChain.text [.inconsistency i.message]
  | .breach b => b.message

/-- The answer of an operation that only reads. -/
abbrev Answer (α : Type) := Except Fault α

namespace Answer

variable {α : Type}

def breach (b : Breach) : Answer α := .error (.breach b)

def inconsistent (i : Inconsistency) : Answer α := .error (.inconsistent i)

/-- What was looked up, or the breach of having looked up what does not exist. -/
def ofOption (b : Breach) (a : Option α) : Answer α :=
  match a with
  | some a => .ok a
  | none => breach b

/-- Nothing if the condition holds, or else the report that it does not. -/
def ensure (holds : Bool) (i : Inconsistency) : Answer Unit :=
  if holds then .ok () else inconsistent i

/-- What was looked up, or the report of its absence. -/
def require (i : Inconsistency) (a : Option α) : Answer α :=
  match a with
  | some a => .ok a
  | none => inconsistent i

/-- What stands at a position that is taken to be there. -/
def atIndex (as : List α) (index : Nat) : Answer α :=
  .ofOption (.outOfBounds index as.length) as[index]?

theorem bind_eq_ok_iff {β : Type} {x : Answer α} {f : α → Answer β} {b : β} :
    x >>= f = .ok b ↔ ∃ a, x = .ok a ∧ f a = .ok b := by
  cases x <;> simp [bind, Except.bind]

/-- An operation fails where its first part fails, or else its second. -/
theorem bind_eq_error_iff {β : Type} {x : Answer α} {f : α → Answer β} {fault : Fault} :
    x >>= f = .error fault ↔ x = .error fault ∨ ∃ a, x = .ok a ∧ f a = .error fault := by
  cases x <;> simp [bind, Except.bind]

@[simp] theorem ofOption_eq_ok_iff {b : Breach} {o : Option α} {a : α} :
    ofOption b o = .ok a ↔ o = some a := by
  cases o <;> simp [ofOption, breach]

@[simp] theorem ensure_eq_ok_iff {holds : Bool} {i : Inconsistency} {u : Unit} :
    ensure holds i = .ok u ↔ holds = true := by
  cases holds <;> simp [ensure, inconsistent]

@[simp] theorem require_eq_ok_iff {i : Inconsistency} {o : Option α} {a : α} :
    require i o = .ok a ↔ o = some a := by
  cases o <;> simp [require, inconsistent]

theorem require_eq_error_iff {i : Inconsistency} {o : Option α} {fault : Fault} :
    require i o = .error fault ↔ o = none ∧ fault = .inconsistent i := by
  cases o <;> simp [require, inconsistent, eq_comm]

@[simp] theorem atIndex_eq_ok_iff {as : List α} {index : Nat} {a : α} :
    atIndex as index = .ok a ↔ as[index]? = some a :=
  ofOption_eq_ok_iff

/-- Going through a list succeeds where every item does. -/
theorem forM_eq_ok_iff {as : List α} {f : α → Answer Unit} {u : Unit} :
    forM as f = .ok u ↔ ∀ a ∈ as, f a = .ok () := by
  induction as with
  | nil => simp [pure, Except.pure]
  | cons a rest ih =>
    rw [List.forM_cons, bind_eq_ok_iff, ih, List.forall_mem_cons]
    constructor
    · rintro ⟨_, ha, hrest⟩
      exact ⟨ha, hrest⟩
    · rintro ⟨ha, hrest⟩
      exact ⟨(), ha, hrest⟩

theorem bind_ne_error {β : Type} {x : Answer α} {f : α → Answer β} {fault : Fault}
    (hx : x ≠ .error fault) (hf : ∀ a, x = .ok a → f a ≠ .error fault) :
    x >>= f ≠ .error fault := by
  intro h
  rcases bind_eq_error_iff.mp h with h | ⟨a, ha, h⟩
  · exact hx h
  · exact hf a ha h

theorem forM_ne_error {as : List α} {f : α → Answer Unit} {fault : Fault}
    (h : ∀ a ∈ as, f a ≠ .error fault) : forM as f ≠ .error fault := by
  induction as with
  | nil => simp [pure, Except.pure]
  | cons a rest ih =>
    rw [List.forM_cons]
    refine bind_ne_error (h a (List.mem_cons_self ..)) fun _ _ => ?_
    exact ih fun b hb => h b (List.mem_cons_of_mem _ hb)

/-- Going through a list fails at one of the items. -/
theorem exists_of_forM_eq_error {as : List α} {f : α → Answer Unit} {fault : Fault}
    (h : forM as f = .error fault) : ∃ a ∈ as, f a = .error fault := by
  induction as with
  | nil => cases h
  | cons a rest ih =>
    rw [List.forM_cons] at h
    rcases bind_eq_error_iff.mp h with ha | ⟨_, _, hrest⟩
    · exact ⟨a, List.mem_cons_self .., ha⟩
    · obtain ⟨b, hb, hfault⟩ := ih hrest
      exact ⟨b, List.mem_cons_of_mem _ hb, hfault⟩

/-- The terms of the operation were kept: it answers, or it reports an inconsistency. -/
def NoBreach (x : Answer α) : Prop := ∀ b, x ≠ .error (.breach b)

/-- No inconsistency is reported: the operation answers, or its terms were broken. -/
def NoReport (x : Answer α) : Prop := ∀ i, x ≠ .error (.inconsistent i)

theorem NoBreach.of_ok {x : Answer α} (h : ∃ a, x = .ok a) : x.NoBreach := by
  obtain ⟨a, rfl⟩ := h
  intro b hb
  cases hb

theorem NoReport.of_ok {x : Answer α} (h : ∃ a, x = .ok a) : x.NoReport := by
  obtain ⟨a, rfl⟩ := h
  intro i hi
  cases hi

theorem noBreach_inconsistent (i : Inconsistency) : (inconsistent i : Answer α).NoBreach := by
  intro b hb
  cases hb

theorem noReport_breach (b : Breach) : (breach b : Answer α).NoReport := by
  intro i hi
  cases hi

theorem noBreach_require (i : Inconsistency) (a : Option α) : (require i a).NoBreach := by
  cases a with
  | none => exact noBreach_inconsistent i
  | some a => exact .of_ok ⟨a, rfl⟩

theorem noBreach_ensure (holds : Bool) (i : Inconsistency) : (ensure holds i).NoBreach := by
  cases holds with
  | false => exact noBreach_inconsistent i
  | true => exact .of_ok ⟨(), rfl⟩

theorem NoBreach.map {β : Type} {x : Answer α} (h : x.NoBreach) (f : α → β) :
    NoBreach (x.map f) := by
  cases x with
  | error fault =>
    intro b hb
    cases hb
    exact h b rfl
  | ok a => exact .of_ok ⟨f a, rfl⟩

theorem NoBreach.bind {β : Type} {x : Answer α} {f : α → Answer β} (hx : x.NoBreach)
    (hf : ∀ a, x = .ok a → (f a).NoBreach) : (x >>= f).NoBreach :=
  fun b => bind_ne_error (hx b) fun a ha => hf a ha b

theorem NoBreach.forM {as : List α} {f : α → Answer Unit} (h : ∀ a ∈ as, (f a).NoBreach) :
    NoBreach (as.forM f) :=
  fun b => forM_ne_error fun a ha => h a ha b

theorem noReport_ofOption (b : Breach) (a : Option α) : (ofOption b a).NoReport := by
  cases a with
  | none => exact noReport_breach b
  | some a => exact .of_ok ⟨a, rfl⟩

/-- What neither breaks its terms nor reports anything succeeds. -/
theorem eq_ok_of_noBreach_of_noReport {x : Answer Unit} (hb : x.NoBreach) (hr : x.NoReport) :
    x = .ok () := by
  match x with
  | .ok () => rfl
  | .error (.breach b) => exact absurd rfl (hb b)
  | .error (.inconsistent i) => exact absurd rfl (hr i)

end Answer

/-- The first part of that name. -/
def CompositeBody.part? (c : CompositeBody) (name : String) : Answer (Option AttributeId) :=
  match c.positions.find? name with
  | none => .ok none
  | some i => (Answer.atIndex c.partIds i).map some

namespace AttributeMapping

/-- Insists on one kind of body. -/
def expect {α : Type} (a : AttributeMapping) (kind : ExpectedKind) (body? : Option α) : Answer α :=
  .ofOption (.unexpectedKind kind a) body?

def expectBasic (a : AttributeMapping) : Answer BasicBody := a.expect .basic a.basic?

def expectComposite (a : AttributeMapping) : Answer CompositeBody :=
  a.expect .composite a.composite?

def expectReference (a : AttributeMapping) : Answer ReferenceBody :=
  a.expect .reference a.reference?

def expectCollection (a : AttributeMapping) : Answer CollectionBody :=
  a.expect .collection a.collection?

end AttributeMapping

end RelationalMapping
