import RelationalMapping.Proofs.ScopeNames

/-!
What the operations that bind an attribute answer. Each has some checks, in a fixed order: the first
that does not pass is reported, and where all pass the answer is the next id. None of them can go
wrong in another way.

* `collision?`, `unnatural?`, `unsynthetic?`, `unbound?`: the checks, each with its report.
* `verdict`: the answer that an operation owes to its checks.
* `binding_verdicts`: all operations give it, in every scope of every entity after every run.
-/

namespace RelationalMapping

namespace EntityMapping

variable {e : EntityMapping} {scope : Scope} {base : String} {a : AttributeMapping}

/-! ## The checks -/

/-- Under the policy to reject, a name that is taken in the scope is reported by its path. -/
def collision? (e : EntityMapping) (scope : Scope) (base name : String) : Option Inconsistency :=
  if e.collisions = .reject ∧ name ∈ e.namesIn scope then some (.nameTaken (base ++ "." ++ name))
  else none

/-- A collection of another nature than declared is reported by its path. -/
def unnatural? (base : String) (attr : CollectionAttribute) (shape : CollectionShape) :
    Option Inconsistency :=
  if attr.nature = shape.nature then none
  else some (.unexpectedNature (base ++ "." ++ attr.name) shape.nature attr.nature)

def unsynthetic? (attr : SingleAttribute) : Option Inconsistency :=
  if attr.synthetic then none else some (.notSynthetic attr.name)

/-- The first of the parts that the entity does not store. -/
def unbound? (e : EntityMapping) (composite : String) (parts : List AttributeId) :
    Option Inconsistency :=
  (parts.find? fun id => !decide (id.entity = e.id ∧ id.index < e.store.length)).map fun id =>
    .unboundPart composite id e.label

/-- The first report, if there is any, or else the next id. -/
def verdict (e : EntityMapping) : List (Option Inconsistency) → Answer AttributeId
  | [] => .ok e.nextId
  | some reason :: _ => .inconsistent reason
  | none :: later => e.verdict later

@[simp] theorem verdict_some (reason : Inconsistency) (reports : List (Option Inconsistency)) :
    e.verdict (some reason :: reports) = .inconsistent reason := rfl

@[simp] theorem verdict_none (reports : List (Option Inconsistency)) :
    e.verdict (none :: reports) = e.verdict reports := rfl

/-! ## Names that are taken -/

theorem attributePath_eq (hpath : e.scopePath scope = .ok base) (name : String) :
    e.attributePath scope name = .ok (base ++ "." ++ name) := by
  cases scope with
  | entity =>
    cases hpath
    rfl
  | composite i =>
    obtain ⟨p, hp, hbase⟩ := Answer.bind_eq_ok_iff.mp hpath
    cases hbase
    obtain ⟨a, c, ha, _, rfl⟩ := compositeAt_eq_ok_iff.mp hp
    have hat : e.storedAt i = .ok a := Answer.atIndex_eq_ok_iff.mpr ha
    simp only [attributePath, hat, bind, Except.bind]
    rfl

theorem lists_eq (p : e.PartsPlaced) (hs : e.Opens scope) (name : String) :
    e.lists scope name = .ok (decide (name ∈ e.namesIn scope)) := by
  cases scope with
  | entity =>
    have hcontains : e.declared.contains name = decide (name ∈ e.declared.names) := by
      rw [Bool.eq_iff_iff, Roster.contains_iff_mem_names, decide_eq_true_iff]
    rw [lists, namesIn, hcontains]
  | composite i =>
    obtain ⟨a, c, ha, hc⟩ := hs
    obtain ⟨part, hpart, hsome⟩ := (p i a c ha hc).part?_eq_ok name
    have htaken : part.isSome = decide (name ∈ e.namesIn (.composite i)) := by
      rw [hsome, namesIn_composite ha hc, Bool.eq_iff_iff, Roster.contains_iff_mem_names,
        decide_eq_true_iff]
    rw [lists_composite ha hc, hpart, Except.map, htaken]

variable (p : e.PartsPlaced) (hpath : e.scopePath scope = .ok base) (hs : e.Opens scope)
include p hpath hs

theorem takenOver_eq (name : String) :
    e.takenOver scope name =
      if name ∈ e.namesIn scope then
        if e.collisions = .reject then .inconsistent (.nameTaken (base ++ "." ++ name))
        else .ok (some (base ++ "." ++ name))
      else .ok none := by
  simp only [takenOver, lists_eq p hs, attributePath_eq hpath, bind, Except.bind]
  by_cases hin : name ∈ e.namesIn scope
  · simp only [hin, decide_true, if_true]
    cases e.collisions <;> rfl
  · simp only [hin, decide_false, if_false]
    rfl

theorem answer_register (hid : a.id = e.nextId) :
    (e.register scope a).answer = e.verdict [e.collision? scope base a.name] := by
  unfold register collision?
  rw [if_neg (not_not.mpr hid), takenOver_eq p hpath hs]
  by_cases hin : a.name ∈ e.namesIn scope
  · by_cases hreject : e.collisions = .reject
    · simp [hin, hreject, Answer.inconsistent]
    · simp [hin, hreject, enrol, hid, verdict]
  · simp [hin, enrol, hid, verdict]

theorem answer_bindCollection (attr : CollectionAttribute) (element : ElementNature)
    (referenced : AttributeId) (options : CollectionOptions) (shape : CollectionShape) :
    (e.bindCollection scope attr element referenced options shape).answer =
      e.verdict [unnatural? base attr shape, e.collision? scope base attr.name] := by
  unfold bindCollection unnatural?
  split
  · rw [verdict_none]
    exact answer_register p hpath hs rfl
  · rw [hpath, verdict_some]
    rfl

omit p hpath hs

/-- Either all parts have their names, or the first that has none is reported. -/
theorem namedParts_eq (composite : String) (parts : List AttributeId) :
    (∃ named, e.namedParts composite parts = .ok named ∧ e.unbound? composite parts = none) ∨
      ∃ reason, e.namedParts composite parts = .error reason ∧
        e.unbound? composite parts = some reason := by
  induction parts with
  | nil => exact .inl ⟨[], rfl, rfl⟩
  | cons id rest ih =>
    by_cases hbound : id.entity = e.id ∧ id.index < e.store.length
    · have hpart : e.stored? id = some e.store[id.index] :=
        stored?_eq_some_iff.mpr ⟨hbound.1, List.getElem?_eq_getElem hbound.2⟩
      have hunbound : e.unbound? composite (id :: rest) = e.unbound? composite rest := by
        simp [unbound?, hbound]
      rw [namedParts, hpart, hunbound]
      rcases ih with ⟨named, hnamed, hnone⟩ | ⟨reason, hreason, hsome⟩
      · rw [hnamed]
        exact .inl ⟨_, rfl, hnone⟩
      · rw [hreason]
        exact .inr ⟨reason, rfl, hsome⟩
    · have hpart : e.stored? id = none := by
        rw [stored?]
        split
        · rename_i hent
          exact List.getElem?_eq_none (Nat.le_of_not_lt fun hlt => hbound ⟨hent, hlt⟩)
        · rfl
      have hunbound : e.unbound? composite (id :: rest) =
          some (.unboundPart composite id e.label) := by
        simp only [unbound?, List.find?_cons, hbound, decide_false, Bool.not_false,
          Option.map_some]
      rw [namedParts, hpart, hunbound]
      exact .inr ⟨_, rfl, rfl⟩

section

variable (p : e.PartsPlaced)
include p

theorem answer_bindVirtual (attr : SingleAttribute) (parts : List AttributeId)
    (remarks : Option Remarks) :
    (e.bindVirtual attr parts remarks).answer =
      e.verdict [unsynthetic? attr, e.unbound? attr.name parts,
        e.collision? .entity e.path attr.name] := by
  unfold bindVirtual unsynthetic?
  split
  · rw [verdict_none]
    rcases namedParts_eq (e := e) attr.name parts with ⟨named, hnamed, hnone⟩ | ⟨i, hi, hsome⟩
    · rw [hnamed, hnone, verdict_none]
      exact answer_register p rfl trivial rfl
    · rw [hi, hsome, verdict_some]
      rfl
  · rw [verdict_some]
    rfl

theorem answer_bindInverse (attr : SingleAttribute) (collection : AttributeId) :
    (e.bindInverse attr collection).answer =
      e.verdict [unsynthetic? attr, e.collision? .entity e.path attr.name] := by
  unfold bindInverse unsynthetic?
  split
  · rw [verdict_none]
    exact answer_register p rfl trivial rfl
  · rw [verdict_some]
    rfl

end

/-- What the operations answer in a scope whose path is `base`. What groups attributes and what
mirrors a collection comes to the entity itself. -/
structure Verdicts (e : EntityMapping) (scope : Scope) (base : String) : Prop where
  basic : ∀ attr values options generation,
    (e.bindBasic scope attr values options generation).answer =
      e.verdict [e.collision? scope base attr.name]
  component : ∀ attr parentReference options,
    (e.bindComponent scope attr parentReference options).answer =
      e.verdict [e.collision? scope base attr.name]
  reference : ∀ attr options target targetAttribute values,
    (e.bindReference scope attr options target targetAttribute values).answer =
      e.verdict [e.collision? scope base attr.name]
  collection : ∀ attr element referenced options shape,
    (e.bindCollection scope attr element referenced options shape).answer =
      e.verdict [unnatural? base attr shape, e.collision? scope base attr.name]
  grouping : ∀ attr parts remarks,
    (e.bindVirtual attr parts remarks).answer =
      e.verdict [unsynthetic? attr, e.unbound? attr.name parts,
        e.collision? .entity e.path attr.name]
  inverse : ∀ attr collection,
    (e.bindInverse attr collection).answer =
      e.verdict [unsynthetic? attr, e.collision? .entity e.path attr.name]

theorem PartsPlaced.verdicts (p : e.PartsPlaced) (hpath : e.scopePath scope = .ok base)
    (hs : e.Opens scope) : Verdicts e scope base where
  basic := fun _ _ _ _ => answer_register p hpath hs rfl
  component := fun _ _ _ => answer_register p hpath hs rfl
  reference := fun _ _ _ _ _ => answer_register p hpath hs rfl
  collection := answer_bindCollection p hpath hs
  grouping := answer_bindVirtual p
  inverse := answer_bindInverse p

end EntityMapping

namespace Model

/-- All entities go by the policy of their model. -/
theorem collisions_after (collisions : NameCollision) (verifying : Bool) (commands : List Command) :
    ∀ x e, ((fresh collisions verifying).after commands).entity? x = some e →
      e.collisions = collisions :=
  forall_entities_after (fun _ _ hs h => hs.collisions.trans h) (fun _ _ _ h => h)
    (fun _ _ _ scope _ _ h _ _ _ => by cases scope <;> exact h) (by simp [fresh, entity?])

/-- After every run, in each scope of each entity and whatever it is asked to bind, an operation
that binds an attribute reports the first of its checks that does not pass, or else answers the id
that is next. The policy is that of the model, and composites that were handed in need only have
their names lead to their parts. Where none was handed in, the names that are taken in a scope are
those of the attributes that it lists: in a virtual composite, of all that it groups. -/
theorem binding_verdicts (collisions : NameCollision) (verifying : Bool) (commands : List Command)
    (hgiven : ∀ c ∈ commands, ∀ a, c.Gives a → ∀ b, a.composite? = some b → b.Placed)
    (x : EntityId) (e : EntityMapping)
    (he : ((fresh collisions verifying).after commands).entity? x = some e)
    (composite : Option AttributeId) (scope : Scope) (hs : e.openScope composite = .ok scope) :
    e.collisions = collisions ∧ ∃ base, e.scopePath scope = .ok base ∧ e.Verdicts scope base ∧
      ((∀ c ∈ commands, ∀ a, c.Gives a → a.composite? = none) →
        ∃ as, e.FindsFirst scope as) := by
  have hopens : e.Opens scope := EntityMapping.opens_of_openScope hs
  obtain ⟨base, hbase⟩ := EntityMapping.WellStored.scopePath_eq_ok hopens
  have hplaced : e.PartsPlaced := partsPlaced_after collisions verifying hgiven x e he
  refine ⟨collisions_after collisions verifying commands x e he, base, hbase,
    hplaced.verdicts hbase hopens, fun hnone => ?_⟩
  have hnamed : e.PartsNamed := partsNamed_after collisions verifying hnone x e he
  exact hnamed.findsFirst (indexed_after collisions verifying commands x e he) hopens

/-- A virtual composite groups `name` and its part `first`, and the policy is to reject. -/
theorem binding_verdicts_groupingRun :
    (∀ c ∈ groupingRun, ∀ a, c.Gives a → a.composite? = none) ∧
      ∃ e base as, ((fresh .reject true).after groupingRun).entity? ⟨0⟩ = some e ∧
        e.openScope (some ⟨⟨0⟩, 2⟩) = .ok (.composite 2) ∧ e.scopePath (.composite 2) = .ok base ∧
        e.FindsFirst (.composite 2) as ∧ as.map AttributeMapping.name = ["name", "first"] ∧
        (e.bindBasic (.composite 2) ⟨"first", false⟩ [] {} .never).answer =
          .inconsistent (.nameTaken (base ++ "." ++ "first")) ∧
        (e.bindCollection (.composite 2) ⟨"first", .bag⟩ .basic ⟨⟨0⟩, 1⟩ {} .set).answer =
          .inconsistent (.unexpectedNature (base ++ "." ++ "first") .set .bag) ∧
        (e.bindVirtual ⟨"key", true⟩ [⟨⟨0⟩, 1⟩, ⟨⟨1⟩, 0⟩, ⟨⟨0⟩, 9⟩] none).answer =
          .inconsistent (.unboundPart "key" ⟨⟨1⟩, 0⟩ e.label) ∧
        (e.bindInverse ⟨"first", true⟩ ⟨⟨9⟩, 9⟩).answer = .ok ⟨⟨0⟩, 3⟩ := by
  have hnone : ∀ c ∈ groupingRun, ∀ a, c.Gives a → a.composite? = none := by
    rintro c hc a ⟨place, rfl⟩
    simp [groupingRun] at hc
  have hplaced : ∀ c ∈ groupingRun, ∀ a, c.Gives a → ∀ b, a.composite? = some b → b.Placed := by
    rintro c hc a hgives b hb
    rw [hnone c hc a hgives] at hb
    cases hb
  obtain ⟨_, base, hbase, hv, hfinds⟩ := binding_verdicts .reject true groupingRun hplaced ⟨0⟩ _ rfl
    (some ⟨⟨0⟩, 2⟩) (.composite 2) rfl
  obtain ⟨as, has⟩ := hfinds hnone
  have hnames : as.map AttributeMapping.name = ["name", "first"] := by
    cases has.listing
    rfl
  exact ⟨hnone, _, base, as, rfl, rfl, hbase, has, hnames, hv.basic _ _ _ _,
    hv.collection _ _ _ _ _, hv.grouping _ _ _, hv.inverse _ _⟩

end Model

end RelationalMapping
