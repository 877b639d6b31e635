import RelationalMapping.Model.Command

/-!
What a single command can come to, said once: `step_apply` lists the outcomes with their states,
events and answers, and what holds of a model and survives each of them holds after every run
(`after_induction`).

* A binding operation is refused, or it enrols one attribute (`Bound`).
* A command is refused, adds a root or a child, changes what is not linked to anything, or binds
  an attribute (`Step`).
-/

namespace RelationalMapping

namespace EntityMapping

/-- The two have the same place in the tree. -/
structure SamePlace (e e' : EntityMapping) : Prop where
  id : e'.id = e.id
  parent : e'.parent = e.parent
  children : e'.children = e.children
  hierarchy : e'.hierarchy = e.hierarchy

theorem SamePlace.refl (e : EntityMapping) : SamePlace e e := ⟨rfl, rfl, rfl, rfl⟩

theorem samePlace_withAttribute (e : EntityMapping) (scope : Scope) (a : AttributeMapping) :
    SamePlace e (e.withAttribute scope a) := by
  cases scope <;> exact ⟨rfl, rfl, rfl, rfl⟩

/-- The attributes that the binding operations build on `e` for that scope. What is there already
is grouped on the entity itself, never inside a composite. -/
inductive Builds (e : EntityMapping) : Scope → AttributeMapping → Prop
  | plain {scope : Scope} {a : AttributeMapping} (hbody : a.composite? = none) : Builds e scope a
  | component {scope : Scope} {a : AttributeMapping} {c : CompositeBody}
      (hbody : a.body = .composite c) (hparts : c.partIds = [])
      (hpositions : c.positions = .empty) : Builds e scope a
  | grouping {a : AttributeMapping} {composite : String} {parts : List AttributeId}
      {named : List (String × AttributeId)} {remarks : Option Remarks}
      (hnamed : e.namedParts composite parts = .ok named)
      (hbody : a.body = .composite (virtualBody named remarks)) : Builds e .entity a

/-- What a binding operation on `e` can come to. `given` are the attributes that a caller hands in
ready made. -/
inductive Bound (given : AttributeMapping → Prop) (e : EntityMapping) :
    Outcome EntityMapping AttributeId → Prop
  | refused (fault : Fault) : Bound given e (.refuse e fault)
  | enrolled (scope : Scope) {a : AttributeMapping} (replaced : Option String)
      (hid : a.id = e.nextId) (hmade : e.Builds scope a ∨ given a)
      (htaken : e.takenOver scope a.name = .ok replaced) :
      Bound given e (e.enrol scope a replaced)

variable {given : AttributeMapping → Prop} {e : EntityMapping} {scope : Scope}

theorem Bound.samePlace {o : Outcome EntityMapping AttributeId} (h : Bound given e o) :
    SamePlace e o.state := by
  cases h with
  | refused fault => exact .refl e
  | enrolled scope replaced hid hmade htaken => exact samePlace_withAttribute e scope _

theorem bound_register {a : AttributeMapping} (hmade : e.Builds scope a ∨ given a) :
    Bound given e (e.register scope a) := by
  unfold register
  split
  · exact .refused _
  · rename_i hid
    cases ht : e.takenOver scope a.name with
    | error fault => exact .refused fault
    | ok replaced => exact .enrolled scope replaced (Decidable.not_not.mp hid) hmade ht

theorem bound_bindBasic (attr : SingleAttribute) (values : List BoundValue)
    (options : SingleOptions) (generation : ValueGeneration) :
    Bound given e (e.bindBasic scope attr values options generation) :=
  bound_register (.inl (.plain rfl))

theorem bound_bindComponent (attr : SingleAttribute) (parentReference : Option SingleAttribute)
    (options : SingleOptions) :
    Bound given e (e.bindComponent scope attr parentReference options) :=
  bound_register (.inl (.component rfl rfl rfl))

theorem bound_bindReference (attr : SingleAttribute) (options : SingleOptions)
    (target : EntityId) (targetAttribute : AttributeId) (values : List BoundValue) :
    Bound given e (e.bindReference scope attr options target targetAttribute values) :=
  bound_register (.inl (.plain rfl))

theorem bound_bindCollection (attr : CollectionAttribute) (element : ElementNature)
    (referenced : AttributeId) (options : CollectionOptions) (shape : CollectionShape) :
    Bound given e (e.bindCollection scope attr element referenced options shape) := by
  unfold bindCollection
  split
  · exact bound_register (.inl (.plain rfl))
  · cases e.scopePath scope <;> exact .refused _

theorem bound_bindVirtual (attr : SingleAttribute) (parts : List AttributeId)
    (remarks : Option Remarks) : Bound given e (e.bindVirtual attr parts remarks) := by
  unfold bindVirtual
  split
  · cases hn : e.namedParts attr.name parts with
    | error reason => exact .refused _
    | ok named => exact bound_register (.inl (.grouping hn rfl))
  · exact .refused _

theorem bound_bindInverse (attr : SingleAttribute) (collection : AttributeId) :
    Bound given e (e.bindInverse attr collection) := by
  unfold bindInverse
  split
  · exact bound_register (.inl (.plain rfl))
  · exact .refused _

end EntityMapping

/-- The attributes that a command hands in ready made. -/
def Command.Gives (c : Command) (a : AttributeMapping) : Prop := ∃ place, c = .register place a

namespace Model

/-- What a command can come to. -/
inductive Step (given : AttributeMapping → Prop) (m : Model) : Outcome Model Reply → Prop
  | refused (fault : Fault) : Step given m (.refuse m fault)
  | root (inheritance : Inheritance) (mode : EntityMode) :
      Step given m ((m.addRoot inheritance mode).map .entity)
  | child (parent : EntityId) (k : HierarchyId) (hparent : m.checkParent parent = .ok k) :
      Step given m ((m.addChild parent).map .entity)
  | settings {id : EntityId} {e e' : EntityMapping} (events : List Event)
      (hentity : m.entity? id = some e) (hplace : e.SamePlace e') (hstore : e'.store = e.store)
      (hdeclared : e'.declared = e.declared) (hcollisions : e'.collisions = e.collisions) :
      Step given m ⟨m.putEntity id e', events, .ok .done⟩
  | hierarchy {id : HierarchyId} {h : Hierarchy} (hhierarchy : m.hierarchy? id = some h)
      (change : HierarchySettings → HierarchySettings) :
      Step given m
        ⟨m.putHierarchy id { h with settings := change h.settings }, [], .ok .done⟩
  | binding {id : EntityId} {e : EntityMapping} {o : Outcome EntityMapping AttributeId}
      (hentity : m.entity? id = some e) (hbound : e.Bound given o) :
      Step given m ((o.within (m.putEntity id)).map .mapped)

section

variable {given : AttributeMapping → Prop} {m : Model}

theorem step_changeEntity (id : EntityId) (f : EntityMapping → EntityMapping)
    (hplace : ∀ e : EntityMapping, e.SamePlace (f e)) (hstore : ∀ e, (f e).store = e.store)
    (hdeclared : ∀ e, (f e).declared = e.declared)
    (hcollisions : ∀ e, (f e).collisions = e.collisions) :
    m.Step given ((m.changeEntity id f).map fun _ => .done) := by
  unfold changeEntity onEntity
  cases he : m.entity? id with
  | none => exact .refused _
  | some e => exact .settings [] he (hplace e) (hstore e) (hdeclared e) (hcollisions e)

theorem step_addSecondaryTable (id : EntityId) (table : SecondaryTable) :
    m.Step given ((m.onEntity id fun e => e.addSecondaryTable table).map fun _ => .done) := by
  unfold onEntity
  cases he : m.entity? id with
  | none => exact .refused _
  | some e => exact .settings _ he ⟨rfl, rfl, rfl, rfl⟩ rfl rfl rfl

theorem step_addChild (parent : EntityId) : m.Step given ((m.addChild parent).map .entity) := by
  cases hp : m.checkParent parent with
  | error fault =>
    have hr : (m.addChild parent).map Reply.entity = .refuse m fault := by
      simp only [addChild, hp]
      rfl
    rw [hr]
    exact .refused fault
  | ok k => exact .child parent k hp

theorem step_configureHierarchy (id : HierarchyId)
    (change : HierarchySettings → HierarchySettings) :
    m.Step given ((m.changeHierarchy id fun h => { h with settings := change h.settings }).map
      fun _ => .done) := by
  unfold changeHierarchy
  cases hh : m.hierarchy? id with
  | none => exact .refused _
  | some h => exact .hierarchy hh change

theorem step_onEntity (id : EntityId)
    (f : EntityMapping → Outcome EntityMapping AttributeId)
    (hf : ∀ e : EntityMapping, e.Bound given (f e)) :
    m.Step given ((m.onEntity id f).map .mapped) := by
  unfold onEntity
  cases he : m.entity? id with
  | none => exact .refused _
  | some e => exact .binding he (hf e)

theorem step_onPlace (p : Place)
    (f : EntityMapping → Scope → Outcome EntityMapping AttributeId)
    (hf : ∀ (e : EntityMapping) scope, e.Bound given (f e scope)) :
    m.Step given ((m.onPlace p f).map .mapped) := by
  refine step_onEntity p.entity _ fun e => ?_
  cases e.openScope p.composite with
  | error fault => exact .refused fault
  | ok scope => exact hf e scope

end

/-- Every command comes to one of these outcomes. -/
theorem step_apply (m : Model) (c : Command) : m.Step c.Gives (m.apply c) := by
  cases c with
  | addRoot inheritance mode => exact .root inheritance mode
  | addChild parent => exact step_addChild parent
  | setType id type =>
    exact step_changeEntity id _ (fun _ => ⟨rfl, rfl, rfl, rfl⟩) (fun _ => rfl) (fun _ => rfl)
      fun _ => rfl
  | setPrimaryTable id table =>
    exact step_changeEntity id _ (fun _ => ⟨rfl, rfl, rfl, rfl⟩) (fun _ => rfl) (fun _ => rfl)
      fun _ => rfl
  | setPrimaryTableName id name =>
    exact step_changeEntity id _ (fun _ => ⟨rfl, rfl, rfl, rfl⟩) (fun _ => rfl) (fun _ => rfl)
      fun _ => rfl
  | addSecondaryTable id table => exact step_addSecondaryTable id table
  | addFilter id filter =>
    exact step_changeEntity id _ (fun _ => ⟨rfl, rfl, rfl, rfl⟩) (fun _ => rfl) (fun _ => rfl)
      fun _ => rfl
  | addSynchronizedTables id names =>
    exact step_changeEntity id _ (fun _ => ⟨rfl, rfl, rfl, rfl⟩) (fun _ => rfl) (fun _ => rfl)
      fun _ => rfl
  | configureEntity id change =>
    exact step_changeEntity id _ (fun _ => ⟨rfl, rfl, rfl, rfl⟩) (fun _ => rfl) (fun _ => rfl)
      fun _ => rfl
  | configureHierarchy id change => exact step_configureHierarchy id change
  | bindBasic place attr values options generation =>
    exact step_onPlace place _ fun _ _ => EntityMapping.bound_bindBasic ..
  | bindComponent place attr parentReference options =>
    exact step_onPlace place _ fun _ _ => EntityMapping.bound_bindComponent ..
  | bindReference place attr options target targetAttribute values =>
    exact step_onPlace place _ fun _ _ => EntityMapping.bound_bindReference ..
  | bindCollection place attr element referenced options shape =>
    exact step_onPlace place _ fun _ _ => EntityMapping.bound_bindCollection ..
  | bindVirtual id attr parts remarks =>
    exact step_onEntity id _ fun _ => EntityMapping.bound_bindVirtual ..
  | bindInverse id attr collection =>
    exact step_onEntity id _ fun _ => EntityMapping.bound_bindInverse ..
  | register place mapping =>
    exact step_onPlace place _ fun _ _ => EntityMapping.bound_register (.inr ⟨place, rfl⟩)

/-- What survives every command that is carried out holds after the run. -/
theorem after_induction {P : Model → Prop} {m : Model} {commands : List Command} (h0 : P m)
    (hs : ∀ c ∈ commands, ∀ m o, P m → m.Step c.Gives o → P o.state) : P (m.after commands) := by
  induction commands generalizing m with
  | nil => exact h0
  | cons c rest ih =>
    have h1 : P (m.apply c).state :=
      hs c (List.mem_cons_self ..) m _ h0 (step_apply m c)
    exact ih h1 fun d hd => hs d (List.mem_cons_of_mem _ hd)

/-- What is among the outcomes of a run came of one command, with others before it and after it. -/
theorem exists_of_mem_outcomes {m : Model} {commands : List Command} {o : Outcome Model Reply}
    (h : o ∈ m.outcomes commands) :
    ∃ before c later, commands = before ++ c :: later ∧ (m.after before).apply c = o := by
  induction commands generalizing m with
  | nil => cases h
  | cons c rest ih =>
    rcases List.mem_cons.mp h with rfl | h
    · exact ⟨[], c, rest, rfl, rfl⟩
    · obtain ⟨before, d, later, rfl, hd⟩ := ih h
      exact ⟨c :: before, d, later, rfl, hd⟩

end Model

end RelationalMapping
