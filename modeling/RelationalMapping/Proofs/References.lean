import RelationalMapping.Proofs.Breaches
import RelationalMapping.Proofs.Descent
import RelationalMapping.Proofs.Enrolment

/-!
References that are good when they are given stay good: verification accepts what a run leaves if
each command of it referred to what was there.

* `Sound`: the invariant, for all that is stored, reached or not.
* `Resolves`: what a command refers to is there, and is what it may refer to.
* `verify_after_resolving`: the whole run.
-/

namespace RelationalMapping.Model

variable {m m' : Model} {x : EntityId} {e : EntityMapping} {scope : Scope} {a : AttributeMapping}

/-! ## The invariant -/

/-- What commands that refer to what is there keep to. -/
structure Sound (m : Model) : Prop where
  forest : Forest m
  declared : m.DeclaresStored
  /-- Every attribute holds, also one that was replaced and is reached no more. -/
  attributes : ∀ id a, m.attribute? id = some a → m.Holds a
  parts : Acyclic m.PartLink
  hierarchies : ∀ h ∈ m.hierarchies, m.IdentifierHolds h ∧ m.VersionHolds h

/-- What is reached is stored. -/
theorem Reaches.exists_attribute? (h : m.Reaches e a) (he : e ∈ m.entities) :
    ∃ id, m.attribute? id = some a := by
  cases h with
  | @declared i _ _ ha =>
    obtain ⟨x, hx⟩ := List.mem_iff_getElem?.mp he
    exact ⟨⟨⟨x⟩, i⟩, attribute?_eq_some_iff.mpr ⟨e, hx, ha⟩⟩
  | part _ _ hb => exact ⟨_, hb⟩

namespace Sound

theorem coherent (s : Sound m) : Coherent m := by
  have hfind : ∀ e ∈ m.entities, ∃ x, m.entity? x = some e ∧ e.id = x := by
    intro e he
    obtain ⟨x, hx⟩ := List.mem_iff_getElem?.mp he
    exact ⟨⟨x⟩, hx, s.forest.entity_id hx⟩
  constructor
  case versions => exact fun h hh => (s.hierarchies h hh).2
  constructor
  case parents =>
    intro e he p hp
    obtain ⟨x, hx, rfl⟩ := hfind e he
    obtain ⟨pe, hpe, hcount⟩ := s.forest.linked.listed_once hx hp
    exact ⟨pe, hpe, hcount, (s.forest.parent_hierarchy hx hp hpe).symm⟩
  case children =>
    intro e he c hc
    obtain ⟨x, hx, rfl⟩ := hfind e he
    exact s.forest.linked.listed_parent hx hc
  case attributes =>
    intro e he a ha
    obtain ⟨id, hid⟩ := ha.exists_attribute? he
    exact s.attributes id a hid
  case roots =>
    intro h hh
    obtain ⟨k, hk⟩ := List.mem_iff_getElem?.mp hh
    have hid : h.id = ⟨k⟩ := s.forest.hierarchy_id hk
    rw [RootHolds, hid]
    exact s.forest.recorded_root hk
  case identifiers => exact fun h hh => (s.hierarchies h hh).1

/-- Verification accepts a sound model: a reference that holds has a check that ends. -/
theorem verify (s : Sound m) : m.verify = .ok () := by
  have hend : m.verify.NoBreach := by
    intro b hb
    obtain ⟨e, he, a, r, hr, hbody, hbreach⟩ := breach_verify s.parts s.declared hb
    obtain ⟨id, hid⟩ := hr.exists_attribute? he
    have hholds : m.Holds a := s.attributes id a hid
    simp only [Holds, hbody] at hholds
    rw [verifyReference_eq_ok_iff.mpr hholds] at hbreach
    cases hbreach
  exact Answer.eq_ok_of_noBreach_of_noReport hend (s.coherent.noReport_verifyWithin _)

/-! ## What commands do to it -/

theorem fresh (collisions : NameCollision) (verifying : Bool) :
    Sound (Model.fresh collisions verifying) where
  forest := forest_fresh collisions verifying
  declared := by simp [DeclaresStored, Model.fresh]
  attributes := by simp [Model.attribute?, Model.fresh, entity?]
  parts := .of_rank (fun _ => 0) (by simp [PartLink, Model.attribute?, Model.fresh, entity?])
  hierarchies := by simp [Model.fresh]

theorem hierarchies_later (s : Sound m) (g : Grown m m') :
    ∀ h ∈ m.hierarchies, m'.IdentifierHolds h ∧ m'.VersionHolds h := by
  intro h hh
  obtain ⟨hidentifier, hversion⟩ := s.hierarchies h hh
  exact ⟨g.identifierHolds hidentifier, g.versionHolds hversion⟩

/-- Nothing is at stake where entities keep their stores and new ones have nothing stored. -/
theorem of_sameStores (s : Sound m) (f : Forest m') (g : Grown m m') (hstores : SameStores m m')
    (hhierarchies : ∀ h ∈ m'.hierarchies, m'.IdentifierHolds h ∧ m'.VersionHolds h) :
    Sound m' := by
  constructor
  case forest => exact f
  case declared =>
    intro e' he' i hi
    obtain ⟨k, hk⟩ := List.mem_iff_getElem?.mp he'
    have hfound : m'.entity? ⟨k⟩ = some e' := hk
    rcases hstores.back hfound with ⟨e, he, hsame⟩ | ⟨_, _, hnone, _⟩
    · rw [hsame.store]
      exact s.declared e (List.mem_of_getElem? he) i (hsame.declared ▸ hi)
    · rw [hnone] at hi
      cases hi
  case attributes =>
    exact fun id a ha => g.holds (s.attributes id a (hstores.attribute?_eq id ▸ ha))
  case parts => exact s.parts.mono fun _ _ hlink => hstores.partLink hlink
  case hierarchies => exact hhierarchies

theorem putEntity (s : Sound m) (he : m.entity? x = some e) {e' : EntityMapping}
    (hplace : e.SamePlace e') (hstore : e.SameStore e') : Sound (m.putEntity x e') := by
  have g : Grown m (m.putEntity x e') :=
    grown_putEntity he (EntityMapping.grown_of_store_eq hplace.id hplace.parent hstore.store)
  exact s.of_sameStores (s.forest.alike (alike_putEntity he hplace)) g
    (sameStores_putEntity he hstore) (s.hierarchies_later g)

theorem putHierarchy (s : Sound m) {k : HierarchyId} {h h' : Hierarchy}
    (hk : m.hierarchy? k = some h) (hid : h'.id = h.id) (hroot : h'.root = h.root)
    (hidentifier : m.IdentifierHolds h') (hversion : m.VersionHolds h') :
    Sound (m.putHierarchy k h') := by
  refine s.of_sameStores (s.forest.alike (alike_putHierarchy hk hid hroot)) (grown_refl m)
    ⟨rfl, (SameStores.refl m).forth, (SameStores.refl m).back⟩ fun g hg => ?_
  rcases List.mem_or_eq_of_mem_set hg with hg | rfl
  · exact s.hierarchies g hg
  · exact ⟨hidentifier, hversion⟩

theorem addRoot (s : Sound m) (inheritance : Inheritance) (mode : EntityMode) :
    Sound (m.addRoot inheritance mode).state := by
  have hstep : m.Step (fun _ => False) ((m.addRoot inheritance mode).map .entity) :=
    .root inheritance mode
  have g : Grown m (m.addRoot inheritance mode).state := grown_step hstep
  refine s.of_sameStores (s.forest.addRoot inheritance mode) g
    (sameStores_addRoot inheritance mode) fun h hh => ?_
  rcases List.mem_append.mp hh with hh | hh
  · exact s.hierarchies_later g h hh
  · rw [List.mem_singleton.mp hh]
    exact ⟨fun _ hid => (by cases hid), fun _ hid => (by cases hid)⟩

theorem addChild (s : Sound m) {parent : EntityId} {k : HierarchyId}
    (hc : m.checkParent parent = .ok k) : Sound (m.addChild parent).state := by
  have hstep : m.Step (fun _ => False) ((m.addChild parent).map .entity) := .child parent k hc
  have g : Grown m (m.addChild parent).state := grown_step hstep
  have hsame : (m.addChild parent).state.hierarchies = m.hierarchies := by
    simp only [Model.addChild, hc]
  refine s.of_sameStores (s.forest.addChild hc) g (sameStores_addChild hc) fun h hh => ?_
  rw [hsame] at hh
  exact s.hierarchies_later g h hh

/-- An attribute that may be bound leaves the model sound. -/
theorem enrols (s : Sound m) (he : m.entity? x = some e) (hs : e.Opens scope)
    {o : Outcome EntityMapping AttributeId} (h : e.Enrols (m.Admits x scope) scope o) :
    Sound (m.putEntity x o.state) := by
  cases h with
  | refused fault => exact s.putEntity he (.refl e) (.refl e)
  | @enrolled a replaced hid ha htaken =>
    have hx : e.id = x := s.forest.entity_id he
    have g : Grown m (m.putEntity x (e.withAttribute scope a)) :=
      grown_putEntity he (e.grown_withAttribute scope a)
    constructor
    case forest =>
      exact s.forest.alike (alike_putEntity he (EntityMapping.samePlace_withAttribute e scope a))
    case declared =>
      intro f hf
      rcases List.mem_or_eq_of_mem_set hf with hf | rfl
      · exact s.declared f hf
      · exact EntityMapping.declared_lt_withAttribute hid (s.declared e (List.mem_of_getElem? he))
    case attributes =>
      exact fun _ _ hb => holds_withAttribute he hx hid s.attributes ha.holds hb
    case parts =>
      exact acyclic_withAttribute he hx hid s.parts
        (fun u v ⟨b, hb, hv⟩ => (s.attributes u b hb).parts v hv) ha.holds.parts hs ha.free
    case hierarchies => exact s.hierarchies_later g

theorem onEntity {α : Type} (s : Sound m) {f : EntityMapping → Outcome EntityMapping α}
    (hf : ∀ e, m.entity? x = some e → Sound (m.putEntity x (f e).state)) :
    Sound (m.onEntity x f).state := by
  unfold Model.onEntity
  cases he : m.entity? x with
  | none => exact s
  | some e => exact hf e he

theorem onPlace (s : Sound m) {p : Place}
    {f : EntityMapping → Scope → Outcome EntityMapping AttributeId}
    (hf : ∀ (e : EntityMapping) scope, e.id = p.entity → e.openScope p.composite = .ok scope →
      e.Enrols (m.Admits p.entity scope) scope (f e scope)) : Sound (m.onPlace p f).state := by
  refine s.onEntity fun e he => ?_
  cases hs : e.openScope p.composite with
  | error fault => exact s.putEntity he (.refl e) (.refl e)
  | ok scope =>
    exact s.enrols he (EntityMapping.opens_of_openScope hs)
      (hf e scope (s.forest.entity_id he) hs)

theorem changeEntity (s : Sound m) (f : EntityMapping → EntityMapping)
    (hplace : ∀ e : EntityMapping, e.SamePlace (f e))
    (hstore : ∀ e : EntityMapping, e.SameStore (f e)) : Sound (m.changeEntity x f).state :=
  s.onEntity fun e he => s.putEntity he (hplace e) (hstore e)

end Sound

/-! ## Commands that refer to what is there -/

/-- What the command refers to is there, and is what it may refer to. A hierarchy may keep the
identifier and the version that it has. An attribute that is handed in ready made must be one that
the scope admits, too. -/
def Resolves (m : Model) : Command → Prop
  | .bindReference _ _ _ target targetAttribute _ =>
      ∃ e, m.entity? target = some e ∧ (m.attribute? targetAttribute).isSome ∧
        m.Visible e targetAttribute.entity
  | .bindCollection _ _ _ referenced _ _ => (m.attribute? referenced).isSome
  | .bindInverse _ _ collection =>
      ∃ c, m.attribute? collection = some c ∧ c.isCollection = true
  | .configureHierarchy k change =>
      ∀ h, m.hierarchy? k = some h →
        (∀ id, (change h.settings).identifier = some id →
          h.settings.identifier = some id ∨ (m.attribute? id).isSome) ∧
        ∀ id, (change h.settings).version = some id →
          h.settings.version = some id ∨ ∃ a, m.attribute? id = some a ∧ a.basic?.isSome
  | .register place a =>
      m.Holds a ∧ ∀ c, place.composite = some c → ∀ part ∈ a.partIds,
        ¬ Relation.ReflTransGen m.PartLink part c
  | _ => True

/-- Each command refers to what is there when its turn comes. -/
def ResolvesAll (m : Model) : List Command → Prop
  | [] => True
  | c :: rest => m.Resolves c ∧ (m.apply c).state.ResolvesAll rest

/-- The parts of a virtual composite were looked up when it was bound. -/
theorem admits_grouping (he : m.entity? x = some e) (hx : e.id = x) {composite : String}
    {parts : List AttributeId} {named : List (String × AttributeId)} {remarks : Option Remarks}
    (hn : e.namedParts composite parts = .ok named)
    (hbody : a.body = .composite (EntityMapping.virtualBody named remarks)) :
    m.Admits x .entity a := by
  have hbuilt : e.Builds .entity a := .grouping hn hbody
  refine ⟨?_, fun i hi => by cases hi⟩
  refine (holds_composite_iff (AttributeMapping.composite?_eq_some_iff.mpr hbody)).mpr ?_
  exact isSome_of_fits he hx hbuilt.fits

/-- No command that refers to what is there makes a model unsound. -/
theorem Sound.apply (s : Sound m) {c : Command} (h : m.Resolves c) :
    Sound (m.apply c).state := by
  cases c with
  | addRoot inheritance mode => exact s.addRoot inheritance mode
  | addChild parent =>
    cases hp : m.checkParent parent with
    | ok k => exact s.addChild hp
    | error fault =>
      have hr : (m.addChild parent).state = m := by simp [Model.addChild, hp]
      exact hr.symm ▸ s
  | setType id type =>
    exact s.changeEntity _ (fun _ => ⟨rfl, rfl, rfl, rfl⟩) fun _ => ⟨rfl, rfl, rfl, rfl⟩
  | setPrimaryTable id table =>
    exact s.changeEntity _ (fun _ => ⟨rfl, rfl, rfl, rfl⟩) fun _ => ⟨rfl, rfl, rfl, rfl⟩
  | setPrimaryTableName id name =>
    exact s.changeEntity _ (fun _ => ⟨rfl, rfl, rfl, rfl⟩) fun _ => ⟨rfl, rfl, rfl, rfl⟩
  | addSecondaryTable id table =>
    refine s.onEntity (f := fun e => e.addSecondaryTable table) fun e he => ?_
    exact s.putEntity he ⟨rfl, rfl, rfl, rfl⟩ ⟨rfl, rfl, rfl, rfl⟩
  | addFilter id filter =>
    exact s.changeEntity _ (fun _ => ⟨rfl, rfl, rfl, rfl⟩) fun _ => ⟨rfl, rfl, rfl, rfl⟩
  | addSynchronizedTables id names =>
    exact s.changeEntity _ (fun _ => ⟨rfl, rfl, rfl, rfl⟩) fun _ => ⟨rfl, rfl, rfl, rfl⟩
  | configureEntity id change =>
    exact s.changeEntity _ (fun _ => ⟨rfl, rfl, rfl, rfl⟩) fun _ => ⟨rfl, rfl, rfl, rfl⟩
  | configureHierarchy k change =>
    simp only [Model.apply, changeHierarchy, Outcome.state_map]
    cases hk : m.hierarchy? k with
    | none => exact s
    | some g =>
      have hg : g ∈ m.hierarchies := List.mem_of_getElem? hk
      obtain ⟨hidentifier, hversion⟩ := h g hk
      obtain ⟨hkept, hkeptVersion⟩ := s.hierarchies g hg
      refine s.putHierarchy hk rfl rfl (fun id hid => ?_) fun id hid => ?_
      · exact (hidentifier id hid).elim (hkept id) fun hsome => hsome
      · exact (hversion id hid).elim (hkeptVersion id) fun hbasic => hbasic
  | bindBasic place attr values options generation =>
    exact s.onPlace fun e scope _ _ => EntityMapping.enrols_register (.of_noParts trivial rfl)
  | bindComponent place attr parentReference options =>
    exact s.onPlace fun e scope _ _ => EntityMapping.enrols_register
      (.of_noParts (fun _ hid => absurd hid List.not_mem_nil) rfl)
  | bindReference place attr options target targetAttribute values =>
    exact s.onPlace fun e scope _ _ => EntityMapping.enrols_register (.of_noParts h rfl)
  | bindCollection place attr element referenced options shape =>
    exact s.onPlace fun e scope _ _ => EntityMapping.enrols_bindCollection (.of_noParts h rfl)
  | bindVirtual id attr parts remarks =>
    refine s.onEntity fun e he => s.enrols he (show e.Opens .entity from trivial) ?_
    exact EntityMapping.enrols_bindVirtual fun named hn =>
      admits_grouping he (s.forest.entity_id he) hn rfl
  | bindInverse id attr collection =>
    refine s.onEntity fun e he => s.enrols he (show e.Opens .entity from trivial) ?_
    exact EntityMapping.enrols_bindInverse (.of_noParts h rfl)
  | register place a =>
    obtain ⟨hholds, hfree⟩ := h
    refine s.onPlace fun e scope hid hs => EntityMapping.enrols_register ⟨hholds, ?_⟩
    rintro i rfl part hpart
    exact hfree ⟨place.entity, i⟩ (hid ▸ EntityMapping.composite_of_openScope hs) part hpart

theorem Sound.after (s : Sound m) {commands : List Command} (h : m.ResolvesAll commands) :
    Sound (m.after commands) := by
  induction commands generalizing m with
  | nil => exact s
  | cons c rest ih => exact ih (s.apply h.1) h.2

/-- If every command of a run refers to what is there when its turn comes, then verification
accepts what the run leaves, whatever was added or replaced after a reference was given. -/
theorem verify_after_resolving (collisions : NameCollision) (verifying : Bool)
    (commands : List Command) (h : (fresh collisions verifying).ResolvesAll commands) :
    ((fresh collisions verifying).after commands).verify = .ok () :=
  ((Sound.fresh collisions verifying).after h).verify

/-- Two levels of composites, a reference inside them to what its target inherits, the two sides of
a collection, and a virtual composite. Then the name of what they refer to is taken over, and one
more entity is added. -/
def resolvingRun : List Command :=
  [.addRoot .joined .object,
    .addChild ⟨0⟩,
    .bindBasic { entity := ⟨0⟩ } ⟨"key", false⟩ [] {} .never,
    .bindComponent { entity := ⟨0⟩ } ⟨"name", false⟩ none {},
    .bindComponent { entity := ⟨0⟩, composite := some ⟨⟨0⟩, 1⟩ } ⟨"legal", false⟩ none {},
    .configureHierarchy ⟨0⟩ fun s =>
      { s with identifier := some ⟨⟨0⟩, 0⟩, version := some ⟨⟨0⟩, 0⟩ },
    .bindReference { entity := ⟨0⟩, composite := some ⟨⟨0⟩, 2⟩ } ⟨"guardian", false⟩ {} ⟨1⟩
      ⟨⟨0⟩, 0⟩ [],
    .bindCollection { entity := ⟨0⟩ } ⟨"friends", .bag⟩ .oneToMany ⟨⟨0⟩, 0⟩ {} .bag,
    .bindInverse ⟨1⟩ ⟨"friendOf", true⟩ ⟨⟨0⟩, 4⟩,
    .bindVirtual ⟨0⟩ ⟨"pair", true⟩ [⟨⟨0⟩, 1⟩, ⟨⟨0⟩, 0⟩] none,
    .bindBasic { entity := ⟨0⟩ } ⟨"key", false⟩ [] {} .never,
    .addChild ⟨1⟩]

theorem verify_resolvingRun :
    (fresh .replace true).ResolvesAll resolvingRun ∧
      ((fresh .replace true).after resolvingRun).verify = .ok () := by
  have hresolves : (fresh .replace true).ResolvesAll resolvingRun := by
    refine ⟨trivial, trivial, trivial, trivial, trivial, ?_, ?_, rfl, ⟨_, rfl, rfl⟩, trivial,
      trivial, trivial, trivial⟩
    · rintro h hh
      cases hh
      refine ⟨fun id hid => ?_, fun id hid => ?_⟩
      · cases hid
        exact .inr rfl
      · cases hid
        exact .inr ⟨_, rfl, rfl⟩
    · -- the target is the child, and its parent has the key
      exact ⟨_, rfl, rfl, .inr ⟨_, _, rfl, .here rfl, rfl⟩⟩
  exact ⟨hresolves, verify_after_resolving .replace true resolvingRun hresolves⟩

end RelationalMapping.Model
