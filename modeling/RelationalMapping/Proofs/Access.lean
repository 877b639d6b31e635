import RelationalMapping.Proofs.Store

/-!
What may be asked of an entity whose store is in order. Every scope that opens answers all
questions, binding operations at most report an inconsistency, and an id that was given out finds
its attribute from then on: `store_in_order`.
-/

namespace RelationalMapping

namespace Answer

variable {α β : Type}

theorem map_eq_ok {x : Answer α} (h : ∃ a, x = .ok a) (f : α → β) : ∃ b, x.map f = .ok b := by
  obtain ⟨a, rfl⟩ := h
  exact ⟨f a, rfl⟩

theorem bind_eq_ok {x : Answer α} {f : α → Answer β} (hx : ∃ a, x = .ok a)
    (hf : ∀ a, x = .ok a → ∃ b, f a = .ok b) : ∃ b, x >>= f = .ok b := by
  obtain ⟨a, ha⟩ := hx
  obtain ⟨b, hb⟩ := hf a ha
  exact ⟨b, bind_eq_ok_iff.mpr ⟨a, ha, hb⟩⟩

theorem mapM_eq_ok {as : List α} {f : α → Answer β} (h : ∀ a ∈ as, ∃ b, f a = .ok b) :
    ∃ bs, as.mapM f = .ok bs := by
  induction as with
  | nil => exact ⟨[], rfl⟩
  | cons a rest ih =>
    rw [List.mapM_cons]
    refine bind_eq_ok (h a (List.mem_cons_self ..)) fun b _ => ?_
    exact bind_eq_ok (ih fun c hc => h c (List.mem_cons_of_mem _ hc)) fun bs _ => ⟨b :: bs, rfl⟩

/-- Looking for the first result that qualifies is looking through all results. -/
theorem findSomeM?_of_mapM_eq_ok {f : α → Answer β} {qualifies : β → Bool} {as : List α}
    {bs : List β} (h : as.mapM f = .ok bs) :
    (as.findSomeM? fun a => do
      let b ← f a
      return if qualifies b then some b else none) = .ok (bs.find? qualifies) := by
  induction as generalizing bs with
  | nil =>
    cases h
    rfl
  | cons a rest ih =>
    rw [List.mapM_cons] at h
    obtain ⟨b, hb, hrest⟩ := bind_eq_ok_iff.mp h
    obtain ⟨more, hmore, hcons⟩ := bind_eq_ok_iff.mp hrest
    cases hcons
    rw [List.findSomeM?, List.find?_cons, hb]
    cases hq : qualifies b with
    | true => simp [bind, Except.bind, pure, Except.pure, hq]
    | false =>
      have hlater := ih hmore
      simp only [bind, Except.bind, pure, Except.pure, hq] at hlater ⊢
      exact hlater

end Answer

/-- A composite whose names lead to its parts finds one under each of the names, and no other. -/
theorem CompositeBody.Placed.part?_eq_ok {c : CompositeBody} (h : c.Placed) (name : String) :
    ∃ part, c.part? name = .ok part ∧ part.isSome = c.positions.contains name := by
  unfold CompositeBody.part? Roster.contains
  cases hp : c.positions.find? name with
  | none => exact ⟨none, rfl, rfl⟩
  | some i =>
    have hi : i < c.partIds.length := h name i hp
    have hat : Answer.atIndex c.partIds i = .ok c.partIds[i] :=
      Answer.atIndex_eq_ok_iff.mpr (List.getElem?_eq_getElem hi)
    exact ⟨some c.partIds[i], by simp only [hat, Except.map], rfl⟩

theorem CompositeBody.Fits.part?_eq_ok {c : CompositeBody} {owner : EntityId} {size : Nat}
    (f : c.Fits owner size) (name : String) : ∃ p, c.part? name = .ok p := by
  obtain ⟨part, hpart, _⟩ := f.placed.part?_eq_ok name
  exact ⟨part, hpart⟩

theorem CompositeBody.mem_partIds_of_part? {c : CompositeBody} {name : String} {id : AttributeId}
    (h : c.part? name = .ok (some id)) : id ∈ c.partIds := by
  unfold part? at h
  split at h
  · cases h
  · rename_i i _
    cases hat : Answer.atIndex c.partIds i with
    | error fault =>
      rw [hat] at h
      cases h
    | ok found =>
      rw [hat] at h
      cases h
      exact List.mem_of_getElem? (Answer.atIndex_eq_ok_iff.mp hat)

namespace EntityMapping

variable {e : EntityMapping} {scope : Scope}

/-- The scope is the entity itself or a composite in its store. -/
def Opens (e : EntityMapping) : Scope → Prop
  | .entity => True
  | .composite i => ∃ a c, e.store[i]? = some a ∧ a.composite? = some c

/-- A composite opens where the entity stores it, and nothing else does. -/
theorem openComposite_eq_ok_iff {id : AttributeId} :
    e.openComposite id = .ok scope ↔
      ∃ a c, e.stored? id = some a ∧ a.composite? = some c ∧ .composite id.index = scope := by
  simp [openComposite, Option.bind_eq_some_iff]

theorem noBreach_openScope (e : EntityMapping) (composite : Option AttributeId) :
    (e.openScope composite).NoBreach := by
  cases composite with
  | none => exact .of_ok ⟨.entity, rfl⟩
  | some id => exact Answer.noBreach_require _ _

theorem opens_of_openScope {composite : Option AttributeId}
    (h : e.openScope composite = .ok scope) : e.Opens scope := by
  cases composite with
  | none =>
    cases h
    trivial
  | some id =>
    obtain ⟨a, c, ha, hc, rfl⟩ := openComposite_eq_ok_iff.mp h
    exact ⟨a, c, (stored?_eq_some_iff.mp ha).2, hc⟩

/-- What is stored next is not a scope before. -/
theorem Opens.ne_next (h : e.Opens scope) : scope ≠ .composite e.store.length := by
  rintro rfl
  obtain ⟨a, _, ha, _⟩ := h
  rw [List.getElem?_length] at ha
  cases ha

/-- Names are looked up in a scope only where it opens. -/
theorem opens_of_takenOver {name : String} {replaced : Option String}
    (h : e.takenOver scope name = .ok replaced) : e.Opens scope := by
  cases scope with
  | entity => trivial
  | composite i =>
    obtain ⟨taken, hlists, _⟩ := Answer.bind_eq_ok_iff.mp h
    obtain ⟨a, ha, hbody⟩ := Answer.bind_eq_ok_iff.mp hlists
    obtain ⟨c, hc, _⟩ := Answer.bind_eq_ok_iff.mp hbody
    exact ⟨a, c, Answer.atIndex_eq_ok_iff.mp ha, Answer.ofOption_eq_ok_iff.mp hc⟩

/-- Something is taken over where the name is taken and the policy is to replace, and only there. -/
theorem lists_of_takenOver {name : String} {replaced : Option String}
    (h : e.takenOver scope name = .ok replaced) :
    e.lists scope name = .ok replaced.isSome ∧
      (replaced.isSome = true → e.collisions = .replace) := by
  obtain ⟨taken, hlists, hrest⟩ := Answer.bind_eq_ok_iff.mp h
  cases taken with
  | false =>
    cases hrest
    exact ⟨hlists, fun hsome => by cases hsome⟩
  | true =>
    obtain ⟨path, _, hpolicy⟩ := Answer.bind_eq_ok_iff.mp hrest
    cases hc : e.collisions with
    | replace =>
      rw [hc] at hpolicy
      cases hpolicy
      exact ⟨hlists, fun _ => rfl⟩
    | reject =>
      rw [hc] at hpolicy
      cases hpolicy

/-- A scope that has opened opens again later on, as the same one. -/
theorem Grown.openScope {e' : EntityMapping} (g : e.Grown e') {composite : Option AttributeId}
    (h : e.openScope composite = .ok scope) : e'.openScope composite = .ok scope := by
  cases composite with
  | none => exact h
  | some id =>
    obtain ⟨a, c, ha, hc, rfl⟩ := openComposite_eq_ok_iff.mp h
    obtain ⟨hent, hstored⟩ := stored?_eq_some_iff.mp ha
    obtain ⟨b, hb, hk⟩ := g.stored hstored
    obtain ⟨d, hd⟩ := hk.exists_composite hc
    have hb' : e'.stored? id = some b := stored?_eq_some_iff.mpr ⟨by rw [hent, g.id], hb⟩
    exact openComposite_eq_ok_iff.mpr ⟨b, d, hb', hd, rfl⟩

theorem getAttribute_eq_ok_iff {id : AttributeId} {a : AttributeMapping} :
    e.getAttribute id = .ok a ↔ id.entity = e.id ∧ e.store[id.index]? = some a := by
  unfold getAttribute
  split <;> simp [*, Answer.breach]

theorem compositeAt_eq_ok_iff {i : Nat} {p : String × CompositeBody} :
    e.compositeAt i = .ok p ↔
      ∃ a c, e.store[i]? = some a ∧ a.composite? = some c ∧ (a.name, c) = p := by
  simp [compositeAt, Answer.bind_eq_ok_iff, getAttribute_eq_ok_iff,
    AttributeMapping.expectComposite, AttributeMapping.expect, pure, Except.pure]

theorem compositeAt_eq_ok {i : Nat} (hs : e.Opens (.composite i)) :
    ∃ p, e.compositeAt i = .ok p := by
  obtain ⟨a, c, ha, hc⟩ := hs
  exact ⟨_, compositeAt_eq_ok_iff.mpr ⟨a, c, ha, hc, rfl⟩⟩

section

variable {i : Nat} {a : AttributeMapping} {c : CompositeBody} (ha : e.store[i]? = some a)
  (hc : a.composite? = some c)
include ha hc

theorem compositeAt_stored : e.compositeAt i = .ok (a.name, c) :=
  compositeAt_eq_ok_iff.mpr ⟨a, c, ha, hc, rfl⟩

/-- A composite lists what its entity stores at the positions of the parts. -/
theorem listing_composite :
    e.listing (.composite i) = .ok (c.partIds.filterMap fun id => e.store[id.index]?) := by
  rw [listing, compositeAt_stored ha hc]
  rfl

/-- A name is taken in a composite where it leads to a part. -/
theorem lists_composite (name : String) :
    e.lists (.composite i) name = (c.part? name).map Option.isSome := by
  have hat : e.storedAt i = .ok a := Answer.atIndex_eq_ok_iff.mpr ha
  have hbody : a.expectComposite = .ok c := Answer.ofOption_eq_ok_iff.mpr hc
  simp only [lists, hat, hbody, bind, Except.bind]
  cases c.part? name <;> rfl

theorem locate_composite (name : String) :
    e.locate (.composite i) name =
      (c.part? name).map fun part => part.bind fun id => e.store[id.index]? := by
  rw [locate, compositeAt_stored ha hc]
  cases hpart : c.part? name <;> simp only [bind, Except.bind, hpart] <;> rfl

end

/-- A scope that lists its attributes searches this list. -/
theorem locateByValues_eq {as : List AttributeMapping} (h : e.listing scope = .ok as)
    (values : List RelationalValue) :
    e.locateByValues scope values =
      .ok (as.find? fun a => a.basic?.any fun b => b.holds values) := by
  cases scope with
  | entity => exact Answer.findSomeM?_of_mapM_eq_ok h
  | composite i =>
    simp only [locateByValues, h]
    rfl

namespace Indexed

variable (w : Indexed e)
include w

theorem storedAt_declared {i : Nat} (hi : i ∈ e.declared.values) :
    ∃ a, e.storedAt i = .ok a := by
  obtain ⟨name, hname⟩ := (e.declared.mem_values_iff i).mp hi
  obtain ⟨a, ha, _⟩ := w.declared_name hname
  exact ⟨a, Answer.atIndex_eq_ok_iff.mpr ha⟩

theorem attributes_eq_ok : ∃ as, e.attributes = .ok as :=
  Answer.mapM_eq_ok fun _ hi => w.storedAt_declared hi

/-- A scope lists its attributes, whatever composites were handed in. -/
theorem listing_eq_ok (hs : e.Opens scope) : ∃ as, e.listing scope = .ok as := by
  cases scope with
  | entity => exact w.attributes_eq_ok
  | composite i =>
    obtain ⟨a, c, ha, hc⟩ := hs
    exact ⟨_, listing_composite ha hc⟩

theorem locateByValues_eq_ok (hs : e.Opens scope) (values : List RelationalValue) :
    ∃ a, e.locateByValues scope values = .ok a := by
  obtain ⟨as, has⟩ := w.listing_eq_ok hs
  exact ⟨_, locateByValues_eq has values⟩

end Indexed

namespace WellStored

variable (w : WellStored e) (hs : e.Opens scope)
include w

theorem fits_compositeAt {i : Nat} {p : String × CompositeBody} (h : e.compositeAt i = .ok p) :
    p.2.Fits e.id e.store.length := by
  obtain ⟨a, c, ha, hc, rfl⟩ := compositeAt_eq_ok_iff.mp h
  exact w.fits ha c hc

include hs

omit w in
theorem scopePath_eq_ok : ∃ p, e.scopePath scope = .ok p := by
  cases scope with
  | entity => exact ⟨e.path, rfl⟩
  | composite i => exact Answer.bind_eq_ok (compositeAt_eq_ok hs) fun p _ => ⟨_, rfl⟩

theorem locate_eq_ok (name : String) : ∃ a, e.locate scope name = .ok a := by
  cases scope with
  | entity =>
    unfold locate
    cases hi : e.declared.find? name with
    | none => exact ⟨none, rfl⟩
    | some i =>
      obtain ⟨a, ha, _⟩ := w.declared_name hi
      exact Answer.map_eq_ok ⟨a, Answer.atIndex_eq_ok_iff.mpr ha⟩ some
  | composite i =>
    refine Answer.bind_eq_ok (compositeAt_eq_ok hs) fun p hp => ?_
    exact Answer.bind_eq_ok ((w.fits_compositeAt hp).part?_eq_ok name) fun _ _ => ⟨_, rfl⟩

theorem lists_eq_ok (name : String) : ∃ b, e.lists scope name = .ok b := by
  cases scope with
  | entity => exact ⟨_, rfl⟩
  | composite i =>
    obtain ⟨a, c, ha, hc⟩ := hs
    obtain ⟨p, hp⟩ := (w.fits ha c hc).part?_eq_ok name
    exact ⟨p.isSome, by rw [lists_composite ha hc, hp, Except.map]⟩

omit w in
theorem attributePath_eq_ok (name : String) : ∃ p, e.attributePath scope name = .ok p := by
  cases scope with
  | entity => exact ⟨_, rfl⟩
  | composite i =>
    obtain ⟨a, _, ha, _⟩ := hs
    exact Answer.bind_eq_ok ⟨a, Answer.atIndex_eq_ok_iff.mpr ha⟩ fun _ _ => ⟨_, rfl⟩

/-- A taken name is refused at most by the entity's policy. -/
theorem noBreach_takenOver (name : String) : (e.takenOver scope name).NoBreach := by
  obtain ⟨taken, ht⟩ := w.lists_eq_ok hs name
  obtain ⟨path, hp⟩ := attributePath_eq_ok hs name
  unfold takenOver
  rw [ht]
  cases taken with
  | false => exact .of_ok ⟨none, rfl⟩
  | true =>
    rw [hp]
    cases hc : e.collisions with
    | replace => exact .of_ok ⟨some path, rfl⟩
    | reject => exact Answer.noBreach_inconsistent (.nameTaken path)

theorem noBreach_register {a : AttributeMapping} (hid : a.id = e.nextId) :
    (e.register scope a).answer.NoBreach := by
  have hn : (e.takenOver scope a.name).NoBreach := w.noBreach_takenOver hs a.name
  unfold register
  rw [if_neg (not_not.mpr hid)]
  split
  · rename_i fault hf
    intro b hb
    cases hb
    exact hn b hf
  · exact .of_ok ⟨a.id, rfl⟩

theorem noBreach_bindCollection (attr : CollectionAttribute) (element : ElementNature)
    (referenced : AttributeId) (options : CollectionOptions) (shape : CollectionShape) :
    (e.bindCollection scope attr element referenced options shape).answer.NoBreach := by
  unfold bindCollection
  split
  · exact w.noBreach_register hs rfl
  · obtain ⟨path, hp⟩ := scopePath_eq_ok hs
    rw [hp]
    exact Answer.noBreach_inconsistent _

omit hs

theorem noBreach_bindVirtual (attr : SingleAttribute) (parts : List AttributeId)
    (remarks : Option Remarks) : (e.bindVirtual attr parts remarks).answer.NoBreach := by
  unfold bindVirtual
  split
  · split
    · exact Answer.noBreach_inconsistent _
    · exact w.noBreach_register (show e.Opens .entity from trivial) rfl
  · exact Answer.noBreach_inconsistent _

theorem noBreach_bindInverse (attr : SingleAttribute) (collection : AttributeId) :
    (e.bindInverse attr collection).answer.NoBreach := by
  unfold bindInverse
  split
  · exact w.noBreach_register (show e.Opens .entity from trivial) rfl
  · exact Answer.noBreach_inconsistent _

end WellStored

/-- Whatever is asked of the entity, of a scope that opens on it or of an id that it stores is
answered. -/
structure Answering (e : EntityMapping) : Prop where
  attributes : ∃ as, e.attributes = .ok as
  stored : ∀ {id : AttributeId}, id.entity = e.id → id.index < e.store.length →
    ∃ a, e.getAttribute id = .ok a
  part : ∀ {i : Nat} {a : AttributeMapping} {c : CompositeBody}, e.store[i]? = some a →
    a.composite? = some c → ∀ name, ∃ part, c.part? name = .ok part
  opening : ∀ id, (e.openComposite id).NoBreach
  scopePath : ∀ {composite : Option AttributeId} {scope : Scope},
    e.openScope composite = .ok scope → ∃ path, e.scopePath scope = .ok path
  listing : ∀ {composite : Option AttributeId} {scope : Scope},
    e.openScope composite = .ok scope → ∃ as, e.listing scope = .ok as
  locate : ∀ {composite : Option AttributeId} {scope : Scope},
    e.openScope composite = .ok scope → ∀ name, ∃ a, e.locate scope name = .ok a
  locateByValues : ∀ {composite : Option AttributeId} {scope : Scope},
    e.openScope composite = .ok scope → ∀ values, ∃ a, e.locateByValues scope values = .ok a

theorem WellStored.answering (w : WellStored e) : Answering e where
  attributes := w.indexed.attributes_eq_ok
  stored := fun hent hi => ⟨_, getAttribute_eq_ok_iff.mpr ⟨hent, List.getElem?_eq_getElem hi⟩⟩
  part := fun ha hc name => (w.fits ha _ hc).part?_eq_ok name
  opening := fun id => e.noBreach_openScope (some id)
  scopePath := fun h => WellStored.scopePath_eq_ok (opens_of_openScope h)
  listing := fun h => w.indexed.listing_eq_ok (opens_of_openScope h)
  locate := fun h => w.locate_eq_ok (opens_of_openScope h)
  locateByValues := fun h => w.indexed.locateByValues_eq_ok (opens_of_openScope h)

end EntityMapping

/-- The entity that the command binds an attribute on, unless the attribute is handed in. -/
def Command.bindsOn? : Command → Option EntityId
  | .bindBasic place .. | .bindComponent place .. | .bindReference place ..
  | .bindCollection place .. => some place.entity
  | .bindVirtual entity .. | .bindInverse entity .. => some entity
  | _ => none

namespace Model

variable {m : Model} {x : EntityId} {e : EntityMapping}

theorem noBreach_onEntity (he : m.entity? x = some e)
    {f : EntityMapping → Outcome EntityMapping AttributeId} (hf : (f e).answer.NoBreach) :
    ((m.onEntity x f).map Reply.mapped).answer.NoBreach := by
  unfold onEntity
  rw [he]
  exact hf.map _

theorem noBreach_onPlace {p : Place} (he : m.entity? p.entity = some e)
    {f : EntityMapping → Scope → Outcome EntityMapping AttributeId}
    (hf : ∀ scope, e.Opens scope → (f e scope).answer.NoBreach) :
    ((m.onPlace p f).map Reply.mapped).answer.NoBreach := by
  refine noBreach_onEntity he ?_
  cases hs : e.openScope p.composite with
  | error fault =>
    intro b hb
    cases hb
    exact e.noBreach_openScope p.composite b hs
  | ok scope => exact hf scope (EntityMapping.opens_of_openScope hs)

/-- No operation that binds on an existing entity breaks the terms. -/
theorem noBreach_binding (he : m.entity? x = some e) (w : e.WellStored) {c : Command}
    (hc : c.bindsOn? = some x) : (m.apply c).answer.NoBreach := by
  cases c with
  | bindBasic place attr values options generation =>
    cases hc
    exact noBreach_onPlace he fun scope hs => w.noBreach_register hs rfl
  | bindComponent place attr parentReference options =>
    cases hc
    exact noBreach_onPlace he fun scope hs => w.noBreach_register hs rfl
  | bindReference place attr options target targetAttribute values =>
    cases hc
    exact noBreach_onPlace he fun scope hs => w.noBreach_register hs rfl
  | bindCollection place attr element referenced options shape =>
    cases hc
    exact noBreach_onPlace he fun scope hs =>
      w.noBreach_bindCollection hs attr element referenced options shape
  | bindVirtual id attr parts remarks =>
    cases hc
    exact noBreach_onEntity he (w.noBreach_bindVirtual attr parts remarks)
  | bindInverse id attr collection =>
    cases hc
    exact noBreach_onEntity he (w.noBreach_bindInverse attr collection)
  | _ => cases hc

/-- The id that a command answers names an attribute of the model that the command leaves. -/
theorem stored_of_mapped {given : AttributeMapping → Prop} {o : Outcome Model Reply}
    (f : Forest m) (h : m.Step given o) {id : AttributeId} (ha : o.answer = .ok (.mapped id)) :
    ∃ e a, o.state.entity? id.entity = some e ∧ e.store[id.index]? = some a := by
  cases h with
  | refused fault => cases ha
  | root inheritance mode => cases ha
  | child parent k hparent =>
    simp only [addChild, hparent] at ha
    cases ha
  | settings events hentity hplace hstore hdeclared => cases ha
  | hierarchy hhierarchy change => cases ha
  | @binding x e o hentity hbound =>
    cases hbound with
    | refused fault => cases ha
    | @enrolled scope a replaced hid hmade htaken =>
      cases ha
      have hx : a.id.entity = x := by rw [hid, EntityMapping.nextId, f.entity_id hentity]
      have hi : a.id.index < (e.withAttribute scope a).store.length := by
        rw [hid, EntityMapping.length_store_withAttribute]
        exact Nat.lt_succ_self _
      refine ⟨e.withAttribute scope a, _, ?_, List.getElem?_eq_getElem hi⟩
      simp [EntityMapping.enrol, entity?_putEntity hentity, hx]

/-- After every run in which no composite is handed in ready made, the store of each entity is in
order. So the entity answers every question, what binds an attribute on it breaks no terms, and
every id that the run answered still finds the attribute of that id. -/
theorem store_in_order (collisions : NameCollision) (verifying : Bool) (commands : List Command)
    (hgiven : ∀ c ∈ commands, ∀ a, c.Gives a → a.composite? = none) :
    let m := (fresh collisions verifying).after commands
    (∀ x e, m.entity? x = some e →
      e.WellStored ∧ e.declared.values.Nodup ∧ e.Answering ∧
        ∀ c : Command, c.bindsOn? = some x → (m.apply c).answer.NoBreach) ∧
      ∀ o ∈ (fresh collisions verifying).outcomes commands, ∀ id, o.answer = .ok (.mapped id) →
        ∃ e a, m.entity? id.entity = some e ∧ e.getAttribute id = .ok a ∧ a.id = id := by
  intro m
  have w : m.WellStored := wellStored_after (wellStored_fresh collisions verifying) hgiven
  have f : Forest m := forest_after (forest_fresh collisions verifying) commands
  refine ⟨fun x e he => ?_, fun o ho id hid => ?_⟩
  · have we : e.WellStored := w x e he
    exact ⟨we, we.indexed.nodup_declared, we.answering, fun c hc => noBreach_binding he we hc⟩
  · obtain ⟨before, c, later, hrun, rfl⟩ := exists_of_mem_outcomes ho
    have hm : m = ((((fresh collisions verifying).after before).apply c).state).after later := by
      simp only [m, hrun, after_append, after_cons]
    have fb : Forest ((fresh collisions verifying).after before) :=
      forest_after (forest_fresh collisions verifying) before
    obtain ⟨e, a, he, ha⟩ := stored_of_mapped fb (step_apply _ c) hid
    obtain ⟨e', he', hg⟩ := grown_after _ later _ e he
    rw [← hm] at he'
    obtain ⟨b, hb, _⟩ := hg.stored ha
    have hent : id.entity = e'.id := (f.entity_id he').symm
    refine ⟨e', b, he', EntityMapping.getAttribute_eq_ok_iff.mpr ⟨hent, hb⟩, ?_⟩
    rw [(w _ e' he').id_eq hb, ← hent]

/-- A composite with one part, and a virtual composite that groups the two. -/
def groupingRun : List Command :=
  [.addRoot .none .object,
    .bindComponent { entity := ⟨0⟩ } ⟨"name", false⟩ none {},
    .bindBasic { entity := ⟨0⟩, composite := some ⟨⟨0⟩, 0⟩ } ⟨"first", false⟩ [] {} .never,
    .bindVirtual ⟨0⟩ ⟨"key", true⟩ [⟨⟨0⟩, 0⟩, ⟨⟨0⟩, 1⟩] none]

theorem store_in_order_groupingRun :
    (∀ c ∈ groupingRun, ∀ a, c.Gives a → a.composite? = none) ∧
      ∃ e a, ((fresh .reject true).after groupingRun).entity? ⟨0⟩ = some e ∧
        e.getAttribute ⟨⟨0⟩, 2⟩ = .ok a ∧ a.id = ⟨⟨0⟩, 2⟩ := by
  have hgiven : ∀ c ∈ groupingRun, ∀ a, c.Gives a → a.composite? = none := by
    rintro c hc a ⟨place, rfl⟩
    simp [groupingRun] at hc
  refine ⟨hgiven, ?_⟩
  exact (store_in_order .reject true groupingRun hgiven).2 _
    (List.mem_of_getElem? (i := 3) rfl) ⟨⟨0⟩, 2⟩ rfl

end Model

end RelationalMapping
