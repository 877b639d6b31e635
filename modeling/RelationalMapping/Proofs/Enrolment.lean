import RelationalMapping.Proofs.Access
import RelationalMapping.Proofs.Coherence
import RelationalMapping.Proofs.Cycles

/-!
One more attribute, and what the attributes of a model refer to. Nothing that is stored goes away or
becomes something of another kind (`Grown`), so what an attribute refers to is there for good
(`Grown.holds`). What a new attribute could still do is close a circle of composites, and for that
its parts would have to lead back to the scope that it is bound in (`acyclic_withAttribute`).
-/

namespace RelationalMapping

namespace AttributeMapping

variable {a b : AttributeMapping}

/-- The same attribute has the same body, but for the parts of a composite. -/
theorem Keeps.eq_or_composites (h : a.Keeps b) :
    b.body = a.body ∨ ∃ c d, a.body = .composite c ∧ b.body = .composite d := by
  refine h.body.imp_right fun ⟨ha, hb⟩ => ?_
  obtain ⟨c, hc⟩ := Option.isSome_iff_exists.mp ha
  obtain ⟨d, hd⟩ := Option.isSome_iff_exists.mp hb
  exact ⟨c, d, composite?_eq_some_iff.mp hc, composite?_eq_some_iff.mp hd⟩

theorem Keeps.basic?_eq (h : a.Keeps b) : b.basic? = a.basic? := by
  rcases h.eq_or_composites with hb | ⟨_, _, ha, hb⟩
  · simp only [basic?, hb]
  · simp only [basic?, ha, hb]

theorem Keeps.isCollection_eq (h : a.Keeps b) : b.isCollection = a.isCollection := by
  rcases h.eq_or_composites with hb | ⟨_, _, ha, hb⟩
  · simp only [isCollection, collection?, hb]
  · simp only [isCollection, collection?, ha, hb]

theorem partIds_eq_of_composite? {c : CompositeBody} (h : a.composite? = some c) :
    a.partIds = c.partIds := by
  simp only [partIds, composite?_eq_some_iff.mp h]

theorem mem_partIds_withPart {name : String} {part id : AttributeId}
    (h : id ∈ (a.withPart name part).partIds) : id ∈ a.partIds ∨ id = part := by
  cases hc : a.composite? with
  | none =>
    obtain ⟨d, hd⟩ := composite_of_mem_partIds h
    simp [composite?_withPart, hc] at hd
  | some c =>
    have hafter : (a.withPart name part).composite? = some (c.enterPart name part) := by
      simp [composite?_withPart, hc]
    rw [partIds_eq_of_composite? hafter, CompositeBody.enterPart] at h
    rw [partIds_eq_of_composite? hc]
    split at h
    · exact List.mem_or_eq_of_mem_set h
    · simpa using h

end AttributeMapping

namespace EntityMapping

variable {P : AttributeMapping → Prop} {e : EntityMapping} {scope : Scope} {a : AttributeMapping}

/-- A binding operation in that scope is refused, or it enrols an attribute that meets `P`, with
what the attribute takes over. -/
inductive Enrols (P : AttributeMapping → Prop) (e : EntityMapping) (scope : Scope) :
    Outcome EntityMapping AttributeId → Prop
  | refused (fault : Fault) : Enrols P e scope (.refuse e fault)
  | enrolled {a : AttributeMapping} (replaced : Option String) (hid : a.id = e.nextId) (ha : P a)
      (htaken : e.takenOver scope a.name = .ok replaced) :
      Enrols P e scope (e.enrol scope a replaced)

theorem enrols_register (ha : P a) : e.Enrols P scope (e.register scope a) := by
  unfold register
  split
  · exact .refused _
  · rename_i hid
    cases ht : e.takenOver scope a.name with
    | error fault => exact .refused fault
    | ok replaced => exact .enrolled replaced (Decidable.not_not.mp hid) ha ht

theorem enrols_bindCollection {attr : CollectionAttribute} {element : ElementNature}
    {referenced : AttributeId} {options : CollectionOptions} {shape : CollectionShape}
    (ha : P ⟨e.nextId, attr.name,
      .collection { nature := attr.nature, element, referenced, options, shape }⟩) :
    e.Enrols P scope (e.bindCollection scope attr element referenced options shape) := by
  unfold bindCollection
  split
  · exact enrols_register ha
  · cases e.scopePath scope <;> exact .refused _

theorem enrols_bindVirtual {attr : SingleAttribute} {parts : List AttributeId}
    {remarks : Option Remarks} (ha : ∀ named, e.namedParts attr.name parts = .ok named →
      P ⟨e.nextId, attr.name, .composite (virtualBody named remarks)⟩) :
    e.Enrols P .entity (e.bindVirtual attr parts remarks) := by
  unfold bindVirtual
  split
  · cases hn : e.namedParts attr.name parts with
    | error reason => exact .refused _
    | ok named => exact enrols_register (ha named hn)
  · exact .refused _

theorem enrols_bindInverse {attr : SingleAttribute} {collection : AttributeId}
    (ha : P ⟨e.nextId, attr.name, .inverse { synthetic := true, collection }⟩) :
    e.Enrols P .entity (e.bindInverse attr collection) := by
  unfold bindInverse
  split
  · exact enrols_register ha
  · exact .refused _

theorem composite_of_openScope {composite : Option AttributeId} {i : Nat}
    (h : e.openScope composite = .ok (.composite i)) : composite = some ⟨e.id, i⟩ := by
  cases composite with
  | none => cases h
  | some id =>
    obtain ⟨b, _, hb, _, hscope⟩ := openComposite_eq_ok_iff.mp h
    cases hscope
    rw [← (stored?_eq_some_iff.mp hb).1]

end EntityMapping

namespace Model

variable {m m' : Model} {x : EntityId} {e : EntityMapping} {scope : Scope} {a : AttributeMapping}

/-! ## Later on -/

theorem Grown.attribute? (g : Grown m m') {id : AttributeId} (h : m.attribute? id = some a) :
    ∃ b, m'.attribute? id = some b ∧ a.Keeps b := by
  obtain ⟨e, he, ha⟩ := attribute?_eq_some_iff.mp h
  obtain ⟨e', he', hg⟩ := g _ e he
  obtain ⟨b, hb, hk⟩ := hg.stored ha
  exact ⟨b, attribute?_eq_some_iff.mpr ⟨e', he', hb⟩, hk⟩

/-- Where the stores are the same, so are the links to parts. -/
theorem SameStores.partLink (h : SameStores m m') {u v : AttributeId} (hlink : m'.PartLink u v) :
    m.PartLink u v := by
  obtain ⟨c, hc, hv⟩ := hlink
  exact ⟨c, h.attribute?_eq u ▸ hc, hv⟩

theorem Grown.isSome_attribute? (g : Grown m m') {id : AttributeId}
    (h : (m.attribute? id).isSome) : (m'.attribute? id).isSome := by
  obtain ⟨a, ha⟩ := Option.isSome_iff_exists.mp h
  obtain ⟨b, hb, _⟩ := g.attribute? ha
  simp [hb]

theorem Grown.above (g : Grown m m') {o : Option EntityId} (h : Above m o e) :
    ∃ e', Above m' o e' ∧ e'.id = e.id := by
  induction h with
  | here he =>
    obtain ⟨e', he', hg⟩ := g _ _ he
    exact ⟨e', .here he', hg.id⟩
  | up he _ ih =>
    obtain ⟨f, hf, hid⟩ := ih
    obtain ⟨e', he', hg⟩ := g _ _ he
    exact ⟨f, .up he' (hg.parent ▸ hf), hid⟩

theorem Grown.visible (g : Grown m m') {target target' : EntityMapping}
    (hid : target'.id = target.id) {owner : EntityId} (h : m.Visible target owner) :
    m'.Visible target' owner := by
  rcases h with rfl | ⟨e, a, he, ha, rfl⟩
  · exact .inl hid.symm
  · obtain ⟨e', he', hg⟩ := g _ e he
    obtain ⟨a', ha', haid⟩ := g.above ha
    exact .inr ⟨e', a', by rw [hid, he'], hg.parent ▸ ha', haid⟩

/-- What an attribute refers to stays there. -/
theorem Grown.holds (g : Grown m m') (h : m.Holds a) : m'.Holds a := by
  obtain ⟨id, name, body⟩ := a
  cases body with
  | basic b => trivial
  | composite c => exact fun id hid => g.isSome_attribute? (h id hid)
  | reference r =>
    obtain ⟨target, htarget, hattribute, hvisible⟩ := h
    obtain ⟨target', htarget', hg⟩ := g _ target htarget
    exact ⟨target', htarget', g.isSome_attribute? hattribute, g.visible hg.id hvisible⟩
  | inverse i =>
    obtain ⟨c, hc, hcollection⟩ := h
    obtain ⟨d, hd, hk⟩ := g.attribute? hc
    exact ⟨d, hd, by rw [hk.isCollection_eq, hcollection]⟩
  | collection c => exact g.isSome_attribute? h

theorem Grown.identifierHolds (g : Grown m m') {h : Hierarchy} (hi : m.IdentifierHolds h) :
    m'.IdentifierHolds h :=
  fun id hid => g.isSome_attribute? (hi id hid)

theorem Grown.versionHolds (g : Grown m m') {h : Hierarchy} (hv : m.VersionHolds h) :
    m'.VersionHolds h := by
  intro id hid
  obtain ⟨a, ha, hbasic⟩ := hv id hid
  obtain ⟨b, hb, hk⟩ := g.attribute? ha
  exact ⟨b, hb, by rw [hk.basic?_eq, hbasic]⟩

/-- The parts of a composite that holds are there. -/
theorem Holds.parts (h : m.Holds a) : ∀ id ∈ a.partIds, (m.attribute? id).isSome := by
  intro id hid
  obtain ⟨c, hc⟩ := AttributeMapping.composite_of_mem_partIds hid
  exact (holds_composite_iff hc).mp h id hid

/-- The parts of a composite that fits the store of an entity are there. -/
theorem isSome_of_fits (he : m.entity? x = some e) (hx : e.id = x)
    (hf : a.Fits e.id e.store.length) : ∀ v ∈ a.partIds, (m.attribute? v).isSome := by
  intro v hv
  obtain ⟨c, hc⟩ := AttributeMapping.composite_of_mem_partIds hv
  rw [AttributeMapping.partIds_eq_of_composite? hc] at hv
  obtain ⟨hentity, hindex⟩ := (hf c hc).parts v hv
  rw [hx] at hentity
  simp [Model.attribute?, hentity, he, hindex]

/-! ## One more attribute -/

/-- The attribute may be bound in that scope of the entity at `x`: what it refers to is there, and
none of its parts leads to the composite that it becomes a part of itself. -/
structure Admits (m : Model) (x : EntityId) (scope : Scope) (a : AttributeMapping) : Prop where
  holds : m.Holds a
  free : ∀ i, scope = .composite i → ∀ part ∈ a.partIds,
    ¬ Relation.ReflTransGen m.PartLink part ⟨x, i⟩

theorem Admits.of_noParts (h : m.Holds a) (hp : a.partIds = []) : m.Admits x scope a :=
  ⟨h, fun _ _ part hpart => by rw [hp] at hpart; cases hpart⟩

section

variable (he : m.entity? x = some e) (hx : e.id = x) (hid : a.id = e.nextId)
include he

/-- What can be looked up afterwards could be before or is new, but for one more part. -/
theorem of_attribute?_withAttribute {id : AttributeId} {b : AttributeMapping}
    (h : (m.putEntity x (e.withAttribute scope a)).attribute? id = some b) :
    ∃ before, (m.attribute? id = some before ∨ id = ⟨x, e.store.length⟩ ∧ a = before) ∧
      (b = before ∨ (id.entity = x ∧ scope = .composite id.index) ∧
        b = before.withPart a.name a.id) := by
  obtain ⟨f, hf, hb⟩ := attribute?_eq_some_iff.mp h
  rw [entity?_putEntity he] at hf
  split at hf
  · rename_i hentity
    cases hf
    obtain ⟨before, hbefore, hpart⟩ := EntityMapping.stored_withAttribute hb
    refine ⟨before, ?_, hpart.imp_right fun h => ⟨⟨hentity, h.1⟩, h.2⟩⟩
    rcases hbefore with hbefore | ⟨hindex, hnew⟩
    · exact .inl (attribute?_eq_some_iff.mpr ⟨e, hentity ▸ he, hbefore⟩)
    · exact .inr ⟨by rw [← hentity, ← hindex], hnew⟩
  · exact ⟨b, .inl (attribute?_eq_some_iff.mpr ⟨f, hf, hb⟩), .inl rfl⟩

include hx hid

omit he in
theorem id_eq_of_nextId : a.id = ⟨x, e.store.length⟩ := by
  rw [hid, EntityMapping.nextId, hx]

theorem attribute?_nextId : m.attribute? a.id = none := by
  rw [id_eq_of_nextId hx hid]
  simp [Model.attribute?, he]

/-- A link to a part is an old one, one of the new attribute, or that of its scope to it. -/
theorem of_partLink_withAttribute {u v : AttributeId}
    (h : (m.putEntity x (e.withAttribute scope a)).PartLink u v) :
    m.PartLink u v ∨ (u = a.id ∧ v ∈ a.partIds) ∨
      (v = a.id ∧ u.entity = x ∧ scope = .composite u.index) := by
  obtain ⟨b, hb, hv⟩ := h
  obtain ⟨before, hbefore, hpart⟩ := of_attribute?_withAttribute he hb
  have hold : v ∈ before.partIds → m.PartLink u v ∨ (u = a.id ∧ v ∈ a.partIds) := by
    intro hv
    rcases hbefore with hbefore | ⟨hu, rfl⟩
    · exact .inl ⟨before, hbefore, hv⟩
    · exact .inr ⟨by rw [hu, id_eq_of_nextId hx hid], hv⟩
  rcases hpart with rfl | ⟨hscope, rfl⟩
  · exact (hold hv).imp_right .inl
  · rcases AttributeMapping.mem_partIds_withPart hv with hv | hv
    · exact (hold hv).imp_right .inl
    · exact .inr (.inr ⟨hv, hscope⟩)

/-- No composite comes to contain itself through one more attribute, if all parts are there and
those of the new attribute do not lead to the composite that it becomes a part of itself. -/
theorem acyclic_withAttribute (hparts : Acyclic m.PartLink)
    (hstored : ∀ u v, m.PartLink u v → (m.attribute? v).isSome)
    (hnew : ∀ v ∈ a.partIds, (m.attribute? v).isSome) (hs : e.Opens scope)
    (hfree : ∀ i, scope = .composite i → ∀ part ∈ a.partIds,
      ¬ Relation.ReflTransGen m.PartLink part ⟨x, i⟩) :
    Acyclic (m.putEntity x (e.withAttribute scope a)).PartLink := by
  have hnone : m.attribute? a.id = none := attribute?_nextId he hx hid
  -- no composite has a part that is not there yet
  have hunlinked : ∀ u, ¬ m.PartLink u a.id := by
    intro u hlink
    have hsome := hstored u a.id hlink
    rw [hnone] at hsome
    cases hsome
  have hself : a.id ∉ a.partIds := by
    intro hmem
    have hsome := hnew a.id hmem
    rw [hnone] at hsome
    cases hsome
  have hscope : scope ≠ .composite a.id.index := by
    rw [id_eq_of_nextId hx hid]
    exact hs.ne_next
  refine hparts.insert (fun u v h (hu : u ≠ a.id) hv => ?_) fun u v hto hfrom => ?_
  · rcases of_partLink_withAttribute he hx hid h with h | ⟨h, _⟩ | ⟨h, _⟩
    · exact h
    · exact absurd h hu
    · exact absurd h hv
  · obtain ⟨hux, hui⟩ : u.entity = x ∧ scope = .composite u.index := by
      rcases of_partLink_withAttribute he hx hid hto with h | ⟨_, h⟩ | ⟨_, h⟩
      · exact absurd h (hunlinked u)
      · exact absurd h hself
      · exact h
    have hpart : v ∈ a.partIds := by
      rcases of_partLink_withAttribute he hx hid hfrom with ⟨b, hb, _⟩ | ⟨_, h⟩ | ⟨_, _, h⟩
      · rw [hnone] at hb
        cases hb
      · exact h
      · exact absurd h hscope
    subst hux
    exact hfree u.index hui v hpart

theorem isSome_attribute?_withAttribute :
    ((m.putEntity x (e.withAttribute scope a)).attribute? a.id).isSome := by
  have hlt : e.store.length < (e.withAttribute scope a).store.length := by
    rw [EntityMapping.length_store_withAttribute]
    exact Nat.lt_succ_self _
  rw [id_eq_of_nextId hx hid]
  simp [Model.attribute?, entity?_putEntity he, hlt]

/-- What is stored still holds, and so does what is new. -/
theorem holds_withAttribute (hholds : ∀ id b, m.attribute? id = some b → m.Holds b)
    (ha : m.Holds a) {id : AttributeId} {b : AttributeMapping}
    (h : (m.putEntity x (e.withAttribute scope a)).attribute? id = some b) :
    (m.putEntity x (e.withAttribute scope a)).Holds b := by
  have hgrown : Grown m (m.putEntity x (e.withAttribute scope a)) :=
    grown_putEntity he (e.grown_withAttribute scope a)
  obtain ⟨before, hbefore, hpart⟩ := of_attribute?_withAttribute he h
  have hold : (m.putEntity x (e.withAttribute scope a)).Holds before := by
    rcases hbefore with hbefore | ⟨_, rfl⟩
    · exact hgrown.holds (hholds id before hbefore)
    · exact hgrown.holds ha
  rcases hpart with rfl | ⟨_, rfl⟩
  · exact hold
  rcases (before.keeps_withPart a.name a.id).eq_or_composites with hb | ⟨_, d, _, hb⟩
  · simpa only [Holds, hb] using hold
  · refine (holds_composite_iff (AttributeMapping.composite?_eq_some_iff.mpr hb)).mpr ?_
    intro part hin
    rcases AttributeMapping.mem_partIds_withPart hin with hin | rfl
    · exact hold.parts part hin
    · exact isSome_attribute?_withAttribute he hx hid

end

end Model

end RelationalMapping
