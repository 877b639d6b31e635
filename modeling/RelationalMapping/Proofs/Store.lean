import Mathlib.Data.List.Induction
import RelationalMapping.Proofs.Forest

/-!
The store of an entity. Attributes get into it through two kinds of index, the names declared on
the entity and the parts of each composite, and nothing ever leaves it.

* `Indexed`: an attribute has the id of its position, and a declared name leads to the attribute of
  that name.
* `WellStored`: besides, the parts of a composite are attributes of the same entity.
* `step_stores`: a command leaves all stores as they are, or it enrols one attribute.
* `Grown`: an id that names an attribute goes on naming it.
-/

namespace RelationalMapping

namespace CompositeBody

/-- The parts are among the first `size` attributes of `owner`, and each name leads to one. -/
structure Fits (c : CompositeBody) (owner : EntityId) (size : Nat) : Prop where
  parts : ∀ id ∈ c.partIds, id.entity = owner ∧ id.index < size
  positions : ∀ {name : String} {i : Nat}, c.positions.find? name = some i → i < c.partIds.length

/-- Each name leads to one of the parts, whatever they are. -/
def Placed (c : CompositeBody) : Prop :=
  ∀ name i, c.positions.find? name = some i → i < c.partIds.length

variable {c : CompositeBody} {owner : EntityId} {size : Nat}

theorem Placed.position_enter (h : c.Placed) {part : AttributeId} {name other : String}
    {i : Nat} (hi : (c.positions.enter name c.partIds.length).find? other = some i) :
    i < (c.partIds ++ [part]).length := by
  rw [List.length_append, List.length_singleton]
  by_cases ho : other = name
  · subst ho
    rw [Roster.find?_enter_self] at hi
    cases hi
    exact Nat.lt_succ_self _
  · rw [Roster.find?_enter_of_ne _ _ ho] at hi
    exact Nat.lt_succ_of_lt (h other i hi)

theorem Placed.appendPart (h : c.Placed) (name : String) (part : AttributeId) :
    (c.appendPart name part).Placed := by
  intro other i hi
  simp only [CompositeBody.appendPart] at hi ⊢
  split at hi
  · rw [List.length_append]
    exact Nat.lt_of_lt_of_le (h other i hi) (Nat.le_add_right _ _)
  · exact h.position_enter hi

theorem Placed.enterPart (h : c.Placed) (name : String) (part : AttributeId) :
    (c.enterPart name part).Placed := by
  intro other i hi
  unfold CompositeBody.enterPart at hi ⊢
  split at hi
  · rw [List.length_set]
    exact h other i hi
  · exact h.position_enter hi

theorem Fits.placed (f : c.Fits owner size) : c.Placed := fun _ _ h => f.positions h

theorem Fits.mono (f : c.Fits owner size) {larger : Nat} (h : size ≤ larger) :
    c.Fits owner larger where
  parts := fun id hid => ⟨(f.parts id hid).1, Nat.lt_of_lt_of_le (f.parts id hid).2 h⟩
  positions := f.positions

theorem Fits.parts_concat (f : c.Fits owner size) {part : AttributeId}
    (hp : part.entity = owner ∧ part.index < size) :
    ∀ id ∈ c.partIds ++ [part], id.entity = owner ∧ id.index < size := by
  intro id hid
  rcases List.mem_append.mp hid with hid | hid
  · exact f.parts id hid
  · rw [List.mem_singleton.mp hid]
    exact hp

theorem Fits.appendPart (f : c.Fits owner size) {part : AttributeId}
    (hp : part.entity = owner ∧ part.index < size) (name : String) :
    (c.appendPart name part).Fits owner size where
  parts := f.parts_concat hp
  positions := fun h => f.placed.appendPart name part _ _ h

theorem Fits.enterPart (f : c.Fits owner size) {part : AttributeId}
    (hp : part.entity = owner ∧ part.index < size) (name : String) :
    (c.enterPart name part).Fits owner size where
  parts := by
    intro id hid
    unfold CompositeBody.enterPart at hid
    split at hid
    · rcases List.mem_or_eq_of_mem_set hid with hid | rfl
      · exact f.parts id hid
      · exact hp
    · exact f.parts_concat hp id hid
  positions := fun h => f.placed.enterPart name part _ _ h

end CompositeBody

namespace AttributeMapping

/-- A composite has its parts among the first `size` attributes of `owner`. -/
def Fits (a : AttributeMapping) (owner : EntityId) (size : Nat) : Prop :=
  ∀ c, a.composite? = some c → c.Fits owner size

variable {a : AttributeMapping} {owner : EntityId} {size : Nat}

theorem Fits.mono (f : a.Fits owner size) {larger : Nat} (h : size ≤ larger) :
    a.Fits owner larger :=
  fun c hc => (f c hc).mono h

@[simp] theorem id_withPart (a : AttributeMapping) (name : String) (part : AttributeId) :
    (a.withPart name part).id = a.id := by
  unfold withPart
  split <;> rfl

@[simp] theorem name_withPart (a : AttributeMapping) (name : String) (part : AttributeId) :
    (a.withPart name part).name = a.name := by
  unfold withPart
  split <;> rfl

theorem composite?_withPart (a : AttributeMapping) (name : String) (part : AttributeId) :
    (a.withPart name part).composite? = a.composite?.map fun c => c.enterPart name part := by
  obtain ⟨id, own, body⟩ := a
  cases body <;> rfl

theorem Fits.withPart (f : a.Fits owner size) {part : AttributeId}
    (hp : part.entity = owner ∧ part.index < size) (name : String) :
    (a.withPart name part).Fits owner size := by
  intro d hd
  rw [composite?_withPart] at hd
  obtain ⟨c, hc, rfl⟩ := Option.map_eq_some_iff.mp hd
  exact (f c hc).enterPart hp name

/-- The same attribute later on: a composite may have other parts, and nothing else changes. -/
structure Keeps (a b : AttributeMapping) : Prop where
  id : b.id = a.id
  name : b.name = a.name
  body : b.body = a.body ∨ a.composite?.isSome ∧ b.composite?.isSome

theorem Keeps.refl (a : AttributeMapping) : a.Keeps a := ⟨rfl, rfl, .inl rfl⟩

/-- A composite stays one, and nothing else becomes one. -/
theorem Keeps.isSome_composite? {b : AttributeMapping} (h : a.Keeps b) :
    b.composite?.isSome = a.composite?.isSome := by
  rcases h.body with hb | ⟨ha, hb⟩
  · unfold composite?
    rw [hb]
  · rw [ha, hb]

theorem Keeps.exists_composite {b : AttributeMapping} (h : a.Keeps b) {c : CompositeBody}
    (hc : a.composite? = some c) : ∃ d, b.composite? = some d :=
  Option.isSome_iff_exists.mp (by rw [h.isSome_composite?, hc]; rfl)

theorem Keeps.trans {b c : AttributeMapping} (h : a.Keeps b) (h' : b.Keeps c) : a.Keeps c where
  id := h'.id.trans h.id
  name := h'.name.trans h.name
  body := by
    rcases h.body with hb | ⟨ha, _⟩
    · rcases h'.body with hc | ⟨hb', hc⟩
      · exact .inl (hc.trans hb)
      · exact .inr ⟨h.isSome_composite? ▸ hb', hc⟩
    · have hc : c.composite?.isSome := by rw [h'.isSome_composite?, h.isSome_composite?, ha]
      exact .inr ⟨ha, hc⟩

theorem keeps_withPart (a : AttributeMapping) (name : String) (part : AttributeId) :
    a.Keeps (a.withPart name part) where
  id := id_withPart a name part
  name := name_withPart a name part
  body := by
    cases hc : a.composite? with
    | none =>
      refine .inl ?_
      unfold withPart
      split
      · rename_i h
        rw [composite?_eq_some_iff.mpr h] at hc
        cases hc
      · rfl
    | some c => exact .inr ⟨rfl, by simp [composite?_withPart, hc]⟩

end AttributeMapping

namespace EntityMapping

variable {e : EntityMapping} {scope : Scope} {a : AttributeMapping}

/-- What the store of an entity and its declared names keep to, whatever attributes are handed
in. -/
structure Indexed (e : EntityMapping) : Prop where
  /-- An attribute has the id of its position. -/
  id_eq : ∀ {i : Nat} {a : AttributeMapping}, e.store[i]? = some a → a.id = ⟨e.id, i⟩
  /-- A declared name leads to an attribute of that name. -/
  declared_name : ∀ {name : String} {i : Nat}, e.declared.find? name = some i →
    ∃ a, e.store[i]? = some a ∧ a.name = name

/-- What the store of an entity and the indexes into it keep to. -/
structure WellStored (e : EntityMapping) : Prop where
  /-- An attribute has the id of its position. -/
  id_eq : ∀ {i : Nat} {a : AttributeMapping}, e.store[i]? = some a → a.id = ⟨e.id, i⟩
  /-- A declared name leads to an attribute of that name. -/
  declared_name : ∀ {name : String} {i : Nat}, e.declared.find? name = some i →
    ∃ a, e.store[i]? = some a ∧ a.name = name
  /-- The parts of a composite are stored by the same entity. -/
  fits : ∀ {i : Nat} {a : AttributeMapping}, e.store[i]? = some a → a.Fits e.id e.store.length

theorem WellStored.indexed (w : WellStored e) : Indexed e := ⟨w.id_eq, w.declared_name⟩

/-- No attribute is declared under two names: the names would both be its own. -/
theorem Indexed.nodup_declared (w : Indexed e) : e.declared.values.Nodup := by
  have hnames : (e.declared.entries.map Prod.fst).Nodup := e.declared.nodup
  refine List.Nodup.map_on (fun p hp q hq hpq => ?_) (List.Nodup.of_map _ hnames)
  obtain ⟨a, ha, hn⟩ := w.declared_name ((e.declared.find?_eq_some_iff p.1 p.2).mpr hp)
  obtain ⟨b, hb, hm⟩ := w.declared_name ((e.declared.find?_eq_some_iff q.1 q.2).mpr hq)
  rw [hpq, hb] at ha
  cases ha
  exact Prod.ext (hn.symm.trans hm) hpq

/-! ## One more attribute -/

theorem store_withAttribute (e : EntityMapping) (scope : Scope) (a : AttributeMapping) (i : Nat) :
    (e.withAttribute scope a).store[i]? = (e.store ++ [a])[i]?.map fun b =>
      if scope = .composite i then b.withPart a.name a.id else b := by
  cases scope with
  | entity => simp [withAttribute]
  | composite j =>
    simp only [withAttribute, List.getElem?_modify, Scope.composite.injEq]
    rfl

/-- What is stored stays where it is, and the composite that the new attribute is bound in has one
more part. -/
theorem store_withAttribute_of_stored {i : Nat} {b : AttributeMapping} (h : e.store[i]? = some b)
    (scope : Scope) (a : AttributeMapping) : (e.withAttribute scope a).store[i]? =
      some (if scope = .composite i then b.withPart a.name a.id else b) := by
  have hb : (e.store ++ [a])[i]? = some b := Model.getElem?_concat_eq_some_iff.mpr (.inl h)
  rw [store_withAttribute, hb, Option.map_some]

/-- The new attribute comes last. -/
theorem store_withAttribute_last (h : scope ≠ .composite e.store.length) :
    (e.withAttribute scope a).store[e.store.length]? = some a := by
  rw [store_withAttribute, List.getElem?_concat_length, Option.map_some, if_neg h]

/-- What is stored afterwards was there before or is new, but for one more part. -/
theorem stored_withAttribute {i : Nat} {b : AttributeMapping}
    (h : (e.withAttribute scope a).store[i]? = some b) :
    ∃ before, (e.store[i]? = some before ∨ i = e.store.length ∧ a = before) ∧
      (b = before ∨ scope = .composite i ∧ b = before.withPart a.name a.id) := by
  rw [store_withAttribute] at h
  obtain ⟨before, hb, rfl⟩ := Option.map_eq_some_iff.mp h
  refine ⟨before, Model.getElem?_concat_eq_some_iff.mp hb, ?_⟩
  split
  · rename_i hscope
    exact .inr ⟨hscope, rfl⟩
  · exact .inl rfl

theorem keeps_stored_withAttribute {i : Nat} {b : AttributeMapping} (h : e.store[i]? = some b)
    (scope : Scope) (a : AttributeMapping) :
    ∃ later, (e.withAttribute scope a).store[i]? = some later ∧ b.Keeps later := by
  refine ⟨_, store_withAttribute_of_stored h scope a, ?_⟩
  split
  · exact b.keeps_withPart a.name a.id
  · exact .refl b

theorem mem_declared_withAttribute (hid : a.id = e.nextId) {name : String} {i : Nat}
    (h : (e.withAttribute scope a).declared.find? name = some i) :
    e.declared.find? name = some i ∨ name = a.name ∧ i = e.store.length := by
  cases scope with
  | composite j => exact .inl h
  | entity =>
    simp only [withAttribute, hid] at h
    by_cases hn : name = a.name
    · subst hn
      rw [Roster.find?_enter_self] at h
      cases h
      exact .inr ⟨rfl, rfl⟩
    · rw [Roster.find?_enter_of_ne _ _ hn] at h
      exact .inl h

/-- With the new attribute in the store there is room for one more declaration. -/
theorem declared_lt_withAttribute (hid : a.id = e.nextId)
    (hd : ∀ i ∈ e.declared.values, i < e.store.length) :
    ∀ i ∈ (e.withAttribute scope a).declared.values,
      i < (e.withAttribute scope a).store.length := by
  intro i hi
  rw [length_store_withAttribute]
  obtain ⟨name, hname⟩ := (Roster.mem_values_iff _ i).mp hi
  rcases mem_declared_withAttribute hid hname with hold | ⟨_, rfl⟩
  · exact Nat.lt_succ_of_lt (hd i ((Roster.mem_values_iff _ i).mpr ⟨name, hold⟩))
  · exact Nat.lt_succ_self _

/-- An attribute with the next id may come in through any scope. -/
theorem Indexed.withAttribute (w : Indexed e) (hid : a.id = e.nextId) :
    Indexed (e.withAttribute scope a) where
  id_eq := by
    intro i b hb
    rw [id_withAttribute]
    obtain ⟨before, hbefore, hpart⟩ := stored_withAttribute hb
    have hsame : b.id = before.id := by
      rcases hpart with rfl | ⟨_, rfl⟩
      · rfl
      · exact before.id_withPart a.name a.id
    rw [hsame]
    rcases hbefore with hbefore | ⟨rfl, rfl⟩
    · exact w.id_eq hbefore
    · exact hid
  declared_name := by
    intro name i h
    rcases mem_declared_withAttribute hid h with h | ⟨rfl, rfl⟩
    · obtain ⟨b, hb, rfl⟩ := w.declared_name h
      obtain ⟨later, hl, hk⟩ := keeps_stored_withAttribute hb scope a
      exact ⟨later, hl, hk.name⟩
    · refine ⟨_, by rw [store_withAttribute, List.getElem?_concat_length]; rfl, ?_⟩
      split
      · exact a.name_withPart a.name a.id
      · rfl

/-- If it has parts, they are to be attributes of the entity. -/
theorem WellStored.withAttribute (w : WellStored e) (hid : a.id = e.nextId)
    (hf : a.Fits e.id e.store.length) : WellStored (e.withAttribute scope a) where
  id_eq := (w.indexed.withAttribute hid).id_eq
  declared_name := (w.indexed.withAttribute hid).declared_name
  fits := by
    intro i b hb
    rw [id_withAttribute, length_store_withAttribute]
    obtain ⟨before, hbefore, hpart⟩ := stored_withAttribute hb
    -- with the new attribute in the store there is room for one more part
    have hfb : before.Fits e.id (e.store.length + 1) := by
      rcases hbefore with hbefore | ⟨_, rfl⟩
      · exact (w.fits hbefore).mono (Nat.le_succ _)
      · exact hf.mono (Nat.le_succ _)
    rcases hpart with rfl | ⟨_, rfl⟩
    · exact hfb
    · exact hfb.withPart (by rw [hid]; exact ⟨rfl, Nat.lt_succ_self _⟩) a.name

/-! ## What the binding operations build -/

theorem stored?_eq_some_iff {id : AttributeId} :
    e.stored? id = some a ↔ id.entity = e.id ∧ e.store[id.index]? = some a := by
  unfold stored?
  split <;> simp [*]

/-- The name of a stored attribute. -/
def nameOf (e : EntityMapping) (id : AttributeId) : Option String :=
  (e.stored? id).map AttributeMapping.name

/-- The parts to group are taken in order, each with the name that it has. -/
theorem namedParts_eq_ok {composite : String} {parts : List AttributeId}
    {named : List (String × AttributeId)} (h : e.namedParts composite parts = .ok named) :
    named.map Prod.snd = parts ∧ ∀ p ∈ named, e.nameOf p.2 = some p.1 := by
  induction parts generalizing named with
  | nil =>
    cases h
    exact ⟨rfl, by simp⟩
  | cons id rest ih =>
    unfold namedParts at h
    split at h
    · cases h
    · rename_i part hpart
      cases hr : e.namedParts composite rest with
      | error reason =>
        rw [hr] at h
        cases h
      | ok more =>
        rw [hr] at h
        cases h
        obtain ⟨hids, hnames⟩ := ih hr
        refine ⟨by rw [List.map_cons, hids], ?_⟩
        rw [List.forall_mem_cons]
        exact ⟨by rw [nameOf, hpart]; rfl, hnames⟩

theorem stored_of_namedParts {composite : String} {parts : List AttributeId}
    {named : List (String × AttributeId)} (h : e.namedParts composite parts = .ok named) :
    ∀ p ∈ named, p.2.entity = e.id ∧ p.2.index < e.store.length := by
  intro p hp
  obtain ⟨part, hpart, _⟩ := Option.map_eq_some_iff.mp ((namedParts_eq_ok h).2 p hp)
  obtain ⟨hent, hstored⟩ := stored?_eq_some_iff.mp hpart
  exact ⟨hent, (List.getElem?_eq_some_iff.mp hstored).1⟩

theorem fits_virtualBody {owner : EntityId} {size : Nat} {named : List (String × AttributeId)}
    (h : ∀ p ∈ named, p.2.entity = owner ∧ p.2.index < size) (remarks : Option Remarks) :
    (virtualBody named remarks).Fits owner size := by
  unfold virtualBody
  induction named using List.reverseRecOn with
  | nil => exact ⟨by simp, by simp⟩
  | append_singleton rest p ih =>
    obtain ⟨hrest, hp⟩ := List.forall_mem_append.mp h
    rw [List.foldl_append]
    exact (ih hrest).appendPart (hp p (List.mem_singleton_self p)) p.1

theorem Builds.fits (h : e.Builds scope a) : a.Fits e.id e.store.length := by
  intro c hc
  cases h with
  | plain hbody =>
    rw [hbody] at hc
    cases hc
  | component hbody hparts hpositions =>
    rw [AttributeMapping.composite?_eq_some_iff, hbody] at hc
    cases hc
    exact ⟨by simp [hparts], by simp [hpositions]⟩
  | grouping hnamed hbody =>
    rw [AttributeMapping.composite?_eq_some_iff, hbody] at hc
    cases hc
    exact fits_virtualBody (stored_of_namedParts hnamed) _

/-- No binding operation disturbs the store, as long as callers hand in no composites. -/
theorem WellStored.enrolled (w : WellStored e) {given : AttributeMapping → Prop}
    (hg : ∀ a, given a → a.composite? = none) (hid : a.id = e.nextId)
    (hmade : e.Builds scope a ∨ given a) : WellStored (e.withAttribute scope a) := by
  refine w.withAttribute hid ?_
  rcases hmade with hmade | hgiven
  · exact hmade.fits
  · intro c hc
    rw [hg _ hgiven] at hc
    cases hc

end EntityMapping

namespace EntityMapping

variable {e : EntityMapping}

theorem Indexed.of_empty (hs : e.store = []) (hd : e.declared = .empty) : Indexed e where
  id_eq := by simp [hs]
  declared_name := by simp [hd]

theorem WellStored.of_empty (hs : e.store = []) (hd : e.declared = .empty) : WellStored e where
  id_eq := by simp [hs]
  declared_name := by simp [hd]
  fits := by simp [hs]

/-- The two store and declare the same under the same policy. -/
structure SameStore (e e' : EntityMapping) : Prop where
  id : e'.id = e.id
  store : e'.store = e.store
  declared : e'.declared = e.declared
  collisions : e'.collisions = e.collisions

theorem SameStore.refl (e : EntityMapping) : SameStore e e := ⟨rfl, rfl, rfl, rfl⟩

theorem Indexed.congr (w : Indexed e) {e' : EntityMapping} (h : e.SameStore e') : Indexed e' where
  id_eq := by
    intro i a ha
    rw [h.id]
    exact w.id_eq (h.store ▸ ha)
  declared_name := by
    intro name i hi
    rw [h.store]
    exact w.declared_name (h.declared ▸ hi)

/-- Nothing else in the entity matters. -/
theorem WellStored.congr (w : WellStored e) {e' : EntityMapping} (h : e.SameStore e') :
    WellStored e' where
  id_eq := (w.indexed.congr h).id_eq
  declared_name := (w.indexed.congr h).declared_name
  fits := by
    intro i a ha
    rw [h.id, h.store]
    exact w.fits (h.store ▸ ha)

/-- The same entity later on: what it stores stays where it is. -/
structure Grown (e e' : EntityMapping) : Prop where
  id : e'.id = e.id
  parent : e'.parent = e.parent
  stored : ∀ {i : Nat} {a : AttributeMapping}, e.store[i]? = some a →
    ∃ b, e'.store[i]? = some b ∧ a.Keeps b

theorem grown_of_store_eq {e' : EntityMapping} (hid : e'.id = e.id) (hp : e'.parent = e.parent)
    (hs : e'.store = e.store) : e.Grown e' :=
  ⟨hid, hp, fun {_} {a} ha => ⟨a, hs ▸ ha, .refl a⟩⟩

theorem Grown.trans {e' e'' : EntityMapping} (g : e.Grown e') (g' : e'.Grown e'') :
    e.Grown e'' where
  id := g'.id.trans g.id
  parent := g'.parent.trans g.parent
  stored := by
    intro i a ha
    obtain ⟨b, hb, hab⟩ := g.stored ha
    obtain ⟨c, hc, hbc⟩ := g'.stored hb
    exact ⟨c, hc, hab.trans hbc⟩

theorem grown_withAttribute (e : EntityMapping) (scope : Scope) (a : AttributeMapping) :
    e.Grown (e.withAttribute scope a) where
  id := (samePlace_withAttribute e scope a).id
  parent := (samePlace_withAttribute e scope a).parent
  stored := fun hb => keeps_stored_withAttribute hb scope a

theorem Bound.grown {given : AttributeMapping → Prop} {o : Outcome EntityMapping AttributeId}
    (h : e.Bound given o) : e.Grown o.state := by
  cases h with
  | refused fault => exact grown_of_store_eq rfl rfl rfl
  | enrolled scope replaced hid hmade htaken => exact grown_withAttribute e scope _

end EntityMapping

namespace Model

variable {m : Model} {given : AttributeMapping → Prop} {o : Outcome Model Reply}

/-! ## What a command does to the stores -/

/-- The entities keep their stores, and those that are new have nothing stored. -/
structure SameStores (m m' : Model) : Prop where
  collisions : m'.collisions = m.collisions
  forth : ∀ {x : EntityId} {e : EntityMapping}, m.entity? x = some e →
    ∃ e', m'.entity? x = some e' ∧ e.SameStore e'
  back : ∀ {x : EntityId} {e' : EntityMapping}, m'.entity? x = some e' →
    (∃ e, m.entity? x = some e ∧ e.SameStore e') ∨
      m.entity? x = none ∧ e'.store = [] ∧ e'.declared = .empty ∧ e'.collisions = m.collisions

theorem sameStores_putEntity {id : EntityId} {e e' : EntityMapping} (he : m.entity? id = some e)
    (hs : e.SameStore e') : SameStores m (m.putEntity id e') := by
  refine ⟨rfl, fun {x f} hf => ?_, fun {x f} hf => ?_⟩
  · rw [entity?_putEntity he]
    split
    · rename_i hx
      rw [hx, he] at hf
      cases hf
      exact ⟨e', rfl, hs⟩
    · exact ⟨f, hf, .refl f⟩
  · rw [entity?_putEntity he] at hf
    split at hf
    · rename_i hx
      cases hf
      exact .inl ⟨e, hx ▸ he, hs⟩
    · exact .inl ⟨f, hf, .refl f⟩

theorem sameStores_addRoot (inheritance : Inheritance) (mode : EntityMode) :
    SameStores m (m.addRoot inheritance mode).state := by
  refine ⟨rfl, fun {x e} he => ?_, fun {x e} he => ?_⟩
  · exact ⟨e, entity?_addRoot_iff.mpr (.inl he), .refl e⟩
  · rcases entity?_addRoot_iff.mp he with he | ⟨rfl, rfl⟩
    · exact .inl ⟨e, he, .refl e⟩
    · exact .inr ⟨entity?_nextEntity m, rfl, rfl, rfl⟩

theorem sameStores_addChild {parent : EntityId} {k : HierarchyId}
    (hc : m.checkParent parent = .ok k) : SameStores m (m.addChild parent).state := by
  have hsame : ∀ (x : EntityId) (e : EntityMapping), e.SameStore (m.afterChild parent x e) := by
    intro x e
    unfold afterChild
    split <;> exact ⟨rfl, rfl, rfl, rfl⟩
  refine ⟨by simp [Model.addChild, hc], fun {x e} he => ?_, fun {x e} he => ?_⟩
  · exact ⟨_, (entity?_addChild_iff hc).mpr (.inl ⟨e, he, rfl⟩), hsame x e⟩
  · rcases (entity?_addChild_iff hc).mp he with ⟨f, hf, rfl⟩ | ⟨rfl, rfl⟩
    · exact .inl ⟨f, hf, hsame x f⟩
    · exact .inr ⟨entity?_nextEntity m, rfl, rfl, rfl⟩

/-- Each id names the same attribute, if it names one at all. -/
theorem SameStores.attribute?_eq {m m' : Model} (h : SameStores m m') (id : AttributeId) :
    m'.attribute? id = m.attribute? id := by
  unfold attribute?
  cases he' : m'.entity? id.entity with
  | some e' =>
    rcases h.back he' with ⟨e, he, hsame⟩ | ⟨hnone, hstore, _⟩
    · simp [he, hsame.store]
    · simp [hnone, hstore]
  | none =>
    cases he : m.entity? id.entity with
    | none => rfl
    | some e =>
      obtain ⟨e', hfound, _⟩ := h.forth he
      rw [he'] at hfound
      cases hfound

/-- What a command can do to the stores: nothing, or it enrols one attribute and answers its id. -/
inductive Stores (given : AttributeMapping → Prop) (m : Model) (o : Outcome Model Reply) : Prop
  | kept (hsame : SameStores m o.state) (hanswer : ∀ id, o.answer ≠ .ok (.mapped id))
  | enrolled {x : EntityId} {e : EntityMapping} {scope : Scope} {a : AttributeMapping}
      {replaced : Option String} (he : m.entity? x = some e) (hid : a.id = e.nextId)
      (hmade : e.Builds scope a ∨ given a) (htaken : e.takenOver scope a.name = .ok replaced)
      (hstate : o.state = m.putEntity x (e.withAttribute scope a))
      (hanswer : o.answer = .ok (.mapped a.id))

theorem SameStores.refl (m : Model) : SameStores m m :=
  ⟨rfl, fun {_} e he => ⟨e, he, .refl e⟩, fun {_} e he => .inl ⟨e, he, .refl e⟩⟩

theorem step_stores (h : m.Step given o) : m.Stores given o := by
  cases h with
  | refused fault => exact .kept (.refl m) fun _ hmapped => by cases hmapped
  | root inheritance mode =>
    exact .kept (sameStores_addRoot inheritance mode) fun _ hmapped => by cases hmapped
  | child parent k hparent =>
    refine .kept (sameStores_addChild hparent) fun _ hmapped => ?_
    simp only [addChild, hparent] at hmapped
    cases hmapped
  | settings events hentity hplace hstore hdeclared hcollisions =>
    exact .kept (sameStores_putEntity hentity ⟨hplace.id, hstore, hdeclared, hcollisions⟩)
      fun _ hmapped => by cases hmapped
  | hierarchy hhierarchy change =>
    exact .kept ⟨rfl, (SameStores.refl m).forth, (SameStores.refl m).back⟩
      fun _ hmapped => by cases hmapped
  | binding hentity hbound =>
    cases hbound with
    | refused fault =>
      exact .kept (sameStores_putEntity hentity (.refl _)) fun _ hmapped => by cases hmapped
    | enrolled scope replaced hid hmade htaken => exact .enrolled hentity hid hmade htaken rfl rfl

theorem collisions_step (h : m.Step given o) : o.state.collisions = m.collisions := by
  cases step_stores h with
  | kept hsame _ => exact hsame.collisions
  | enrolled _ _ _ _ hstate _ => rw [hstate]; rfl

section

variable {P : EntityMapping → Prop} (hsame : ∀ e e' : EntityMapping, e.SameStore e' → P e → P e')
include hsame

/-- What each entity keeps to, whatever else is known of it but its store, its declared names and
its policy, survives a command if it survives that an attribute is enrolled. -/
theorem forall_entities_step
    (hnew : ∀ e : EntityMapping, e.store = [] → e.declared = .empty →
      e.collisions = m.collisions → P e)
    (henrolled : ∀ (e : EntityMapping) (scope : Scope) (a : AttributeMapping)
      (replaced : Option String), P e → a.id = e.nextId → e.Builds scope a ∨ given a →
      e.takenOver scope a.name = .ok replaced → P (e.withAttribute scope a))
    (h0 : ∀ x e, m.entity? x = some e → P e) (h : m.Step given o) :
    ∀ x e, o.state.entity? x = some e → P e := by
  intro x e' he'
  cases step_stores h with
  | kept hstores _ =>
    rcases hstores.back he' with ⟨e, he, hstore⟩ | ⟨_, hstore, hdeclared, hcollisions⟩
    · exact hsame e e' hstore (h0 x e he)
    · exact hnew e' hstore hdeclared hcollisions
  | @enrolled y e scope a replaced he hid hmade htaken hstate _ =>
    rw [hstate, entity?_putEntity he] at he'
    split at he'
    · cases he'
      exact henrolled e scope a replaced (h0 y e he) hid hmade htaken
    · exact h0 x e' he'

/-- And so it holds after a run, all of which goes by the policy that the model began with. -/
theorem forall_entities_after {commands : List Command}
    (hnew : ∀ e : EntityMapping, e.store = [] → e.declared = .empty →
      e.collisions = m.collisions → P e)
    (henrolled : ∀ c ∈ commands, ∀ (e : EntityMapping) (scope : Scope) (a : AttributeMapping)
      (replaced : Option String), P e → a.id = e.nextId → e.Builds scope a ∨ c.Gives a →
      e.takenOver scope a.name = .ok replaced → P (e.withAttribute scope a))
    (h0 : ∀ x e, m.entity? x = some e → P e) :
    ∀ x e, (m.after commands).entity? x = some e → P e := by
  have hafter : (m.after commands).collisions = m.collisions ∧
      ∀ x e, (m.after commands).entity? x = some e → P e := by
    refine after_induction (P := fun n => n.collisions = m.collisions ∧
      ∀ x e, n.entity? x = some e → P e) ⟨rfl, h0⟩ fun c hc n o ⟨hpolicy, hn⟩ hstep => ?_
    refine ⟨(collisions_step hstep).trans hpolicy, ?_⟩
    exact forall_entities_step hsame (fun e hs hd hk => hnew e hs hd (hk.trans hpolicy))
      (henrolled c hc) hn hstep
  exact hafter.2

end

/-! ## Every run -/

/-- Every entity finds its attributes where their ids and their names lead. -/
def Indexed (m : Model) : Prop := ∀ x e, m.entity? x = some e → e.Indexed

theorem indexed_after (collisions : NameCollision) (verifying : Bool) (commands : List Command) :
    Indexed ((fresh collisions verifying).after commands) :=
  forall_entities_after (fun _ _ h w => w.congr h) (fun _ hs hd _ => .of_empty hs hd)
    (fun _ _ _ _ _ _ w hid _ _ => w.withAttribute hid) (by simp [fresh, entity?])

/-- Every entity keeps its store in order. -/
def WellStored (m : Model) : Prop :=
  ∀ x e, m.entity? x = some e → e.WellStored

theorem wellStored_fresh (collisions : NameCollision) (verifying : Bool) :
    WellStored (fresh collisions verifying) := by
  intro x e he
  simp [fresh, entity?] at he

theorem wellStored_step (hg : ∀ a, given a → a.composite? = none) (w : WellStored m)
    (h : m.Step given o) : WellStored o.state :=
  forall_entities_step (fun _ _ h w => w.congr h) (fun _ hs hd _ => .of_empty hs hd)
    (fun _ _ _ _ w hid hmade _ => w.enrolled hg hid hmade) w h

theorem wellStored_after {commands : List Command} (w : WellStored m)
    (hc : ∀ c ∈ commands, ∀ a, c.Gives a → a.composite? = none) :
    WellStored (m.after commands) :=
  after_induction w fun c hmem _ _ hw hs => wellStored_step (hc c hmem) hw hs

/-- The same model later on: its entities are still there with all that they store. -/
def Grown (m m' : Model) : Prop :=
  ∀ x e, m.entity? x = some e → ∃ e', m'.entity? x = some e' ∧ e.Grown e'

theorem grown_refl (m : Model) : Grown m m :=
  fun _ e he => ⟨e, he, EntityMapping.grown_of_store_eq rfl rfl rfl⟩

theorem Grown.trans {m' m'' : Model} (g : Grown m m') (g' : Grown m' m'') : Grown m m'' := by
  intro x e he
  obtain ⟨e', he', hg⟩ := g x e he
  obtain ⟨e'', he'', hg'⟩ := g' x e' he'
  exact ⟨e'', he'', hg.trans hg'⟩

theorem grown_putEntity {id : EntityId} {e e' : EntityMapping} (he : m.entity? id = some e)
    (hg : e.Grown e') : Grown m (m.putEntity id e') := by
  intro x f hf
  rw [entity?_putEntity he]
  split
  · rename_i hx
    subst hx
    rw [he] at hf
    cases hf
    exact ⟨e', rfl, hg⟩
  · exact grown_refl m x f hf

theorem grown_step (h : m.Step given o) : Grown m o.state := by
  cases h with
  | refused fault => exact grown_refl m
  | root inheritance mode =>
    intro x e he
    exact ⟨e, entity?_addRoot_iff.mpr (.inl he), EntityMapping.grown_of_store_eq rfl rfl rfl⟩
  | child parent k hparent =>
    intro x e he
    refine ⟨_, (entity?_addChild_iff hparent).mpr (.inl ⟨e, he, rfl⟩), ?_⟩
    unfold afterChild
    split <;> exact EntityMapping.grown_of_store_eq rfl rfl rfl
  | settings events hentity hplace hstore hdeclared =>
    exact grown_putEntity hentity
      (EntityMapping.grown_of_store_eq hplace.id hplace.parent hstore)
  | hierarchy hhierarchy change => exact grown_refl m
  | binding hentity hbound => exact grown_putEntity hentity hbound.grown

theorem grown_after (m : Model) (commands : List Command) : Grown m (m.after commands) :=
  after_induction (grown_refl m) fun _ _ _ _ hg hs => hg.trans (grown_step hs)

end Model

end RelationalMapping
