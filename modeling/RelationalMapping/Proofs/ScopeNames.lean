import RelationalMapping.Proofs.Catalogue

/-!
The names in a scope. A composite keeps, beside the list of its parts, the position of the first
part of each name. Parts of a virtual composite may share their names, and replacing a part or
adding one must leave every name with the first part that bears it.

* `CompositeBody.NamedBy`: how the positions go with the names of the parts. A catalogue gives it
  where its names are theirs (`Catalogued.namedBy`).
* `PartsNamed.findsFirst`: in every scope, a name leads to the first attribute listed that bears it.
* `partsNamed_after`: so it is for all composites after every run.
-/

namespace RelationalMapping

namespace CompositeBody

/-- The parts have these names, one by one, and each name leads to the first part that has it. -/
structure NamedBy (c : CompositeBody) (nameOf : AttributeId → Option String)
    (names : List String) : Prop where
  named : c.partIds.map nameOf = names.map some
  first : ∀ name, c.positions.find? name = names.idxOf? name

variable {c : CompositeBody} {nameOf : AttributeId → Option String} {names : List String}
  {id : AttributeId} {name : String}

/-- A catalogue whose names are those of its parts. -/
theorem Catalogued.namedBy {l : List (String × AttributeId)} (h : c.Catalogued l)
    (hn : ∀ p ∈ l, nameOf p.2 = some p.1) : c.NamedBy nameOf (l.map Prod.fst) where
  named := by
    rw [h.parts, List.map_map, List.map_map]
    exact List.map_congr_left hn
  first := h.positions

namespace NamedBy

variable (h : c.NamedBy nameOf names)
include h

theorem length_names : names.length = c.partIds.length := by
  have hlength := congrArg List.length h.named
  rw [List.length_map, List.length_map] at hlength
  exact hlength.symm

theorem mem_positions_iff : name ∈ c.positions.names ↔ name ∈ names := by
  rw [← Roster.contains_iff_mem_names, Roster.contains, h.first, List.isSome_idxOf?]

theorem exists_catalogued : ∃ l, c.Catalogued l ∧ l.map Prod.fst = names ∧
    ∀ p ∈ l, nameOf p.2 = some p.1 := by
  have hfst : (names.zip c.partIds).map Prod.fst = names :=
    List.map_fst_zip (Nat.le_of_eq h.length_names)
  have hsnd : (names.zip c.partIds).map Prod.snd = c.partIds :=
    List.map_snd_zip (Nat.le_of_eq h.length_names.symm)
  refine ⟨names.zip c.partIds, ⟨hsnd.symm, fun name => ?_⟩, hfst, fun p hp => ?_⟩
  · rw [hfst, h.first]
  · obtain ⟨i, hi⟩ := List.mem_iff_getElem?.mp hp
    obtain ⟨hname, hid⟩ := List.getElem?_zip_eq_some.mp hi
    have hat := congrArg (fun l => l[i]?) h.named
    simpa [hname, hid] using hat

/-- More names may be known, as long as the old ones stay. -/
theorem mono {later : AttributeId → Option String}
    (hlater : ∀ id n, nameOf id = some n → later id = some n) : c.NamedBy later names := by
  obtain ⟨l, hl, rfl, hn⟩ := h.exists_catalogued
  exact hl.namedBy fun p hp => hlater p.2 p.1 (hn p hp)

/-- A name leads to the first part that bears it. -/
theorem part?_eq (name : String) :
    c.part? name = .ok (c.partIds.find? fun id => nameOf id == some name) := by
  obtain ⟨l, hl, rfl, hn⟩ := h.exists_catalogued
  rw [hl.part?_eq, Roster.lookup_eq_find? hn, hl.parts]

/-- A part whose name is taken comes in the place of the first part of that name, and the names are
what they were. -/
theorem enterPart (hid : nameOf id = some name) :
    (c.enterPart name id).NamedBy nameOf (if name ∈ names then names else names ++ [name]) := by
  obtain ⟨l, hl, rfl, hn⟩ := h.exists_catalogued
  rw [← Roster.map_fst_enterInto name id l]
  refine (hl.enterPart name id).namedBy fun p hp => ?_
  rcases Roster.mem_enterInto hp with hp | rfl
  · exact hn p hp
  · exact hid

end NamedBy

end CompositeBody

namespace EntityMapping

variable {e : EntityMapping} {scope : Scope} {a : AttributeMapping}

/-! ## What the binding operations build -/

theorem Builds.namedBy (h : e.Builds scope a) {c : CompositeBody} (hc : a.composite? = some c) :
    ∃ names, c.NamedBy e.nameOf names := by
  cases h with
  | plain hbody =>
    rw [hbody] at hc
    cases hc
  | component hbody hparts hpositions =>
    rw [AttributeMapping.composite?_eq_some_iff, hbody] at hc
    cases hc
    exact ⟨[], (CompositeBody.Catalogued.of_empty hparts hpositions).namedBy (by simp)⟩
  | grouping hnamed hbody =>
    rw [AttributeMapping.composite?_eq_some_iff, hbody] at hc
    cases hc
    exact ⟨_, (catalogued_virtualBody _ _).namedBy (namedParts_eq_ok hnamed).2⟩

/-! ## One more attribute -/

/-- A stored attribute keeps its name. -/
theorem nameOf_withAttribute {id : AttributeId} {name : String} (h : e.nameOf id = some name)
    (scope : Scope) (a : AttributeMapping) :
    (e.withAttribute scope a).nameOf id = some name := by
  obtain ⟨b, hb, rfl⟩ := Option.map_eq_some_iff.mp h
  obtain ⟨hent, hstored⟩ := stored?_eq_some_iff.mp hb
  obtain ⟨later, hl, hk⟩ := keeps_stored_withAttribute hstored scope a
  have hid : id.entity = (e.withAttribute scope a).id := by rw [hent, id_withAttribute]
  exact Option.map_eq_some_iff.mpr ⟨later, stored?_eq_some_iff.mpr ⟨hid, hl⟩, hk.name⟩

theorem nameOf_withAttribute_self (hid : a.id = e.nextId) :
    (e.withAttribute scope a).nameOf a.id = some a.name := by
  have hent : a.id.entity = (e.withAttribute scope a).id := by rw [id_withAttribute, hid]; rfl
  have hindex : a.id.index = e.store.length := by rw [hid]; rfl
  rw [nameOf, stored?, if_pos hent, hindex, store_withAttribute, List.getElem?_concat_length]
  simp only [Option.map_some]
  split
  · rw [AttributeMapping.name_withPart]
  · rfl

/-- All composites of the entity find their parts by the names that these have. -/
def PartsNamed (e : EntityMapping) : Prop :=
  ∀ (i : Nat) (a : AttributeMapping) (c : CompositeBody), e.store[i]? = some a →
    a.composite? = some c → ∃ names, c.NamedBy e.nameOf names

theorem PartsNamed.withAttribute (h : PartsNamed e) (hid : a.id = e.nextId)
    (ha : ∀ c, a.composite? = some c → ∃ names, c.NamedBy e.nameOf names) :
    PartsNamed (e.withAttribute scope a) := by
  have hlater : ∀ c : CompositeBody, (∃ names, c.NamedBy e.nameOf names) →
      ∃ names, c.NamedBy (e.withAttribute scope a).nameOf names := fun c ⟨names, hn⟩ =>
    ⟨names, hn.mono fun _ _ hname => nameOf_withAttribute hname scope a⟩
  refine composites_withAttribute (fun i b c hb hc => hlater c (h i b c hb hc))
    (fun c hc => hlater c (ha c hc)) fun c ⟨names, hn⟩ => ?_
  exact ⟨_, hn.enterPart (nameOf_withAttribute_self hid)⟩

theorem PartsNamed.congr (h : PartsNamed e) {e' : EntityMapping} (hs : e.SameStore e') :
    PartsNamed e' := by
  intro i a c ha hc
  have hnames : e'.nameOf = e.nameOf := by
    funext id
    rw [nameOf, nameOf, stored?, stored?, hs.id, hs.store]
  rw [hnames]
  exact h i a c (hs.store ▸ ha) hc

/-- In all composites of the entity the names lead to parts. -/
def PartsPlaced (e : EntityMapping) : Prop :=
  ∀ (i : Nat) (a : AttributeMapping) (c : CompositeBody), e.store[i]? = some a →
    a.composite? = some c → c.Placed

theorem PartsPlaced.withAttribute (h : PartsPlaced e)
    (ha : ∀ c, a.composite? = some c → c.Placed) : PartsPlaced (e.withAttribute scope a) :=
  composites_withAttribute h ha fun _ hc => hc.enterPart a.name a.id

/-! ## What a scope answers -/

/-- The names that are taken in a scope. -/
def namesIn (e : EntityMapping) : Scope → List String
  | .entity => e.declared.names
  | .composite i =>
      match e.store[i]?.bind AttributeMapping.composite? with
      | some c => c.positions.names
      | none => []

theorem namesIn_composite {i : Nat} {c : CompositeBody} (ha : e.store[i]? = some a)
    (hc : a.composite? = some c) : e.namesIn (.composite i) = c.positions.names := by
  rw [namesIn, ha, Option.bind_some, hc]

/-- The scope lists these attributes, and finds by a name the first of them that bears it. -/
structure FindsFirst (e : EntityMapping) (scope : Scope) (as : List AttributeMapping) : Prop where
  listing : e.listing scope = .ok as
  locate : ∀ name, e.locate scope name = .ok (as.find? fun a => a.name == name)
  taken_iff : ∀ name, name ∈ e.namesIn scope ↔ ∃ a ∈ as, a.name = name

theorem Indexed.findsFirst (w : Indexed e) : ∃ as, e.FindsFirst .entity as := by
  have read : ∀ l : List (String × Nat),
      (∀ p ∈ l, ∃ a, e.store[p.2]? = some a ∧ a.name = p.1) →
      ∃ as, (l.map Prod.snd).mapM e.storedAt = .ok as ∧
        as.map AttributeMapping.name = l.map Prod.fst ∧
        ∀ name, ((l.lookup name).bind fun i => e.store[i]?) = as.find? fun a => a.name == name := by
    intro l
    induction l with
    | nil => exact fun _ => ⟨[], rfl, rfl, fun _ => rfl⟩
    | cons p rest ih =>
      intro hall
      obtain ⟨n, i⟩ := p
      obtain ⟨⟨a, ha, hname⟩, hrest⟩ := List.forall_mem_cons.mp hall
      obtain ⟨as, has, hnames, hfind⟩ := ih hrest
      have hat : e.storedAt i = .ok a := Answer.atIndex_eq_ok_iff.mpr ha
      refine ⟨a :: as, ?_, ?_, fun name => ?_⟩
      · rw [List.map_cons, List.mapM_cons, hat, has]
        rfl
      · rw [List.map_cons, hnames, List.map_cons, hname]
      · by_cases hn : name = n
        · simp [hn, ha, hname]
        · simp [List.lookup_cons, beq_false_of_ne hn, hname, Ne.symm hn, hfind]
  obtain ⟨as, has, hnames, hfind⟩ := read e.declared.entries fun p hp =>
    w.declared_name ((e.declared.find?_eq_some_iff p.1 p.2).mpr hp)
  refine ⟨as, has, fun name => ?_, fun name => ?_⟩
  · rw [← hfind name]
    simp only [locate]
    cases hi : e.declared.find? name with
    | none =>
      rw [Roster.find?] at hi
      rw [hi, Option.bind_none]
    | some i =>
      obtain ⟨a, ha, _⟩ := w.declared_name hi
      have hat : e.storedAt i = .ok a := Answer.atIndex_eq_ok_iff.mpr ha
      rw [Roster.find?] at hi
      simp only [hi, hat, Option.bind_some, ha, Except.map]
  · rw [← List.mem_map, hnames]
    rfl

/-- Parts whose names are known are all listed, each under its name. -/
theorem filterMap_parts {ids : List AttributeId} {names : List String}
    (h : ids.map e.nameOf = names.map some) :
    (ids.filterMap fun id => e.store[id.index]?).map AttributeMapping.name = names ∧
      ∀ name, ((ids.find? fun id => e.nameOf id == some name).bind fun id => e.store[id.index]?) =
        (ids.filterMap fun id => e.store[id.index]?).find? fun a => a.name == name := by
  induction ids generalizing names with
  | nil =>
    cases names with
    | nil => exact ⟨rfl, fun _ => rfl⟩
    | cons => cases h
  | cons id rest ih =>
    cases names with
    | nil => cases h
    | cons n later =>
      obtain ⟨hid, hrest⟩ := List.cons.inj h
      obtain ⟨hnames, hfind⟩ := ih hrest
      obtain ⟨a, ha, rfl⟩ := Option.map_eq_some_iff.mp hid
      have hstored : e.store[id.index]? = some a := (stored?_eq_some_iff.mp ha).2
      have hcons : ((id :: rest).filterMap fun id => e.store[id.index]?) =
          a :: rest.filterMap fun id => e.store[id.index]? := List.filterMap_cons_some hstored
      rw [hcons]
      refine ⟨by rw [List.map_cons, hnames], fun name => ?_⟩
      rw [List.find?_cons, List.find?_cons, hid]
      by_cases hn : a.name = name
      · simp [hn, hstored]
      · have hne : (a.name == name) = false := beq_false_of_ne hn
        have hnot : (some a.name == some name) = false := by simpa using hn
        rw [hne, hnot]
        exact hfind name

theorem PartsNamed.findsFirst (h : PartsNamed e) (w : Indexed e) (hs : e.Opens scope) :
    ∃ as, e.FindsFirst scope as := by
  cases scope with
  | entity => exact w.findsFirst
  | composite i =>
    obtain ⟨a, c, ha, hc⟩ := hs
    obtain ⟨names, hn⟩ := h i a c ha hc
    obtain ⟨hnames, hfind⟩ := filterMap_parts hn.named
    refine ⟨_, listing_composite ha hc, fun name => ?_, fun name => ?_⟩
    · rw [locate_composite ha hc, hn.part?_eq, ← hfind name]
      rfl
    · rw [namesIn_composite ha hc, hn.mem_positions_iff, ← List.mem_map, hnames]

end EntityMapping

namespace Model

/-- Every command keeps the names of the parts in order, as long as callers hand in no
composites. -/
theorem partsNamed_after (collisions : NameCollision) (verifying : Bool) {commands : List Command}
    (hgiven : ∀ c ∈ commands, ∀ a, c.Gives a → a.composite? = none) :
    ∀ x e, ((fresh collisions verifying).after commands).entity? x = some e → e.PartsNamed := by
  refine forall_entities_after (fun _ _ hs h => h.congr hs) (fun e hs _ _ => ?_)
    (fun c hc e scope a _ h hid hmade _ => h.withAttribute hid fun d hd => ?_)
    (by simp [fresh, entity?])
  · intro i a _ ha
    simp [hs] at ha
  · rcases hmade with hmade | hgives
    · exact hmade.namedBy hd
    · rw [hgiven c hc a hgives] at hd
      cases hd

/-- Composites may be handed in, if their own names lead to their own parts. -/
theorem partsPlaced_after (collisions : NameCollision) (verifying : Bool) {commands : List Command}
    (hgiven : ∀ c ∈ commands, ∀ a, c.Gives a → ∀ b, a.composite? = some b → b.Placed) :
    ∀ x e, ((fresh collisions verifying).after commands).entity? x = some e → e.PartsPlaced := by
  refine forall_entities_after (fun e e' hs h i a c ha => h i a c (hs.store ▸ ha))
    (fun e hs _ _ => ?_) (fun c hc e scope a _ h _ hmade _ => h.withAttribute fun d hd => ?_)
    (by simp [fresh, entity?])
  · intro i a _ ha
    simp [hs] at ha
  · rcases hmade with hmade | hgives
    · exact (hmade.fits d hd).placed
    · exact hgiven c hc a hgives d hd

end Model

end RelationalMapping
