import RelationalMapping.Proofs.Catalogue
import RelationalMapping.Proofs.OrderedScopes

/-!
What a registration leaves alone. All scopes of an entity share its store, and several of them may
keep the same attribute, one of their own and others that group it. What is entered in one scope
shows in no other, even if it replaces what others keep.

* `Footprint`: all that one more attribute in a scope does to the entity.
* `WellStored.map_id_listing`, `WellStored.map_id_locate`: where the parts of composites are
  attributes of their entity, a scope lists and locates the ids that it keeps.
* `registration_stays_local`: every command that registers an attribute has such a footprint on one
  entity, and none on the rest of the model.
-/

namespace RelationalMapping

namespace EntityMapping

variable {e e' : EntityMapping} {scope other : Scope} {a : AttributeMapping}

/-! ## One entity -/

/-- What `e'` has that `e` had not is the attribute, entered in that scope. -/
structure Footprint (e : EntityMapping) (scope : Scope) (a : AttributeMapping)
    (e' : EntityMapping) : Prop where
  length : e'.store.length = e.store.length + 1
  /-- The attribute comes last in the store. -/
  last : e'.store[e.store.length]? = some a
  /-- What was stored is what it was, but for the parts of the composite that is the scope. -/
  stored : ∀ {i : Nat} {b : AttributeMapping}, e.store[i]? = some b →
    ∃ later, e'.store[i]? = some later ∧ later.id = b.id ∧ later.content = b.content ∧
      (scope ≠ .composite i → later = b)
  /-- Outside of the store and the declared names there is no difference. -/
  rest : { e' with store := e.store, declared := e.declared } = e
  /-- In the scope the attribute takes the place of the one of its name, or else comes last. -/
  entered : ∃ ids place, e.idsIn scope = .ok ids ∧ e.placeOf scope a.name = .ok place ∧
    e'.idsIn scope = .ok (Roster.putAt place a.id ids)
  named : e'.idNamed scope a.name = .ok (some a.id)
  /-- Every other name of the scope leads to the same attribute at the same place. -/
  names : ∀ n ≠ a.name, e'.idNamed scope n = e.idNamed scope n ∧
    e'.placeOf scope n = e.placeOf scope n
  /-- Every other scope keeps the same attributes, each under its name and at its place. -/
  others : ∀ {other : Scope}, e.Opens other → other ≠ scope → e'.idsIn other = e.idsIn other ∧
    ∀ n, e'.idNamed other n = e.idNamed other n ∧ e'.placeOf other n = e.placeOf other n

theorem rest_withAttribute (e : EntityMapping) (scope : Scope) (a : AttributeMapping) :
    { e.withAttribute scope a with store := e.store, declared := e.declared } = e := by
  cases scope <;> rfl

theorem content_stored_withAttribute {i : Nat} {b : AttributeMapping} (h : e.store[i]? = some b)
    (scope : Scope) (a : AttributeMapping) :
    ∃ later, (e.withAttribute scope a).store[i]? = some later ∧ later.id = b.id ∧
      later.content = b.content ∧ (scope ≠ .composite i → later = b) := by
  refine ⟨_, store_withAttribute_of_stored h scope a, ?_⟩
  split
  · rename_i hscope
    exact ⟨b.id_withPart a.name a.id, b.content_withPart a.name a.id, fun hne => absurd hscope hne⟩
  · exact ⟨rfl, rfl, fun _ => rfl⟩

theorem PartsCatalogued.footprint (h : e.PartsCatalogued) (hs : e.Opens scope)
    (hid : a.id = e.nextId) : e.Footprint scope a (e.withAttribute scope a) := by
  obtain ⟨l, hl⟩ := h.exists_catalogue hs
  have hlater := hl.withAttribute hid
  constructor
  case length => exact length_store_withAttribute e scope a
  case last => exact store_withAttribute_last hs.ne_next
  case stored => exact fun hb => content_stored_withAttribute hb scope a
  case rest => exact rest_withAttribute e scope a
  case entered =>
    exact ⟨_, _, hl.idsIn_eq, hl.placeOf_eq a.name,
      by rw [hlater.idsIn_eq, Roster.map_snd_enterInto]⟩
  case named => rw [hlater.idNamed_eq, Roster.lookup_enterInto_self]
  case names =>
    intro n hn
    rw [hlater.idNamed_eq, hl.idNamed_eq, hlater.placeOf_eq, hl.placeOf_eq,
      Roster.lookup_enterInto_of_ne _ _ hn, Roster.idxOf?_enterInto_of_ne a.id hn]
    exact ⟨rfl, rfl⟩
  case others =>
    intro other ho hne
    obtain ⟨k, hk⟩ := h.exists_catalogue ho
    have hk' : (e.withAttribute scope a).Catalogues other k := hk.elsewhere (Ne.symm hne)
    refine ⟨by rw [hk'.idsIn_eq, hk.idsIn_eq], fun n => ⟨?_, ?_⟩⟩
    · rw [hk'.idNamed_eq, hk.idNamed_eq]
    · rw [hk'.placeOf_eq, hk.placeOf_eq]

/-! ## What scopes list and locate -/

/-- An id that the entity has in its store leads there to the attribute that bears it. -/
theorem WellStored.map_id_stored (w : WellStored e) {id : AttributeId} (hent : id.entity = e.id)
    (hlt : id.index < e.store.length) :
    (e.store[id.index]?).map AttributeMapping.id = some id := by
  rw [List.getElem?_eq_getElem hlt, Option.map_some, w.id_eq (List.getElem?_eq_getElem hlt), ← hent]

/-- A scope lists the ids that it keeps. -/
theorem WellStored.map_id_listing (w : WellStored e) (hs : e.Opens scope) :
    (e.listing scope).map (List.map AttributeMapping.id) = e.idsIn scope := by
  cases scope with
  | entity =>
    have hfound : ∀ i ∈ e.declared.values, ∃ b, e.storedAt i = .ok b ∧ e.store[i]? = some b := by
      intro i hi
      obtain ⟨b, hb⟩ := w.indexed.storedAt_declared hi
      exact ⟨b, hb, Answer.atIndex_eq_ok_iff.mp hb⟩
    have hids : ∀ i ∈ e.declared.values,
        (e.store[i]?).map AttributeMapping.id = some ⟨e.id, i⟩ := by
      intro i hi
      obtain ⟨b, _, hb⟩ := hfound i hi
      rw [hb, Option.map_some, w.id_eq hb]
    have hlisting : e.listing .entity =
        .ok (e.declared.values.filterMap fun i => e.store[i]?) := by
      rw [← Answer.mapM_eq_ok_filterMap (k := fun i => i) hfound, List.map_id']
      rfl
    rw [hlisting]
    simp only [Except.map, idsIn, List.map_filterMap, List.filterMap_congr hids,
      List.filterMap_eq_map']
  | composite i =>
    obtain ⟨b, c, hb, hc⟩ := hs
    have hids : ∀ id ∈ c.partIds,
        (e.store[id.index]?).map AttributeMapping.id = some id := fun id hid =>
      w.map_id_stored ((w.fits hb c hc).parts id hid).1 ((w.fits hb c hc).parts id hid).2
    rw [listing_composite hb hc]
    simp only [Except.map, idsIn, compositeAt_stored hb hc, List.map_filterMap,
      List.filterMap_congr hids, List.filterMap_some]

/-- What a scope locates under a name has the id that the name leads to. -/
theorem WellStored.map_id_locate (w : WellStored e) (hs : e.Opens scope) (name : String) :
    (e.locate scope name).map (Option.map AttributeMapping.id) = e.idNamed scope name := by
  cases scope with
  | entity =>
    unfold locate idNamed
    cases hi : e.declared.find? name with
    | none => rfl
    | some i =>
      obtain ⟨b, hb, _⟩ := w.declared_name hi
      have hat : e.storedAt i = .ok b := Answer.atIndex_eq_ok_iff.mpr hb
      simp only [hat, Except.map, Option.map_some, w.id_eq hb]
  | composite i =>
    obtain ⟨b, c, hb, hc⟩ := hs
    have hfits : c.Fits e.id e.store.length := w.fits hb c hc
    obtain ⟨part, hpart⟩ := hfits.part?_eq_ok name
    have hnamed : e.idNamed (.composite i) name = .ok part := by
      rw [idNamed, compositeAt_stored hb hc]
      exact hpart
    rw [locate_composite hb hc, hpart, hnamed]
    cases part with
    | none => rfl
    | some id =>
      obtain ⟨hent, hlt⟩ := hfits.parts id (CompositeBody.mem_partIds_of_part? hpart)
      simp only [Except.map, Option.bind_some, w.map_id_stored hent hlt]

/-- The scope lists and locates attributes of the same ids later on. -/
structure SameFinds (e e' : EntityMapping) (scope : Scope) : Prop where
  listing : (e'.listing scope).map (List.map AttributeMapping.id) =
    (e.listing scope).map (List.map AttributeMapping.id)
  locate : ∀ name, (e'.locate scope name).map (Option.map AttributeMapping.id) =
    (e.locate scope name).map (Option.map AttributeMapping.id)

/-- So the other scopes answer with the same attributes, as far as their parts are the entity's. -/
theorem Footprint.sameFinds (h : e.Footprint scope a e') (w : WellStored e) (w' : WellStored e')
    (ho : e.Opens other) (ho' : e'.Opens other) (hne : other ≠ scope) :
    e.SameFinds e' other where
  listing := by rw [w.map_id_listing ho, w'.map_id_listing ho', (h.others ho hne).1]
  locate := fun name => by
    rw [w.map_id_locate ho, w'.map_id_locate ho', ((h.others ho hne).2 name).1]

/-- A scope stays one. -/
theorem Opens.withAttribute (h : e.Opens scope) (other : Scope) (a : AttributeMapping) :
    (e.withAttribute other a).Opens scope := by
  cases scope with
  | entity => trivial
  | composite i =>
    obtain ⟨b, c, hb, hc⟩ := h
    obtain ⟨later, hl, hk⟩ := keeps_stored_withAttribute hb other a
    obtain ⟨d, hd⟩ := hk.exists_composite hc
    exact ⟨later, d, hl, hd⟩

end EntityMapping

namespace Model

/-! ## The whole model -/

/-- The models differ in one entity at most. -/
structure SameElsewhere (m : Model) (x : EntityId) (m' : Model) : Prop where
  rest : { m' with entities := m.entities } = m
  length : m'.entities.length = m.entities.length
  entities : ∀ y, y ≠ x → m'.entity? y = m.entity? y

theorem sameElsewhere_putEntity (m : Model) (x : EntityId) (e : EntityMapping) :
    m.SameElsewhere x (m.putEntity x e) where
  rest := rfl
  length := List.length_set
  entities := fun _ hy => entity?_putEntity_of_ne e hy

/-- Composites may be handed in with parts of their own entity that come before them. -/
theorem wellStored_after_fitting (collisions : NameCollision) (verifying : Bool)
    {commands : List Command}
    (hfits : ∀ c ∈ commands, ∀ a, c.Gives a → a.Fits a.id.entity a.id.index) :
    WellStored ((fresh collisions verifying).after commands) := by
  refine forall_entities_after (fun _ _ hs w => w.congr hs) (fun _ hs hd _ => .of_empty hs hd)
    (fun c hc e scope a _ w hid hmade _ => w.withAttribute hid ?_) (by simp [fresh, entity?])
  rcases hmade with hmade | hgives
  · exact hmade.fits
  · have hgiven := hfits c hc a hgives
    rw [hid] at hgiven
    exact hgiven

/-- After every run, a command that registers an attribute leaves its footprint on the entity that
it names, in the scope that it names, and changes nothing else: no other scope of the entity, none
of its other data, no other entity and no hierarchy. So what any other scope lists and locates has
the same ids as before. Composites that were handed in need to have catalogues, as those of the
binding operations do; what they list is not affected either if their parts are of their entity. -/
theorem registration_stays_local (collisions : NameCollision) (verifying : Bool)
    (commands : List Command)
    (hgiven : ∀ c ∈ commands, ∀ a, c.Gives a → ∀ b, a.composite? = some b → ∃ l, b.Catalogued l)
    (c : Command) (id : AttributeId)
    (hanswer : (((fresh collisions verifying).after commands).apply c).answer =
      .ok (.mapped id)) :
    let m := (fresh collisions verifying).after commands
    ∃ p e scope a e', c.request? = some (p, a.content) ∧ m.openPlace p = .ok (e, scope) ∧
      a.id = id ∧ (m.apply c).state.entity? p.entity = some e' ∧ e.Footprint scope a e' ∧
      m.SameElsewhere p.entity (m.apply c).state ∧
      ((∀ d ∈ commands ++ [c], ∀ b, d.Gives b → b.Fits b.id.entity b.id.index) →
        ∀ other, e.Opens other → other ≠ scope → e.SameFinds e' other) := by
  intro m
  obtain ⟨p, e, scope, a, hid, h⟩ := registers_of_mapped hanswer
  have hs : e.Opens scope := EntityMapping.opens_of_openScope h.opened
  have hcat : e.PartsCatalogued := partsCatalogued_after collisions verifying hgiven _ e h.entity
  have he' : (m.apply c).state.entity? p.entity = some (e.withAttribute scope a) := by
    rw [h.state, entity?_putEntity h.entity, if_pos rfl]
  have hfoot : e.Footprint scope a (e.withAttribute scope a) := hcat.footprint hs h.id
  refine ⟨p, e, scope, a, e.withAttribute scope a, h.asked.request,
    openPlace_eq_ok_iff.mpr ⟨h.entity, h.opened⟩, hid, he', hfoot, ?_, fun hfits other ho hne => ?_⟩
  · rw [h.state]
    exact sameElsewhere_putEntity m p.entity _
  · have w : e.WellStored := wellStored_after_fitting collisions verifying
      (fun d hd => hfits d (List.mem_append_left _ hd)) _ e h.entity
    have hlater : (m.apply c).state = (fresh collisions verifying).after (commands ++ [c]) :=
      (after_concat _ commands c).symm
    have w' : (e.withAttribute scope a).WellStored :=
      wellStored_after_fitting collisions verifying hfits p.entity _ (hlater ▸ he')
    exact hfoot.sameFinds w w' ho (ho.withAttribute scope a) hne

/-- A part of `name` is replaced there, and the virtual composite that groups it keeps it. -/
theorem registration_stays_local_groupedPart :
    let m := (fresh .replace true).after groupingRun
    let c : Command := .bindBasic { entity := ⟨0⟩, composite := some ⟨⟨0⟩, 0⟩ } ⟨"first", true⟩ []
      {} .never
    (∀ d ∈ groupingRun, ∀ a, d.Gives a → ∀ b, a.composite? = some b → ∃ l, b.Catalogued l) ∧
      (m.apply c).answer = .ok (.mapped ⟨⟨0⟩, 3⟩) ∧
      ∃ e a e', m.entity? ⟨0⟩ = some e ∧ e.Footprint (.composite 0) a e' ∧
        (m.apply c).state.entity? ⟨0⟩ = some e' ∧
        e.idsIn (.composite 0) = .ok [⟨⟨0⟩, 1⟩] ∧ e'.idsIn (.composite 0) = .ok [⟨⟨0⟩, 3⟩] ∧
        e'.idsIn (.composite 2) = .ok [⟨⟨0⟩, 0⟩, ⟨⟨0⟩, 1⟩] ∧ e.SameFinds e' (.composite 2) := by
  intro m c
  have hnone : ∀ d ∈ groupingRun ++ [c], ∀ a, ¬ d.Gives a := by
    rintro d hd a ⟨place, rfl⟩
    simp [groupingRun, c] at hd
  have hgiven : ∀ d ∈ groupingRun, ∀ a, d.Gives a → ∀ b, a.composite? = some b →
      ∃ l, b.Catalogued l := fun d hd a hgives =>
    absurd hgives (hnone d (List.mem_append_left _ hd) a)
  obtain ⟨p, e, scope, a, e', hrequest, hopen, _, he', hfoot, _, hfinds⟩ :=
    registration_stays_local .replace true groupingRun hgiven c ⟨⟨0⟩, 3⟩ rfl
  obtain rfl := congrArg Prod.fst (Option.some.inj hrequest)
  obtain ⟨he, hscope⟩ := openPlace_eq_ok_iff.mp hopen
  cases he
  cases hscope
  cases he'
  refine ⟨hgiven, rfl, _, a, _, rfl, hfoot, rfl, rfl, rfl, rfl, ?_⟩
  exact hfinds (fun d hd b hgives => absurd hgives (hnone d hd b)) (.composite 2)
    ⟨_, _, rfl, rfl⟩ (by decide)

end Model

end RelationalMapping
