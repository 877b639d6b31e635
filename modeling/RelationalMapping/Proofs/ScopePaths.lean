import RelationalMapping.Proofs.Permanence
import RelationalMapping.Proofs.Verdicts

/-!
The paths of scopes. A composite is named in messages by the path of its entity and its own name, so
that a component which was bound on the entity has the path of a part of the entity. One that was
bound in another composite has not the path of a part of that composite: what lies between the
entity and its own name is left out.

* `own_path_iff`: which scopes have parts whose scopes have the paths of parts.
* `PartsPlaced.events_register`: what takes a name over is reported by its path.
* `component_path_iff`: the paths of components in every run, and all that is reported by them.
* `skipped_path_nestedPlace`: a component in a component.
-/

namespace RelationalMapping

namespace EntityMapping

variable {e : EntityMapping} {scope : Scope} {base name : String} {a : AttributeMapping}

theorem scopePath_composite {i : Nat} {c : CompositeBody} (ha : e.store[i]? = some a)
    (hc : a.composite? = some c) :
    e.scopePath (.composite i) = .ok (e.path ++ "." ++ a.name) := by
  rw [scopePath, compositeAt_stored ha hc]
  rfl

/-- A name right behind the path of the entity stands behind the path of a scope only if that is the
scope of the entity: every other path is longer. -/
theorem own_path_iff (hbase : e.scopePath scope = .ok base) :
    e.path ++ "." ++ name = base ++ "." ++ name ↔ scope = .entity := by
  cases scope with
  | entity =>
    cases hbase
    exact ⟨fun _ => rfl, fun _ => rfl⟩
  | composite i =>
    obtain ⟨p, _, hpath⟩ := Answer.bind_eq_ok_iff.mp hbase
    cases hpath
    simp only [reduceCtorEq, iff_false]
    intro heq
    have hlength := congrArg String.length heq
    simp only [String.length_append] at hlength
    have hdot : ".".length = 1 := rfl
    omega

/-- What is let in is reported, and before it what it takes over, by its path. -/
theorem PartsPlaced.events_register (p : e.PartsPlaced) (hpath : e.scopePath scope = .ok base)
    (hs : e.Opens scope) (hid : a.id = e.nextId) (hfree : e.collision? scope base a.name = none) :
    (e.register scope a).events =
      (if a.name ∈ e.namesIn scope then [.attributeReplaced e.id (base ++ "." ++ a.name)]
        else []) ++ [.attributeAdded e.id a.name a.kind] := by
  unfold register
  rw [if_neg (not_not.mpr hid), takenOver_eq p hpath hs]
  by_cases hin : a.name ∈ e.namesIn scope
  · have hreplace : ¬ e.collisions = .reject := by
      intro hreject
      simp [collision?, hreject, hin] at hfree
    simp [hin, hreplace, enrol]
  · simp [hin, enrol]

end EntityMapping

namespace Model

variable {m : Model} {id : AttributeId} {p : Place}

/-- A component that was bound goes on as a composite of its name, beside the scope that it was
bound in. -/
theorem component_later {attr : SingleAttribute} {parentReference : Option SingleAttribute}
    {options : SingleOptions} (f : Forest m) (later : List Command)
    (hanswer : (m.apply (.bindComponent p attr parentReference options)).answer =
      .ok (.mapped id)) :
    let last := m.after (.bindComponent p attr parentReference options :: later)
    ∃ e outer b c, last.openPlace p = .ok (e, outer) ∧
      last.openPlace id.place = .ok (e, .composite id.index) ∧ e.store[id.index]? = some b ∧
      b.composite? = some c ∧ b.name = attr.name := by
  intro last
  obtain ⟨q, e, outer, a, rfl, h⟩ := registers_of_mapped hanswer
  obtain ⟨rfl, hcontent⟩ := Prod.ext_iff.mp (Option.some.inj h.asked.request)
  obtain ⟨c, hc, _⟩ := h.asked.component rfl
  have hid : a.id = ⟨p.entity, e.store.length⟩ := id_eq_of_nextId (f.entity_id h.entity) h.id
  have hmade : (e.withAttribute outer a).store[a.id.index]? = some a := by
    rw [hid]
    exact EntityMapping.store_withAttribute_last (EntityMapping.opens_of_openScope h.opened).ne_next
  -- whatever comes later, the attribute keeps its name and stays a composite
  obtain ⟨e', he', g⟩ := grown_after _ later _ _ h.entity?_after
  obtain ⟨b, hb, hk⟩ := g.stored hmade
  obtain ⟨d, hd⟩ := hk.exists_composite hc
  obtain ⟨e'', hopen⟩ := (grown_after _ later).openPlace h.openPlace_after
  have hsame : e'' = e' := Option.some.inj ((openPlace_eq_ok_iff.mp hopen).1.symm.trans he')
  have hplace : last.openPlace a.id.place = .ok (e', .composite a.id.index) := by
    refine openPlace_eq_ok_iff.mpr ⟨by rw [hid]; exact he', ?_⟩
    refine EntityMapping.openComposite_eq_ok_iff.mpr ⟨b, d, ?_, hd, rfl⟩
    rw [EntityMapping.stored?_eq_some_iff, g.id, EntityMapping.id_withAttribute]
    exact ⟨congrArg AttributeId.entity h.id, hb⟩
  refine ⟨e', outer, b, d, hsame ▸ hopen, hplace, hb, hd, hk.name.trans ?_⟩
  exact (congrArg Content.name hcontent).symm

/-- After every run, a component has the path of its entity and its own name, wherever it was bound.
This is the path of the scope that it was bound in, followed by its name, if that is the scope of
the entity, and never if that is another composite. What is reported in the scope of the component,
a collection of another nature, a name that is taken or one that is taken over, is reported by that
path. Composites that were handed in need only have their names lead to their parts. -/
theorem component_path_iff (collisions : NameCollision) (verifying : Bool)
    (before later : List Command) (p : Place) (attr : SingleAttribute)
    (parentReference : Option SingleAttribute) (options : SingleOptions) (id : AttributeId)
    (hgiven : ∀ c ∈ before ++ .bindComponent p attr parentReference options :: later,
      ∀ a, c.Gives a → ∀ b, a.composite? = some b → b.Placed)
    (hanswer : (((fresh collisions verifying).after before).apply
      (.bindComponent p attr parentReference options)).answer = .ok (.mapped id)) :
    let last := (fresh collisions verifying).after
      (before ++ .bindComponent p attr parentReference options :: later)
    ∃ e outer inner base path, last.openPlace p = .ok (e, outer) ∧
      last.openPlace id.place = .ok (e, inner) ∧ e.scopePath outer = .ok base ∧
      e.scopePath inner = .ok path ∧ path = e.path ++ "." ++ attr.name ∧
      (path = base ++ "." ++ attr.name ↔ p.composite = none) ∧ e.Verdicts inner path ∧
      ∀ a, a.id = e.nextId → e.collision? inner path a.name = none →
        (e.register inner a).events =
          (if a.name ∈ e.namesIn inner then [.attributeReplaced e.id (path ++ "." ++ a.name)]
            else []) ++ [.attributeAdded e.id a.name a.kind] := by
  intro last
  have f : Forest ((fresh collisions verifying).after before) :=
    forest_after (forest_fresh collisions verifying) before
  have hlast : last = ((fresh collisions verifying).after before).after
      (.bindComponent p attr parentReference options :: later) := after_append _ _ _
  obtain ⟨e, outer, b, c, hopen, hinner, hb, hc, hname⟩ := component_later f later hanswer
  rw [← hlast] at hopen hinner
  obtain ⟨he, hs⟩ := openPlace_eq_ok_iff.mp hopen
  obtain ⟨base, hbase⟩ :=
    EntityMapping.WellStored.scopePath_eq_ok (EntityMapping.opens_of_openScope hs)
  have hpath : e.scopePath (.composite id.index) = .ok (e.path ++ "." ++ attr.name) := by
    rw [EntityMapping.scopePath_composite hb hc, hname]
  have hopens : e.Opens (.composite id.index) := ⟨b, c, hb, hc⟩
  have hplaced : e.PartsPlaced := partsPlaced_after collisions verifying hgiven p.entity e he
  refine ⟨e, outer, .composite id.index, base, e.path ++ "." ++ attr.name, hopen, hinner, hbase,
    hpath, rfl, ?_, hplaced.verdicts hpath hopens,
    fun a hid hfree => hplaced.events_register hpath hopens hid hfree⟩
  rw [EntityMapping.own_path_iff hbase, EntityMapping.eq_entity_iff_of_openScope hs]

/-- A place is bound in an address, and a latitude in the place. -/
def bindAddress : Command :=
  .bindComponent { entity := ⟨0⟩ } ⟨"address", false⟩ none {}

def bindPlace : Command :=
  .bindComponent { entity := ⟨0⟩, composite := some ⟨⟨0⟩, 0⟩ } ⟨"place", false⟩ none {}

def bindLatitude : Command :=
  .bindBasic { entity := ⟨0⟩, composite := some ⟨⟨0⟩, 1⟩ } ⟨"latitude", false⟩ [] {} .never

/-- A second latitude is refused under the path of the place. -/
theorem component_path_iff_nestedPlace :
    (((fresh .reject true).after [.addRoot .none .object, bindAddress]).apply bindPlace).answer =
        .ok (.mapped ⟨⟨0⟩, 1⟩) ∧
      ∃ e inner base path, ((fresh .reject true).after
          [.addRoot .none .object, bindAddress, bindPlace, bindLatitude]).entity? ⟨0⟩ = some e ∧
        e.openScope (some ⟨⟨0⟩, 0⟩) = .ok (.composite 0) ∧ e.scopePath (.composite 0) = .ok base ∧
        e.openScope (some ⟨⟨0⟩, 1⟩) = .ok inner ∧ e.scopePath inner = .ok path ∧
        path ≠ base ++ "." ++ "place" ∧
        (e.bindBasic inner ⟨"latitude", false⟩ [] {} .never).answer =
          .inconsistent (.nameTaken (path ++ "." ++ "latitude")) := by
  have hgiven : ∀ c ∈ [.addRoot .none .object, bindAddress] ++ bindPlace :: [bindLatitude],
      ∀ a, c.Gives a → ∀ b, a.composite? = some b → b.Placed := by
    rintro c hc a ⟨place, rfl⟩
    simp [bindAddress, bindPlace, bindLatitude] at hc
  have hanswer : (((fresh .reject true).after [.addRoot .none .object, bindAddress]).apply
      bindPlace).answer = .ok (.mapped ⟨⟨0⟩, 1⟩) := rfl
  obtain ⟨e, outer, inner, base, path, hopen, hinner, hbase, hpath, _, hiff, hverdicts, _⟩ :=
    component_path_iff .reject true [.addRoot .none .object, bindAddress] [bindLatitude] _ _ _ _
      ⟨⟨0⟩, 1⟩ hgiven hanswer
  obtain ⟨he, hs⟩ := openPlace_eq_ok_iff.mp hopen
  obtain ⟨_, hs'⟩ := openPlace_eq_ok_iff.mp hinner
  cases he
  cases hs
  cases hs'
  refine ⟨hanswer, _, _, base, path, rfl, rfl, hbase, rfl, hpath, ?_, hverdicts.basic _ _ _ _⟩
  exact fun heq => absurd (hiff.mp heq) (by simp)

/-- The place has not the path of a part of the address. -/
theorem skipped_path_nestedPlace :
    ∃ e, ((fresh .replace true).after
        [.addRoot .none .object, bindAddress, bindPlace]).entity? ⟨0⟩ = some e ∧
      e.scopePath (.composite 0) = .ok "EntityBindingId(0).address" ∧
      e.scopePath (.composite 1) = .ok "EntityBindingId(0).place" ∧
      "EntityBindingId(0).place" ≠ "EntityBindingId(0).address" ++ "." ++ "place" :=
  ⟨_, rfl, rfl, rfl, by decide⟩

end Model

end RelationalMapping
