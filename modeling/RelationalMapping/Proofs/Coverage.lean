import RelationalMapping.Proofs.Cycles
import RelationalMapping.Proofs.Inheritance

/-!
Where taken names are refused, nothing that is stored is lost from sight. A new attribute is listed
by its scope, which is the entity or a composite that is in sight already, and it takes nothing
over: no name and no part of a composite comes to lead elsewhere (`Covered.withAttribute`). So the
declared names of an entity, with the links from composites to their parts, lead to its whole store.
Where names may be taken over this fails: what had the name before is only stored.

* `Covered`: all of the store is in sight from the declared names.
* `verify_covers_stores`: what verification finds in order is everything, and what a reference leads
  to is in sight from the attributes of its target.
-/

namespace RelationalMapping

open Relation (ReflTransGen)

/-! ## New names -/

theorem CompositeBody.find?_positions_of_part? {c : CompositeBody} {name : String}
    (h : c.part? name = .ok none) : c.positions.find? name = none := by
  unfold part? at h
  cases hp : c.positions.find? name with
  | none => rfl
  | some i =>
    simp only [hp] at h
    cases hat : Answer.atIndex c.partIds i with
    | error fault =>
      rw [hat] at h
      cases h
    | ok id =>
      rw [hat] at h
      cases h

namespace EntityMapping

variable {e : EntityMapping} {scope : Scope} {a : AttributeMapping} {name : String}
  {replaced : Option String}

/-- Where taken names are refused, a name that is let in is new to its scope. -/
theorem lists_eq_false_of_takenOver (hc : e.collisions = .reject)
    (h : e.takenOver scope name = .ok replaced) : e.lists scope name = .ok false := by
  obtain ⟨hlists, hreplace⟩ := lists_of_takenOver h
  cases replaced with
  | none => exact hlists
  | some path => exact absurd (hc.symm.trans (hreplace rfl)) (by decide)

theorem find?_declared_of_lists (h : e.lists .entity name = .ok false) :
    e.declared.find? name = none := by
  have hnew : e.declared.contains name = false := Except.ok.inj h
  simpa [Roster.contains] using hnew

/-- Under a new name the composite keeps the parts that it has, and gets one more. -/
theorem partIds_withPart_of_lists {i : Nat} (h : e.lists (.composite i) name = .ok false)
    (ha : e.store[i]? = some a) (part : AttributeId) :
    (a.withPart name part).partIds = a.partIds ++ [part] := by
  obtain ⟨b, hb, hcomposite⟩ := Answer.bind_eq_ok_iff.mp h
  obtain ⟨c, hc, hpart⟩ := Answer.bind_eq_ok_iff.mp hcomposite
  obtain ⟨found, hfound, hnone⟩ := Answer.bind_eq_ok_iff.mp hpart
  have ha' : a = b := Option.some.inj (ha.symm.trans (Answer.atIndex_eq_ok_iff.mp hb))
  subst ha'
  have hc : a.composite? = some c := Answer.ofOption_eq_ok_iff.mp hc
  have hnew : c.positions.find? name = none := by
    cases found with
    | none => exact c.find?_positions_of_part? hfound
    | some id => cases hnone
  have hafter : (a.withPart name part).composite? = some (c.enterPart name part) := by
    simp [AttributeMapping.composite?_withPart, hc]
  rw [AttributeMapping.partIds_eq_of_composite? hafter,
    AttributeMapping.partIds_eq_of_composite? hc, CompositeBody.enterPart, hnew]

/-- A declared attribute is what its own name leads to. -/
theorem Indexed.exists_located (w : Indexed e) {j : Nat} (hj : j ∈ e.declared.values) :
    ∃ c, e.store[j]? = some c ∧ e.locate .entity c.name = .ok (some c) := by
  obtain ⟨name, hname⟩ := (Roster.mem_values_iff _ j).mp hj
  obtain ⟨c, hc, rfl⟩ := w.declared_name hname
  have hat : e.storedAt j = .ok c := Answer.atIndex_eq_ok_iff.mpr hc
  refine ⟨c, hc, ?_⟩
  simp only [locate, hname, hat, Except.map]

/-! ## In sight -/

/-- The attribute at `j` is a composite that has the one at `i` of the same store for a part. -/
def Contains (e : EntityMapping) (j i : Nat) : Prop :=
  ∃ a, e.store[j]? = some a ∧ ⟨e.id, i⟩ ∈ a.partIds

/-- Taken names are refused, and links to parts lead from the declared names to all that is
stored. -/
structure Covered (e : EntityMapping) : Prop where
  rejects : e.collisions = .reject
  inSight : ∀ i < e.store.length, ∃ j ∈ e.declared.values, ReflTransGen e.Contains j i

theorem Covered.of_empty (hs : e.store = []) (hc : e.collisions = .reject) : Covered e where
  rejects := hc
  inSight := by simp [hs]

theorem Covered.congr (v : Covered e) {e' : EntityMapping} (h : e.SameStore e') : Covered e' where
  rejects := h.collisions.trans v.rejects
  inSight := by
    have hlinks : e'.Contains = e.Contains := by
      funext j i
      simp only [Contains, h.id, h.store]
    rw [h.store, h.declared, hlinks]
    exact v.inSight

section

variable (hnew : e.lists scope a.name = .ok false)
include hnew

/-- No declaration is lost to a new name. -/
theorem mem_declared_of_lists {j : Nat} (hj : j ∈ e.declared.values) :
    j ∈ (e.withAttribute scope a).declared.values := by
  cases scope with
  | composite k => exact hj
  | entity =>
    obtain ⟨name, hname⟩ := (Roster.mem_values_iff _ j).mp hj
    have hne : name ≠ a.name := by
      rintro rfl
      rw [find?_declared_of_lists hnew] at hname
      cases hname
    refine (Roster.mem_values_iff _ j).mpr ⟨name, ?_⟩
    exact (Roster.find?_enter_of_ne _ _ hne).trans hname

/-- No part is lost to a new name. -/
theorem Contains.withAttribute {j i : Nat} (h : e.Contains j i) :
    (e.withAttribute scope a).Contains j i := by
  obtain ⟨b, hb, hi⟩ := h
  refine ⟨_, store_withAttribute_of_stored hb scope a, ?_⟩
  rw [id_withAttribute]
  split
  · rename_i hscope
    subst hscope
    rw [partIds_withPart_of_lists hnew hb]
    exact List.mem_append_left _ hi
  · exact hi

/-- The composite that the attribute is bound in has it for a part. -/
theorem contains_new {k : Nat} (hscope : scope = .composite k) (hopens : e.Opens scope)
    (hid : a.id = e.nextId) : (e.withAttribute scope a).Contains k e.store.length := by
  subst hscope
  obtain ⟨b, _, hb, _⟩ := hopens
  refine ⟨_, store_withAttribute_of_stored hb (.composite k) a, ?_⟩
  rw [if_pos rfl, partIds_withPart_of_lists hnew hb, id_withAttribute, hid]
  exact List.mem_append_right _ (List.mem_singleton.mpr rfl)

end

/-- What was in sight stays in sight, and the new attribute is seen from where its scope is. -/
theorem Covered.withAttribute (v : Covered e) (hid : a.id = e.nextId)
    (htaken : e.takenOver scope a.name = .ok replaced) : Covered (e.withAttribute scope a) where
  rejects := by
    cases scope <;> exact v.rejects
  inSight := by
    intro i hi
    have hnew : e.lists scope a.name = .ok false := lists_eq_false_of_takenOver v.rejects htaken
    have hlinks : ∀ k l, e.Contains k l → (e.withAttribute scope a).Contains k l :=
      fun _ _ h => h.withAttribute hnew
    have hold : ∀ k < e.store.length, ∃ j ∈ (e.withAttribute scope a).declared.values,
        ReflTransGen (e.withAttribute scope a).Contains j k := by
      intro k hk
      obtain ⟨j, hj, hpath⟩ := v.inSight k hk
      exact ⟨j, mem_declared_of_lists hnew hj, ReflTransGen.mono hlinks _ _ hpath⟩
    rw [length_store_withAttribute] at hi
    rcases Nat.lt_succ_iff_lt_or_eq.mp hi with hi | rfl
    · exact hold i hi
    cases hscope : scope with
    | entity =>
      refine ⟨e.store.length, (Roster.mem_values_iff _ _).mpr ⟨a.name, ?_⟩, .refl⟩
      simp only [EntityMapping.withAttribute, hid]
      exact Roster.find?_enter_self _ _ _
    | composite k =>
      have hopens : e.Opens scope := opens_of_takenOver htaken
      have hk : k < e.store.length := by
        obtain ⟨b, _, hb, _⟩ := hscope ▸ hopens
        exact (List.getElem?_eq_some_iff.mp hb).1
      obtain ⟨j, hj, hpath⟩ := hold k hk
      rw [← hscope]
      exact ⟨j, hj, hpath.tail (contains_new hnew hscope hopens hid)⟩

end EntityMapping

namespace Model

variable {m : Model} {x : EntityId} {e : EntityMapping} {log : List (Command × AttributeId)}

/-! ## Every run -/

theorem covered_after (verifying : Bool) (commands : List Command) :
    ∀ x e, ((fresh .reject verifying).after commands).entity? x = some e → e.Covered :=
  forall_entities_after (fun _ _ h v => v.congr h) (fun _ hs _ hc => .of_empty hs hc)
    (fun _ _ _ _ _ _ v hid _ htaken => v.withAttribute hid htaken) (by simp [fresh, entity?])

/-- Links within a store are links of the model. -/
theorem exists_declared_of_covered (he : m.entity? x = some e) (hx : e.id = x) (v : e.Covered)
    {i : Nat} (hi : i < e.store.length) :
    ∃ j ∈ e.declared.values, ReflTransGen m.PartLink ⟨x, j⟩ ⟨x, i⟩ := by
  obtain ⟨j, hj, hpath⟩ := v.inSight i hi
  refine ⟨j, hj, hpath.lift (AttributeId.mk x) fun k l ⟨a, ha, hl⟩ => ?_⟩
  exact ⟨a, attribute?_eq_some_iff.mpr ⟨e, he, ha⟩, hx ▸ hl⟩

/-- What links to parts lead to from a declared name is reached by verification. -/
theorem reaches_of_partLinks (he : m.entity? x = some e) {j : Nat} (hj : j ∈ e.declared.values)
    {id : AttributeId} (h : ReflTransGen m.PartLink ⟨x, j⟩ id) {a : AttributeMapping}
    (ha : m.attribute? id = some a) : m.Reaches e a := by
  induction h generalizing a with
  | refl =>
    obtain ⟨e', he', hstored⟩ := attribute?_eq_some_iff.mp ha
    rw [he] at he'
    cases he'
    exact .declared hj hstored
  | tail _ hlink ih =>
    obtain ⟨c, hc, hid⟩ := hlink
    exact .part (ih hc) hid ha

/-- All that is reached on a verified model is checked as deep as there are attributes. -/
theorem verifyAttribute_of_verify (hv : m.verify = .ok ()) (he : m.entity? x = some e)
    {id : AttributeId} {a : AttributeMapping} (ha : m.attribute? id = some a)
    (hr : m.Reaches e a) : m.verifyAttribute m.storeSize a = .ok () := by
  obtain ⟨_, hentities, _⟩ := Answer.bind_eq_ok_iff.mp hv
  have hentity : m.verifyEntity m.storeSize e = .ok () :=
    Answer.forM_eq_ok_iff.mp hentities e (List.mem_of_getElem? he)
  obtain ⟨d, hd⟩ := hr.exists_verifyAttribute hentity
  have hends : (m.verifyAttribute d a).Ends := by simp [Answer.Ends, hd]
  rw [verifyAttribute_storeSize ha hends, hd]

/-- What the target of a reference can see of declarations is in its closure. -/
theorem Recorded.exists_attributeClosure (r : Recorded m log) (fo : Forest m)
    (he : m.entity? x = some e) :
    ∃ closure, m.attributeClosure x = .ok closure ∧
      ∀ y f, m.entity? y = some f → m.Visible e y →
        ∀ name a, f.locate .entity name = .ok (some a) → a ∈ closure := by
  obtain ⟨up, t, ha, hd⟩ := r.exists_around fo he
  refine ⟨_, ha.attributeClosure_eq fo he hd, fun y f hf hvisible name a hlocate => ?_⟩
  have hlineage : f ∈ up.reverse ++ [e] := by
    rcases hvisible with hy | ⟨e', g, he', habove, hy⟩
    · rw [hy, fo.entity_id he, he] at hf
      cases hf
      simp
    · rw [fo.entity_id he, he] at he'
      cases he'
      have hg : f = g := by
        obtain ⟨p, hp⟩ := ha.lineage.exists_lookup g (ha.lineage.mem_iff.mpr habove)
        rw [← fo.entity_id hp, hy, hf] at hp
        exact Option.some.inj hp
      rw [hg]
      exact List.mem_append_left _ (List.mem_reverse.mpr (ha.lineage.mem_iff.mpr habove))
  have haround : f ∈ around e up t := by
    rw [around, List.append_cons]
    exact List.mem_append_left _ hlineage
  exact List.mem_flatMap.mpr ⟨f, hlineage, (hd f haround).mem_listing_of_locate hlocate⟩

/-- Links to parts lead from the closure of an entity to all that it can see. -/
theorem Recorded.closure_covers (r : Recorded m log) (fo : Forest m) (w : m.Indexed)
    (v : ∀ x e, m.entity? x = some e → e.Covered) (he : m.entity? x = some e)
    {id : AttributeId} (hid : (m.attribute? id).isSome) (hvisible : m.Visible e id.entity) :
    ∃ closure, m.attributeClosure x = .ok closure ∧
      ∃ c ∈ closure, m.attribute? c.id = some c ∧ ReflTransGen m.PartLink c.id id := by
  obtain ⟨closure, hclosure, hmem⟩ := r.exists_attributeClosure fo he
  obtain ⟨b, hb⟩ := Option.isSome_iff_exists.mp hid
  obtain ⟨f, hf, hstored⟩ := attribute?_eq_some_iff.mp hb
  have hi : id.index < f.store.length := (List.getElem?_eq_some_iff.mp hstored).1
  obtain ⟨j, hj, hpath⟩ := exists_declared_of_covered hf (fo.entity_id hf) (v _ f hf) hi
  obtain ⟨c, hc, hlocate⟩ := (w _ f hf).exists_located hj
  have hcid : c.id = ⟨id.entity, j⟩ := by rw [(w _ f hf).id_eq hc, fo.entity_id hf]
  refine ⟨closure, hclosure, c, hmem _ f hf hvisible _ c hlocate, ?_, hcid ▸ hpath⟩
  rw [hcid]
  exact attribute?_eq_some_iff.mpr ⟨f, hf, hc⟩

/-- After every run of a model that refuses taken names, links to parts lead from the declared names
of each entity to everything that it stores, so verification reaches all of it. If verification
accepts the model, the condition of its kind holds for every attribute that is stored, however
deeply it is nested, and what a reference leads to is in the closure of its target or a part of what
is there, at some depth. -/
theorem verify_covers_stores (verifying : Bool) (commands : List Command) :
    let m := (fresh .reject verifying).after commands
    (∀ x e, m.entity? x = some e → ∀ i a, e.store[i]? = some a →
      (∃ j ∈ e.declared.values, ReflTransGen m.PartLink ⟨x, j⟩ ⟨x, i⟩) ∧ m.Reaches e a) ∧
      (m.verify = .ok () →
        (∀ id a, m.attribute? id = some a →
          m.verifyAttribute m.storeSize a = .ok () ∧ m.Holds a) ∧
        ∀ id a r, m.attribute? id = some a → a.reference? = some r →
          ∃ closure, m.attributeClosure r.target = .ok closure ∧
            ∃ c ∈ closure, m.attribute? c.id = some c ∧
              ReflTransGen m.PartLink c.id r.targetAttribute) := by
  intro m
  have fo : Forest m := forest_after (forest_fresh .reject verifying) commands
  have hcovered : ∀ x e, m.entity? x = some e → e.Covered := covered_after verifying commands
  have hreached : ∀ x e, m.entity? x = some e → ∀ i a, e.store[i]? = some a →
      (∃ j ∈ e.declared.values, ReflTransGen m.PartLink ⟨x, j⟩ ⟨x, i⟩) ∧ m.Reaches e a := by
    intro x e he i a ha
    have hi : i < e.store.length := (List.getElem?_eq_some_iff.mp ha).1
    obtain ⟨j, hj, hpath⟩ := exists_declared_of_covered he (fo.entity_id he) (hcovered x e he) hi
    have hstored : m.attribute? ⟨x, i⟩ = some a := attribute?_eq_some_iff.mpr ⟨e, he, ha⟩
    exact ⟨⟨j, hj, hpath⟩, reaches_of_partLinks he hj hpath hstored⟩
  refine ⟨hreached, fun hv => ?_⟩
  have hchecked : ∀ id a, m.attribute? id = some a →
      m.verifyAttribute m.storeSize a = .ok () ∧ m.Holds a := by
    intro id a ha
    obtain ⟨e, he, hstored⟩ := attribute?_eq_some_iff.mp ha
    have hok : m.verifyAttribute m.storeSize a = .ok () :=
      verifyAttribute_of_verify hv he ha (hreached _ e he _ a hstored).2
    exact ⟨hok, holds_of_verifyAttribute hok⟩
  refine ⟨hchecked, fun id a r ha hr => ?_⟩
  obtain ⟨target, htarget, hattribute, hvisible⟩ :=
    (holds_reference_iff hr).mp (hchecked id a ha).2
  exact (recorded_after .reject verifying commands).closure_covers fo
    (indexed_after .reject verifying commands) hcovered htarget hattribute hvisible

/-- A composite in a composite with a part of its own, whose name is refused a second time, and a
virtual composite that groups the two. A reference inside a composite of the child leads to the
innermost part. -/
def guardedRun : List Command :=
  [.addRoot .joined .object,
    .addChild ⟨0⟩,
    .bindComponent { entity := ⟨0⟩ } ⟨"name", false⟩ none {},
    .bindComponent { entity := ⟨0⟩, composite := some ⟨⟨0⟩, 0⟩ } ⟨"legal", false⟩ none {},
    .bindBasic { entity := ⟨0⟩, composite := some ⟨⟨0⟩, 1⟩ } ⟨"code", false⟩ [] {} .never,
    .bindBasic { entity := ⟨0⟩, composite := some ⟨⟨0⟩, 1⟩ } ⟨"code", false⟩ [] {} .never,
    .bindVirtual ⟨0⟩ ⟨"pair", true⟩ [⟨⟨0⟩, 1⟩, ⟨⟨0⟩, 0⟩] none,
    .bindComponent { entity := ⟨1⟩ } ⟨"owner", false⟩ none {},
    .bindReference { entity := ⟨1⟩, composite := some ⟨⟨1⟩, 0⟩ } ⟨"guardian", false⟩ {} ⟨1⟩
      ⟨⟨0⟩, 2⟩ []]

/-- The reference leads to what the closure of its target does not list itself. -/
theorem verify_covers_stores_guardedRun :
    let m := (fresh .reject true).after guardedRun
    m.verify = .ok () ∧ ∃ closure, m.attributeClosure ⟨1⟩ = .ok closure ∧
      closure.map AttributeMapping.id = [⟨⟨0⟩, 0⟩, ⟨⟨0⟩, 3⟩, ⟨⟨1⟩, 0⟩] ∧
      ∃ c ∈ closure, ReflTransGen m.PartLink c.id ⟨⟨0⟩, 2⟩ := by
  intro m
  have hok : m.verify = .ok () := rfl
  obtain ⟨_, hverified⟩ := verify_covers_stores true guardedRun
  obtain ⟨_, hclosures⟩ := hverified hok
  obtain ⟨a, r, ha, hr, htarget, hattribute⟩ : ∃ a r, m.attribute? ⟨⟨1⟩, 1⟩ = some a ∧
      a.reference? = some r ∧ r.target = ⟨1⟩ ∧ r.targetAttribute = ⟨⟨0⟩, 2⟩ :=
    ⟨_, _, rfl, rfl, rfl, rfl⟩
  obtain ⟨closure, hclosure, c, hc, _, hpath⟩ := hclosures _ a r ha hr
  rw [htarget] at hclosure
  rw [hattribute] at hpath
  have hids : ∃ cs, m.attributeClosure ⟨1⟩ = .ok cs ∧
      cs.map AttributeMapping.id = [⟨⟨0⟩, 0⟩, ⟨⟨0⟩, 3⟩, ⟨⟨1⟩, 0⟩] := ⟨_, rfl, rfl⟩
  obtain ⟨cs, hcs, hids⟩ := hids
  rw [hclosure] at hcs
  cases hcs
  exact ⟨hok, closure, hclosure, hids, c, hc, hpath⟩

end Model

end RelationalMapping
