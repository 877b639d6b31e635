import RelationalMapping.Proofs.Breaches
import RelationalMapping.Proofs.Enrolment
import RelationalMapping.Proofs.Verified

/-!
Composites within composites. Links to parts point both ways through a store: a virtual composite
groups what was stored before it, and what is bound in the scope of a composite is stored after it.
So no order of the store ranks them. What keeps them from closing a circle is that no attribute
comes in both ways at once: one that brings parts along is bound on the entity itself, and so it is
a part of nothing yet (`Builds.partIds_eq_nil`).

* `WellNested.step`: no command that hands in no composite closes a circle.
* `nesting_wellFounded`: the whole run, and what follows for verification.
-/

namespace RelationalMapping

/-- What is bound in the scope of a composite has no parts yet. -/
theorem EntityMapping.Builds.partIds_eq_nil {e : EntityMapping} {i : Nat} {a : AttributeMapping}
    (h : e.Builds (.composite i) a) : a.partIds = [] := by
  cases h with
  | plain hbody =>
    rw [List.eq_nil_iff_forall_not_mem]
    intro part hpart
    obtain ⟨c, hc⟩ := AttributeMapping.composite_of_mem_partIds hpart
    rw [hbody] at hc
    cases hc
  | component hbody hparts _ => simp only [AttributeMapping.partIds, hbody, hparts]

namespace Model

variable {m : Model} {given : AttributeMapping → Prop} {o : Outcome Model Reply}

/-- Composites have their parts in the store of their entity, and none contains itself. -/
structure WellNested (m : Model) : Prop where
  forest : Forest m
  stored : m.WellStored
  parts : Acyclic m.PartLink

namespace WellNested

theorem fresh (collisions : NameCollision) (verifying : Bool) :
    WellNested (Model.fresh collisions verifying) where
  forest := forest_fresh collisions verifying
  stored := wellStored_fresh collisions verifying
  parts := .of_rank (fun _ => 0) (by simp [PartLink, attribute?, Model.fresh, entity?])

/-- Whatever a composite lists is there. -/
theorem isSome_part (n : WellNested m) {u v : AttributeId} (h : m.PartLink u v) :
    (m.attribute? v).isSome := by
  obtain ⟨c, hc, hv⟩ := h
  obtain ⟨e, he, hstored⟩ := attribute?_eq_some_iff.mp hc
  exact isSome_of_fits he (n.forest.entity_id he) ((n.stored _ e he).fits hstored) v hv

/-- The links after a command are those before it, or there is one more attribute; and that one has
parts only where nothing has it for a part. -/
theorem acyclic_step (n : WellNested m) (hg : ∀ a, given a → a.composite? = none)
    (h : m.Step given o) : Acyclic o.state.PartLink := by
  cases step_stores h with
  | kept hsame _ => exact n.parts.mono fun _ _ hlink => hsame.partLink hlink
  | @enrolled x e scope a _ he hid hmade htaken hstate _ =>
    have hx : e.id = x := n.forest.entity_id he
    have hbuilt : e.Builds scope a := hmade.elim id fun hgiven => .plain (hg a hgiven)
    have hnew : ∀ v ∈ a.partIds, (m.attribute? v).isSome := isSome_of_fits he hx hbuilt.fits
    have hopens : e.Opens scope := EntityMapping.opens_of_takenOver htaken
    rw [hstate]
    refine acyclic_withAttribute he hx hid n.parts (fun _ _ => n.isSome_part) hnew hopens ?_
    rintro i rfl part hpart
    rw [hbuilt.partIds_eq_nil] at hpart
    cases hpart

theorem step (n : WellNested m) (hg : ∀ a, given a → a.composite? = none) (h : m.Step given o) :
    WellNested o.state where
  forest := forest_step n.forest h
  stored := wellStored_step hg n.stored h
  parts := n.acyclic_step hg h

theorem after {commands : List Command} (n : WellNested m)
    (hc : ∀ c ∈ commands, ∀ a, c.Gives a → a.composite? = none) :
    WellNested (m.after commands) :=
  after_induction n fun c hmem _ _ hn hs => hn.step (hc c hmem) hs

/-- Declared names lead into the store. -/
theorem declaresStored (n : WellNested m) : m.DeclaresStored := by
  intro e he i hi
  obtain ⟨x, hx⟩ := List.mem_iff_getElem?.mp he
  obtain ⟨name, hname⟩ := (e.declared.mem_values_iff i).mp hi
  obtain ⟨a, ha, _⟩ := (n.stored ⟨x⟩ e hx).declared_name hname
  exact (List.getElem?_eq_some_iff.mp ha).1

/-- Verification comes to an end: the checks that follow no parts do, and so does each check of a
reference, since no way up is a circle. -/
theorem ends_verify (n : WellNested m) : m.verify.Ends := by
  intro h
  obtain ⟨_, _, a, r, _, hbody, hbreach⟩ := breach_verify n.parts n.declaresStored h
  obtain ⟨hcircular, _⟩ := isStray_of_verifyReference n.forest.acyclic_parentLink hbody hbreach
  cases hcircular

end WellNested

/-- After every run in which no composite is handed in ready made, no composite contains itself,
however composites were nested, grouped and added to: going from composites to their parts is well
founded. So verification ends, and following the parts of an attribute to the depth that
verification goes to is following them to the end: more depth changes nothing. -/
theorem nesting_wellFounded (collisions : NameCollision) (verifying : Bool)
    (commands : List Command) (hgiven : ∀ c ∈ commands, ∀ a, c.Gives a → a.composite? = none) :
    let m := (fresh collisions verifying).after commands
    Acyclic m.PartLink ∧ WellFounded (fun part whole => m.PartLink whole part) ∧
      m.verify.Ends ∧
      ∀ id a, m.attribute? id = some a → (m.verifyAttribute m.storeSize a).Ends ∧
        ∀ depth, m.storeSize ≤ depth →
          m.verifyAttribute depth a = m.verifyAttribute m.storeSize a := by
  intro m
  have n : WellNested m := (WellNested.fresh collisions verifying).after hgiven
  refine ⟨n.parts, wellFounded_partLink n.parts, n.ends_verify, fun id a ha => ?_⟩
  have hends : (m.verifyAttribute m.storeSize a).Ends :=
    ends_verifyAttribute n.forest.acyclic_parentLink n.parts ha
  exact ⟨hends, fun _ hdeep => verifyAttribute_of_le hends hdeep⟩

/-- A composite in a composite, a virtual composite that groups the two, and another one that groups
the virtual one. Then there comes a part to the innermost composite, and to the virtual one that is
grouped already comes a composite with a part of its own. -/
def regroupingRun : List Command :=
  [.addRoot .none .object,
    .bindComponent { entity := ⟨0⟩ } ⟨"name", false⟩ none {},
    .bindComponent { entity := ⟨0⟩, composite := some ⟨⟨0⟩, 0⟩ } ⟨"legal", false⟩ none {},
    .bindVirtual ⟨0⟩ ⟨"key", true⟩ [⟨⟨0⟩, 0⟩, ⟨⟨0⟩, 1⟩] none,
    .bindVirtual ⟨0⟩ ⟨"index", true⟩ [⟨⟨0⟩, 2⟩, ⟨⟨0⟩, 0⟩] none,
    .bindBasic { entity := ⟨0⟩, composite := some ⟨⟨0⟩, 1⟩ } ⟨"first", false⟩ [] {} .never,
    .bindComponent { entity := ⟨0⟩, composite := some ⟨⟨0⟩, 2⟩ } ⟨"suffix", false⟩ none {},
    .bindBasic { entity := ⟨0⟩, composite := some ⟨⟨0⟩, 5⟩ } ⟨"roman", false⟩ [] {} .never]

/-- Links from the virtual composite lead back to the first place and on to a later one. -/
theorem nesting_wellFounded_regroupingRun :
    let m := (fresh .replace true).after regroupingRun
    (∀ c ∈ regroupingRun, ∀ a, c.Gives a → a.composite? = none) ∧
      m.PartLink ⟨⟨0⟩, 2⟩ ⟨⟨0⟩, 0⟩ ∧ m.PartLink ⟨⟨0⟩, 2⟩ ⟨⟨0⟩, 5⟩ ∧ Acyclic m.PartLink ∧
      ∃ a, m.attribute? ⟨⟨0⟩, 3⟩ = some a ∧
        m.verifyAttribute 100 a = m.verifyAttribute m.storeSize a := by
  intro m
  have hgiven : ∀ c ∈ regroupingRun, ∀ a, c.Gives a → a.composite? = none := by
    rintro c hc a ⟨place, rfl⟩
    simp [regroupingRun] at hc
  have hlisted : ∃ c, m.attribute? ⟨⟨0⟩, 2⟩ = some c ∧
      c.partIds = [⟨⟨0⟩, 0⟩, ⟨⟨0⟩, 1⟩, ⟨⟨0⟩, 5⟩] := ⟨_, rfl, rfl⟩
  obtain ⟨c, hc, hparts⟩ := hlisted
  obtain ⟨hacyclic, _, _, hends⟩ := nesting_wellFounded .replace true regroupingRun hgiven
  refine ⟨hgiven, ⟨c, hc, by simp [hparts]⟩, ⟨c, hc, by simp [hparts]⟩, hacyclic, _, rfl, ?_⟩
  exact (hends ⟨⟨0⟩, 3⟩ _ rfl).2 100 (by decide)

end Model

end RelationalMapping
