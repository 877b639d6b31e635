import RelationalMapping.Proofs.Coherence
import RelationalMapping.Proofs.Cycles

/-!
How verification fails on a model of which little is known but that its links run in no cycle.
Whatever a link leads to is looked up by a check that reports what is missing, with one exception:
the walk up from the target of a reference takes it that every entity on the way is there.

* `breach_verify`: where verification breaks its terms, composites contain themselves or the check
  of a reference does.
* `verify_noBreach_or_strays`: without cycles the one cause left is a reference whose target has no
  whole line of ancestors.
-/

namespace RelationalMapping

namespace Model

variable {m : Model} {e : EntityMapping} {a : AttributeMapping}

/-! ## The checks that only report -/

theorem noBreach_verifyParent (m : Model) (e : EntityMapping) : (m.verifyParent e).NoBreach := by
  unfold verifyParent
  cases e.parent with
  | none => exact .of_ok ⟨(), rfl⟩
  | some p =>
    refine .bind (Answer.noBreach_require _ _) fun pe _ => ?_
    exact .bind (Answer.noBreach_ensure _ _) fun _ _ => Answer.noBreach_ensure _ _

theorem noBreach_verifyChildren (m : Model) (e : EntityMapping) :
    (m.verifyChildren e).NoBreach := by
  refine .forM fun c _ => ?_
  exact .bind (Answer.noBreach_require _ _) fun _ _ => Answer.noBreach_ensure _ _

theorem noBreach_verifyInverse (m : Model) (name : String) (i : InverseBody) :
    (m.verifyInverse name i).NoBreach :=
  .bind (Answer.noBreach_require _ _) fun _ _ => Answer.noBreach_ensure _ _

theorem noBreach_verifyHierarchy (m : Model) (h : Hierarchy) : (m.verifyHierarchy h).NoBreach := by
  have hversion : ∀ root : EntityMapping, Answer.NoBreach
      (h.settings.version.forM (m.verifyVersion root)) := by
    intro root
    cases h.settings.version with
    | none => exact .of_ok ⟨(), rfl⟩
    | some id => exact .bind (Answer.noBreach_require _ _) fun _ _ => Answer.noBreach_ensure _ _
  have hidentifier : Answer.NoBreach
      (h.settings.identifier.forM fun id => discard (m.requireAttribute "identifier" id)) := by
    cases h.settings.identifier with
    | none => exact .of_ok ⟨(), rfl⟩
    | some id => exact .map (Answer.noBreach_require _ _) _
  refine .bind (Answer.noBreach_require _ _) fun root _ => ?_
  exact .bind (Answer.noBreach_ensure _ _) fun _ _ => .bind hidentifier fun _ _ => hversion root

/-! ## The check of a reference -/

/-- The walk up from the target's own position comes to a position without an entity, and not to
`owner` before that. -/
def Loses (m : Model) (target : EntityMapping) (owner : EntityId) : Prop :=
  owner ≠ target.id ∧ (m.entity? target.id = none ∨
    ∃ e, m.entity? target.id = some e ∧ m.Strays (fun a => a.id = owner) e.parent)

theorem sees_eq_error (ha : Acyclic m.ParentLink) {target : EntityMapping} {id : AttributeId}
    {fault : Fault} (h : m.sees target id = .error fault) :
    fault = .breach .unknownEntity ∧ m.Loses target id.entity := by
  unfold sees at h
  split at h
  · cases h
  · rename_i hne
    obtain ⟨hfault, hs⟩ := strays_of_any_ancestors ha h
    exact ⟨hfault, hne, by simpa using hs⟩

/-- What is lost from a target cannot be seen from it. -/
theorem Loses.not_visible {target : EntityMapping} {owner : EntityId} (h : m.Loses target owner) :
    ¬ m.Visible target owner := by
  have strayed : ∀ {o : Option EntityId} {a : EntityMapping}, Above m o a → a.id = owner →
      ¬ m.Strays (fun a => a.id = owner) o := by
    intro o a habove hid hs
    induction habove with
    | here he =>
      cases hs with
      | missing hp =>
        rw [he] at hp
        cases hp
      | up he' hh _ =>
        rw [he] at he'
        cases he'
        exact hh hid
    | up he _ ih =>
      cases hs with
      | missing hp =>
        rw [he] at hp
        cases hp
      | up he' _ hs =>
        rw [he] at he'
        cases he'
        exact ih hid hs
  obtain ⟨hne, hmissing | ⟨e, he, hs⟩⟩ := h
  · rintro (heq | ⟨e, _, he, _⟩)
    · exact hne heq
    · rw [hmissing] at he
      cases he
  · rintro (heq | ⟨e', a, he', habove, hid⟩)
    · exact hne heq
    · rw [he] at he'
      cases he'
      exact strayed habove hid hs

/-- A reference to what its target loses: both are there, and so is the attribute, but the target
has no whole line of ancestors. -/
def IsStray (m : Model) (a : AttributeMapping) : Prop :=
  ∃ r target, a.body = .reference r ∧ m.entity? r.target = some target ∧
    (m.attribute? r.targetAttribute).isSome ∧ m.Loses target r.targetAttribute.entity

theorem IsStray.not_holds (h : m.IsStray a) : ¬ m.Holds a := by
  obtain ⟨r, target, hbody, htarget, _, hlost⟩ := h
  simp only [Holds, hbody]
  rintro ⟨target', htarget', _, hvisible⟩
  rw [htarget] at htarget'
  cases htarget'
  exact hlost.not_visible hvisible

theorem isStray_of_verifyReference (ha : Acyclic m.ParentLink) {r : ReferenceBody}
    (hbody : a.body = .reference r) {b : Breach}
    (h : m.verifyReference a.name r = .error (.breach b)) : b = .unknownEntity ∧ m.IsStray a := by
  rcases Answer.bind_eq_error_iff.mp h with h | ⟨target, htarget, h⟩
  · exact absurd h (Answer.noBreach_require _ _ b)
  rcases Answer.bind_eq_error_iff.mp h with h | ⟨found, hfound, h⟩
  · exact absurd h (Answer.noBreach_require _ _ b)
  rcases Answer.bind_eq_error_iff.mp h with h | ⟨seen, _, h⟩
  · obtain ⟨hfault, hlost⟩ := sees_eq_error ha h
    cases hfault
    have hsome : m.attribute? r.targetAttribute = some found := requireAttribute_eq_ok_iff.mp hfound
    exact ⟨rfl, r, target, hbody, Answer.require_eq_ok_iff.mp htarget, by simp [hsome], hlost⟩
  · exact absurd h (Answer.noBreach_ensure _ _ b)

/-! ## The attributes -/

/-- Of the attributes without parts, only references have a check that can break its terms. -/
theorem reference_of_breach {depth : Nat} {b : Breach} (hs : a.composite? = none)
    (h : m.verifyAttribute depth a = .error (.breach b)) :
    ∃ r, a.body = .reference r ∧ m.verifyReference a.name r = .error (.breach b) := by
  rw [verifyAttribute_eq_of_single hs depth 0] at h
  obtain ⟨id, name, body⟩ := a
  cases body with
  | basic _ => cases h
  | composite c => cases hs
  | reference r => exact ⟨r, rfl, h⟩
  | inverse i => exact absurd h (noBreach_verifyInverse m name i b)
  | collection c =>
    have hfound : Answer.NoBreach (m.requireAttribute name c.referenced >>= fun _ => .ok ()) :=
      .bind (Answer.noBreach_require _ _) fun _ _ => .of_ok ⟨(), rfl⟩
    exact absurd h (hfound b)

/-- Where the check of an attribute breaks its terms, there are parts of parts for as long as the
check follows them, or it is the check of a reference that does. The reference has whatever passes
from the attribute on to the parts of composites. -/
theorem breach_verifyAttribute {P : AttributeMapping → Prop}
    (hpass : ∀ {a b : AttributeMapping} {id : AttributeId}, P a → id ∈ a.partIds →
      m.attribute? id = some b → P b)
    {depth : Nat} {id : AttributeId} {b : Breach} (ha : m.attribute? id = some a) (hp : P a)
    (h : m.verifyAttribute depth a = .error (.breach b)) :
    (∃ ids : List AttributeId, ids.length = depth ∧ (id :: ids).IsChain m.PartLink ∧
      ∀ i ∈ id :: ids, (m.attribute? i).isSome) ∨
    ∃ c r, P c ∧ c.body = .reference r ∧ m.verifyReference c.name r = .error (.breach b) := by
  induction depth generalizing id a with
  | zero =>
    cases hc : a.composite? with
    | none =>
      obtain ⟨r, hbody, hbreach⟩ := reference_of_breach hc h
      exact .inr ⟨a, r, hp, hbody, hbreach⟩
    | some c => exact .inl ⟨[], rfl, .singleton id, by simp [ha]⟩
  | succ depth ih =>
    cases hc : a.composite? with
    | none =>
      obtain ⟨r, hbody, hbreach⟩ := reference_of_breach hc h
      exact .inr ⟨a, r, hp, hbody, hbreach⟩
    | some c =>
      rw [verifyAttribute_composite_succ hc] at h
      obtain ⟨part, hpart, h⟩ := Answer.exists_of_forM_eq_error h
      rcases Answer.bind_eq_error_iff.mp h with h | ⟨p, hreq, h⟩
      · exact absurd h (Answer.noBreach_require _ _ b)
      have hfound : m.attribute? part = some p := requireAttribute_eq_ok_iff.mp hreq
      rcases ih hfound (hpass hp hpart hfound) h with ⟨ids, hlen, hchain, hall⟩ | hbreach
      · refine .inl ⟨part :: ids, by rw [List.length_cons, hlen], ?_, ?_⟩
        · exact .cons_cons ⟨a, ha, hpart⟩ hchain
        · exact List.forall_mem_cons.mpr ⟨by simp [ha], hall⟩
      · exact .inr hbreach

/-- Where neither parents nor composites lead back to themselves, following the parts of a stored
attribute comes to an end within as many steps as there are attributes. -/
theorem ends_verifyAttribute (hparents : Acyclic m.ParentLink) (hparts : Acyclic m.PartLink)
    {id : AttributeId} (ha : m.attribute? id = some a) :
    (m.verifyAttribute m.storeSize a).Ends := by
  intro h
  rcases breach_verifyAttribute (P := fun _ => True) (fun _ _ _ => trivial) ha trivial h with
    ⟨ids, hlen, hchain, hall⟩ | ⟨c, r, _, hbody, hbreach⟩
  · -- the chain has one attribute more than there are
    have hle : (id :: ids).length ≤ m.storeSize := length_le_of_partLinks hparts hchain hall
    rw [List.length_cons] at hle
    omega
  · obtain ⟨hcircular, _⟩ := isStray_of_verifyReference hparents hbody hbreach
    cases hcircular

/-! ## The whole model -/

/-- The names declared on an entity lead into its own store. -/
def DeclaresStored (m : Model) : Prop :=
  ∀ e ∈ m.entities, ∀ i ∈ e.declared.values, i < e.store.length

instance (m : Model) : Decidable m.DeclaresStored :=
  inferInstanceAs (Decidable (∀ e ∈ m.entities, ∀ i ∈ e.declared.values, i < e.store.length))

/-- Where composites do not contain themselves, a breach comes from the check of a reference. -/
theorem breach_verify (hparts : Acyclic m.PartLink) (hd : m.DeclaresStored) {b : Breach}
    (h : m.verify = .error (.breach b)) :
    ∃ e ∈ m.entities, ∃ a r, m.Reaches e a ∧ a.body = .reference r ∧
      m.verifyReference a.name r = .error (.breach b) := by
  rcases Answer.bind_eq_error_iff.mp h with h | ⟨_, _, h⟩
  · obtain ⟨e, he, h⟩ := Answer.exists_of_forM_eq_error h
    rcases Answer.bind_eq_error_iff.mp h with h | ⟨_, _, h⟩
    · exact absurd h (noBreach_verifyParent m e b)
    rcases Answer.bind_eq_error_iff.mp h with h | ⟨_, _, h⟩
    · exact absurd h (noBreach_verifyChildren m e b)
    obtain ⟨i, hi, h⟩ := Answer.exists_of_forM_eq_error h
    obtain ⟨a, hstored⟩ : ∃ a, e.store[i]? = some a :=
      ⟨_, List.getElem?_eq_getElem (hd e he i hi)⟩
    have hat : e.storedAt i = .ok a := Answer.atIndex_eq_ok_iff.mpr hstored
    rw [hat] at h
    obtain ⟨x, hx⟩ := List.mem_iff_getElem?.mp he
    have ha : m.attribute? ⟨⟨x⟩, i⟩ = some a :=
      attribute?_eq_some_iff.mpr ⟨e, hx, hstored⟩
    rcases breach_verifyAttribute (P := m.Reaches e) .part ha (.declared hi hstored) h with
      ⟨ids, hlen, hchain, hall⟩ | hr
    · -- the chain has one attribute more than there are
      have hle := length_le_of_partLinks hparts hchain hall
      rw [List.length_cons, hlen] at hle
      exact absurd hle (Nat.not_succ_le_self _)
    · exact ⟨e, he, hr⟩
  · obtain ⟨k, _, h⟩ := Answer.exists_of_forM_eq_error h
    exact absurd h (noBreach_verifyHierarchy m k b)

/-- Some entity has, or has among the parts of its composites, a reference that strays. -/
def HasStray (m : Model) : Prop := ∃ e ∈ m.entities, ∃ a, m.Reaches e a ∧ m.IsStray a

/-- However broken its links are, if those to parents and to parts run in no cycle, then
verification accepts a model or reports an inconsistency, unless some reference strays: its target
is there, but on the way up from it an entity is missing. A model with such a reference is never
accepted, and verification may fail on it by asking for the missing entity. -/
theorem verify_noBreach_or_strays (m : Model) (hparents : Acyclic m.ParentLink)
    (hparts : Acyclic m.PartLink) (hd : m.DeclaresStored) :
    (m.verify.NoBreach ∨ m.verify = .error (.breach .unknownEntity) ∧ m.HasStray) ∧
      (m.HasStray → m.verify ≠ .ok ()) := by
  constructor
  · by_cases hn : m.verify.NoBreach
    · exact .inl hn
    · obtain ⟨b, hb⟩ : ∃ b, m.verify = .error (.breach b) := by simpa [Answer.NoBreach] using hn
      obtain ⟨e, he, a, r, hr, hbody, hbreach⟩ := breach_verify hparts hd hb
      obtain ⟨rfl, hstray⟩ := isStray_of_verifyReference hparents hbody hbreach
      exact .inr ⟨hb, e, he, a, hr, hstray⟩
  · rintro ⟨e, he, a, hr, hstray⟩ hok
    exact hstray.not_holds ((Coherent.of_verifyWithin hok).attributes e he a hr)

/-- A reference to a child whose parent was exchanged for an entity of another model, with a parent
that is not there. The reference is checked before the parent's own links are. -/
def strayTarget : Model :=
  ((fresh .replace true).after
    [.addRoot .joined .object,
      .addRoot .joined .object,
      .addChild ⟨1⟩,
      .bindBasic { entity := ⟨0⟩ } ⟨"key", false⟩ [] {} .never,
      .bindReference { entity := ⟨0⟩ } ⟨"friend", false⟩ {} ⟨2⟩ ⟨⟨0⟩, 0⟩ []]).putEntity ⟨1⟩
    { id := ⟨5⟩, parent := some ⟨4⟩, hierarchy := ⟨4⟩, collisions := .replace }

theorem strayTarget_acyclic :
    Acyclic strayTarget.ParentLink ∧ Acyclic strayTarget.PartLink ∧
      strayTarget.DeclaresStored := by
  refine ⟨.of_rank (fun x => if x.index ≤ 2 then x.index else 0) ?_, .of_rank (fun _ => 0) ?_, ?_⟩
  · rintro ⟨i⟩ p ⟨e, he, hp⟩
    match i with
    | 0 =>
      cases he
      cases hp
    | 1 =>
      cases he
      cases hp
      decide
    | 2 =>
      cases he
      cases hp
      decide
    | i + 3 => cases he
  · rintro ⟨⟨x⟩, i⟩ b ⟨c, hc, hb⟩
    match x, i with
    | 0, 0 =>
      cases hc
      cases hb
    | 0, 1 =>
      cases hc
      cases hb
    | 0, i + 2 => cases hc
    | 1, _ => cases hc
    | 2, _ => cases hc
    | x + 3, _ => cases hc
  · decide

theorem verify_strayTarget :
    Acyclic strayTarget.ParentLink ∧ Acyclic strayTarget.PartLink ∧ strayTarget.DeclaresStored ∧
      strayTarget.HasStray ∧ strayTarget.verify ≠ .ok () := by
  obtain ⟨hparents, hparts, hd⟩ := strayTarget_acyclic
  obtain ⟨hn | ⟨_, hstray⟩, hrefused⟩ := verify_noBreach_or_strays strayTarget hparents hparts hd
  · exact absurd rfl (hn .unknownEntity)
  · exact ⟨hparents, hparts, hd, hstray, hrefused hstray⟩

/-- That links run in no cycle is not enough for verification to give an answer or a report. -/
theorem breach_strayTarget :
    Acyclic strayTarget.ParentLink ∧ Acyclic strayTarget.PartLink ∧ strayTarget.DeclaresStored ∧
      strayTarget.verify = .error (.breach .unknownEntity) := by
  obtain ⟨hparents, hparts, hd⟩ := strayTarget_acyclic
  exact ⟨hparents, hparts, hd, rfl⟩

end Model

end RelationalMapping
