import Mathlib.Data.List.Nodup
import Mathlib.Data.List.Perm.Subperm
import Mathlib.Data.Nat.Init
import RelationalMapping.Model.Verification

/-!
The bound on the nesting of composites. The check of an attribute follows the parts of composites
to a given depth. Composites that need a depth of just `d` come in a chain, one for each smaller
depth, so they are `d` different attributes of the model: a check that ends at all ends at the
depth that verification goes to (`verify_eq_of_ends`).
-/

namespace RelationalMapping

namespace Answer

variable {α β : Type}

/-- The operation does not run in a circle. -/
def Ends (x : Answer α) : Prop := x ≠ .error (.breach .circular)

theorem Ends.of_bind {x : Answer α} {f : α → Answer β} (h : (x >>= f).Ends) : x.Ends := by
  intro hx
  exact h (bind_eq_error_iff.mpr (.inl hx))

/-- The second part matters only where the first succeeds. -/
theorem bind_congr_of_ends {x : Answer α} {f g : α → Answer β} (hf : (x >>= f).Ends)
    (h : ∀ a, x = .ok a → (f a).Ends → g a = f a) : x >>= g = x >>= f := by
  cases x with
  | error fault => rfl
  | ok a => exact h a rfl hf

theorem forM_congr_of_ends {as : List α} {f g : α → Answer Unit} (hf : (forM as f).Ends)
    (h : ∀ a ∈ as, (f a).Ends → g a = f a) : forM as g = forM as f := by
  induction as with
  | nil => rfl
  | cons a rest ih =>
    rw [List.forM_cons] at hf ⊢
    rw [List.forM_cons, h a (List.mem_cons_self ..) hf.of_bind]
    refine bind_congr_of_ends hf fun _ _ hrest => ?_
    exact ih hrest fun b hb => h b (List.mem_cons_of_mem _ hb)

end Answer

namespace Model

variable {m : Model} {a : AttributeMapping} {depth : Nat}

/-! ## More depth -/

/-- A check that ends stays the same one level deeper. -/
theorem verifyAttribute_succ (h : (m.verifyAttribute depth a).Ends) :
    m.verifyAttribute (depth + 1) a = m.verifyAttribute depth a := by
  induction depth generalizing a with
  | zero =>
    cases hc : a.composite? with
    | none => exact verifyAttribute_eq_of_single hc 1 0
    | some c =>
      rw [verifyAttribute_composite_zero hc] at h
      exact absurd rfl h
  | succ d ih =>
    cases hc : a.composite? with
    | none => exact verifyAttribute_eq_of_single hc _ _
    | some c =>
      rw [verifyAttribute_composite_succ hc] at h ⊢
      rw [verifyAttribute_composite_succ hc]
      exact Answer.forM_congr_of_ends h fun id _ hid =>
        Answer.bind_congr_of_ends hid fun b _ hb => ih hb

theorem verifyAttribute_of_le (h : (m.verifyAttribute depth a).Ends) {deeper : Nat}
    (hd : depth ≤ deeper) : m.verifyAttribute deeper a = m.verifyAttribute depth a := by
  induction deeper, hd using Nat.le_induction with
  | base => rfl
  | succ d _ ih => rw [verifyAttribute_succ (ih ▸ h), ih]

/-- The check of the attribute ends, but with no less depth than `depth + 1`. -/
structure Nested (m : Model) (depth : Nat) (a : AttributeMapping) : Prop where
  ends : (m.verifyAttribute (depth + 1) a).Ends
  circles : ¬ (m.verifyAttribute depth a).Ends

theorem Nested.le {other : Nat} (h : Nested m depth a) (h' : Nested m other a) :
    depth ≤ other := by
  refine Nat.le_of_not_lt fun hlt => h.circles ?_
  rw [verifyAttribute_of_le h'.ends hlt]
  exact h'.ends

/-- Of the parts of a composite one needs all the depth that is left. -/
theorem Nested.part (h : Nested m (depth + 1) a) :
    ∃ id b, m.attribute? id = some b ∧ Nested m depth b := by
  cases hc : a.composite? with
  | none => exact absurd (verifyAttribute_eq_of_single hc _ _ ▸ h.ends) h.circles
  | some c =>
    have hends := h.ends
    have hcircles := h.circles
    rw [verifyAttribute_composite_succ hc] at hends hcircles
    by_contra hnone
    -- else one level less would do for every part, and so for the composite
    refine hcircles ?_
    rw [Answer.forM_congr_of_ends hends fun id _ hid => ?_]
    · exact hends
    · refine Answer.bind_congr_of_ends hid fun b hb hend => ?_
      by_cases hless : (m.verifyAttribute depth b).Ends
      · exact (verifyAttribute_succ hless).symm
      · exact absurd ⟨id, b, Answer.require_eq_ok_iff.mp hb, hend, hless⟩ hnone

theorem Nested.exists_of_le {id : AttributeId} (h : Nested m depth a)
    (ha : m.attribute? id = some a) {k : Nat} (hk : k ≤ depth) :
    ∃ other b, m.attribute? other = some b ∧ Nested m k b := by
  induction depth generalizing id a with
  | zero => exact ⟨id, a, ha, Nat.le_zero.mp hk ▸ h⟩
  | succ d ih =>
    rcases Nat.lt_or_eq_of_le hk with hlt | rfl
    · obtain ⟨part, b, hb, hn⟩ := h.part
      exact ih hn hb (Nat.le_of_lt_succ hlt)
    · exact ⟨id, a, ha, h⟩

/-! ## The number of attributes -/

/-- Every id that names an attribute of the model. -/
def attributeIds (m : Model) : List AttributeId :=
  m.entities.zipIdx.flatMap fun p => (List.range p.1.store.length).map fun i => ⟨⟨p.2⟩, i⟩

theorem length_attributeIds (m : Model) : m.attributeIds.length = m.storeSize := by
  have hfst : (m.entities.zipIdx.map fun p => p.1.store.length) =
      (m.entities.zipIdx.map Prod.fst).map fun e => e.store.length := by
    rw [List.map_map]
    rfl
  simp only [attributeIds, storeSize, List.length_flatMap, List.length_map, List.length_range,
    hfst, List.zipIdx_map_fst]

theorem mem_attributeIds {id : AttributeId} (h : m.attribute? id = some a) :
    id ∈ m.attributeIds := by
  obtain ⟨e, he, ha⟩ := attribute?_eq_some_iff.mp h
  refine List.mem_flatMap.mpr ⟨(e, id.entity.index), ?_, ?_⟩
  · rw [List.mem_zipIdx_iff_getElem?]
    exact he
  · have hi : id.index < e.store.length := (List.getElem?_eq_some_iff.mp ha).1
    exact List.mem_map.mpr ⟨id.index, List.mem_range.mpr hi, rfl⟩

/-- Distinct attributes are no more than the model has. -/
theorem length_le_storeSize {ids : List AttributeId} (hn : ids.Nodup)
    (h : ∀ id ∈ ids, (m.attribute? id).isSome) : ids.length ≤ m.storeSize := by
  have hsub : ids ⊆ m.attributeIds := by
    intro id hid
    obtain ⟨a, ha⟩ := Option.isSome_iff_exists.mp (h id hid)
    exact mem_attributeIds ha
  rw [← length_attributeIds]
  exact (hn.subperm hsub).length_le

theorem exists_nested {least : Nat} (hl : ¬ (m.verifyAttribute least a).Ends)
    (hd : least ≤ depth) (h : (m.verifyAttribute depth a).Ends) :
    ∃ d, least ≤ d ∧ Nested m d a := by
  induction depth, hd using Nat.le_induction with
  | base => exact absurd h hl
  | succ d hle ih =>
    by_cases hless : (m.verifyAttribute d a).Ends
    · exact ih hless
    · exact ⟨d, hle, h, hless⟩

/-- The attributes of the chain are different ones, as they need different depths. -/
theorem Nested.lt_storeSize {id : AttributeId} (h : Nested m depth a)
    (ha : m.attribute? id = some a) : depth < m.storeSize := by
  have hchain : ∀ k : Fin (depth + 1), ∃ other b, m.attribute? other = some b ∧ Nested m k b :=
    fun k => h.exists_of_le ha (Nat.le_of_lt_succ k.isLt)
  choose pick part hpick hpart using hchain
  have hinj : Function.Injective pick := by
    intro j k hjk
    have hsame : part j = part k := Option.some.inj ((hpick j).symm.trans (hjk ▸ hpick k))
    exact Fin.ext (Nat.le_antisymm ((hpart j).le (hsame ▸ hpart k))
      ((hpart k).le (hsame ▸ hpart j)))
  have hnodup : ((List.finRange (depth + 1)).map pick).Nodup :=
    (List.nodup_finRange _).map hinj
  have hlen : ((List.finRange (depth + 1)).map pick).length ≤ m.storeSize := by
    refine length_le_storeSize hnodup fun other hother => ?_
    obtain ⟨k, _, rfl⟩ := List.mem_map.mp hother
    simp [hpick k]
  rwa [List.length_map, List.length_finRange] at hlen

/-- Where the check of a stored attribute ends at any depth, it ends alike with as much depth as
there are attributes. -/
theorem verifyAttribute_storeSize {id : AttributeId} (ha : m.attribute? id = some a)
    (h : (m.verifyAttribute depth a).Ends) :
    m.verifyAttribute m.storeSize a = m.verifyAttribute depth a := by
  rcases Nat.le_total depth m.storeSize with hd | hd
  · exact verifyAttribute_of_le h hd
  · have hends : (m.verifyAttribute m.storeSize a).Ends := by
      by_contra hcircles
      obtain ⟨d, hle, hn⟩ := exists_nested hcircles hd h
      exact Nat.not_lt_of_le hle (hn.lt_storeSize ha)
    exact (verifyAttribute_of_le hends hd).symm

theorem verifyEntity_storeSize {e : EntityMapping} (he : e ∈ m.entities)
    (h : (m.verifyEntity depth e).Ends) :
    m.verifyEntity m.storeSize e = m.verifyEntity depth e := by
  refine Answer.bind_congr_of_ends h fun _ _ h => Answer.bind_congr_of_ends h fun _ _ h => ?_
  refine Answer.forM_congr_of_ends h fun i _ h => Answer.bind_congr_of_ends h fun a ha h => ?_
  obtain ⟨x, hx⟩ := List.mem_iff_getElem?.mp he
  have hstored : m.attribute? ⟨⟨x⟩, i⟩ = some a :=
    attribute?_eq_some_iff.mpr ⟨e, hx, Answer.atIndex_eq_ok_iff.mp ha⟩
  exact verifyAttribute_storeSize hstored h

/-- Where verification ends at any depth, the bound on the depth makes no difference. -/
theorem verify_eq_of_ends (h : (m.verifyWithin depth).Ends) :
    m.verify = m.verifyWithin depth := by
  have hentities : forM m.entities (m.verifyEntity m.storeSize) =
      forM m.entities (m.verifyEntity depth) :=
    Answer.forM_congr_of_ends h.of_bind fun e he hend => verifyEntity_storeSize he hend
  simp only [verify, verifyWithin, List.forM_eq_forM, hentities]

end Model

end RelationalMapping
