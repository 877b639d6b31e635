import Mathlib.Data.List.Nodup
import Mathlib.Data.List.Perm.Subperm
import RelationalMapping.Model.Lineage

/-!
Lineages as a relation, without a bound on the steps. A walk along parent links that comes to an
end never stands at one position twice, so it has no more steps than the model has entities
(`Path.length_le`), and the bounded walk finds what a walk of any length finds (`all_climb_of_ok`,
`any_climb_of_ok`).
-/

namespace RelationalMapping.Model

variable {m : Model}

/-- Following parent links from `o` to the first entity where `halt` holds. The positions on the
way are listed, that of this entity included. -/
inductive Path (m : Model) (halt : EntityMapping → Prop) : Option EntityId → List EntityId → Prop
  | here {p : EntityId} {e : EntityMapping} (he : m.entity? p = some e) (hh : halt e) :
      Path m halt (some p) [p]
  | up {p : EntityId} {e : EntityMapping} {ps : List EntityId} (he : m.entity? p = some e)
      (hh : ¬ halt e) (h : Path m halt e.parent ps) : Path m halt (some p) (p :: ps)

namespace Path

variable {halt : EntityMapping → Prop} {o : Option EntityId} {ps qs : List EntityId}

theorem unique (h : Path m halt o ps) (h' : Path m halt o qs) : ps = qs := by
  induction h generalizing qs with
  | here he hh =>
    cases h' with
    | here _ _ => rfl
    | up he' hh' _ =>
      rw [he] at he'
      cases he'
      exact absurd hh hh'
  | up he hh _ ih =>
    cases h' with
    | here he' hh' =>
      rw [he] at he'
      cases he'
      exact absurd hh' hh
    | up he' _ h' =>
      rw [he] at he'
      cases he'
      rw [ih h']

theorem lookup_mem (h : Path m halt o ps) : ∀ p ∈ ps, (m.entity? p).isSome := by
  induction h with
  | here he _ =>
    intro p hp
    rw [List.mem_singleton.mp hp, he]
    rfl
  | up he _ _ ih =>
    intro p hp
    rcases List.mem_cons.mp hp with rfl | hp
    · rw [he]
      rfl
    · exact ih p hp

/-- From each position on the way the rest of the path is no longer than the path. -/
theorem from_mem (h : Path m halt o ps) :
    ∀ p ∈ ps, ∃ qs, Path m halt (some p) qs ∧ qs.length ≤ ps.length := by
  induction h with
  | @here p _ he hh =>
    intro q hq
    rw [List.mem_singleton.mp hq]
    exact ⟨[p], .here he hh, Nat.le_refl _⟩
  | @up p _ ps he hh h ih =>
    intro q hq
    rcases List.mem_cons.mp hq with rfl | hq
    · exact ⟨q :: ps, .up he hh h, Nat.le_refl _⟩
    · obtain ⟨qs, hqs, hl⟩ := ih q hq
      exact ⟨qs, hqs, Nat.le_succ_of_le hl⟩

/-- No position comes twice: the path from there would be longer than itself. -/
theorem nodup (h : Path m halt o ps) : ps.Nodup := by
  induction h with
  | here _ _ => simp
  | up he hh h ih =>
    refine List.nodup_cons.mpr ⟨fun hp => ?_, ih⟩
    obtain ⟨qs, hqs, hl⟩ := h.from_mem _ hp
    rw [hqs.unique (.up he hh h)] at hl
    exact Nat.not_succ_le_self _ hl

end Path

theorem index_lt_of_entity? {x : EntityId} (h : (m.entity? x).isSome) :
    x.index < m.entities.length := by
  simpa [entity?] using h

/-- Distinct entities are no more than the model has. -/
theorem length_le_of_nodup {xs : List EntityId} (hn : xs.Nodup)
    (h : ∀ x ∈ xs, (m.entity? x).isSome) : xs.length ≤ m.entities.length := by
  have hinj : (xs.map EntityId.index).Nodup :=
    hn.map fun x y hxy => by cases x; cases y; simp_all
  have hsub : xs.map EntityId.index ⊆ List.range m.entities.length := by
    intro i hi
    obtain ⟨x, hx, rfl⟩ := List.mem_map.mp hi
    exact List.mem_range.mpr (index_lt_of_entity? (h x hx))
  simpa using (hinj.subperm hsub).length_le

theorem Path.length_le {halt : EntityMapping → Prop} {o : Option EntityId} {ps : List EntityId}
    (h : Path m halt o ps) : ps.length ≤ m.entities.length :=
  length_le_of_nodup h.nodup h.lookup_mem

/-- Following parent links from `o` up to the root meets the entities `up`. -/
inductive Lineage (m : Model) : Option EntityId → List EntityMapping → Prop
  | root : Lineage m none []
  | step {p : EntityId} {e : EntityMapping} {up : List EntityMapping}
      (he : m.entity? p = some e) (h : Lineage m e.parent up) : Lineage m (some p) (e :: up)

namespace Lineage

variable {o : Option EntityId} {up up' : List EntityMapping}

theorem unique (h : Lineage m o up) (h' : Lineage m o up') : up = up' := by
  induction h generalizing up' with
  | root =>
    cases h'
    rfl
  | step he _ ih =>
    cases h' with
    | step he' h' =>
      rw [he] at he'
      cases he'
      rw [ih h']

/-- A lineage is a path to an entity without a parent. -/
theorem path {p : EntityId} (h : Lineage m (some p) up) :
    ∃ ps, Path m (fun e => e.parent = none) (some p) ps ∧
      List.Forall₂ (fun p e => m.entity? p = some e) ps up := by
  generalize hp : some p = o at h
  induction h generalizing p with
  | root => cases hp
  | @step q e up he h ih =>
    cases hr : e.parent with
    | none =>
      rw [hr] at h
      cases h
      exact ⟨[q], .here he hr, .cons he .nil⟩
    | some r =>
      obtain ⟨ps, hps, hup⟩ := ih hr.symm
      exact ⟨q :: ps, .up he (by simp [hr]) (hr ▸ hps), .cons he hup⟩

theorem length_le (h : Lineage m o up) : up.length ≤ m.entities.length := by
  cases o with
  | none =>
    cases h
    exact Nat.zero_le _
  | some p =>
    obtain ⟨ps, hps, hup⟩ := h.path
    rw [← hup.length_eq]
    exact hps.length_le

theorem climb (h : Lineage m o up) {steps : Nat} (hs : up.length ≤ steps) :
    m.climb steps o = ⟨up, none⟩ := by
  induction h generalizing steps with
  | root => simp [Model.climb, Walk.done]
  | step he _ ih =>
    cases steps with
    | zero => simp at hs
    | succ steps =>
      simp only [Model.climb, he, ih (Nat.le_of_succ_le_succ hs)]
      rfl

end Lineage

theorem Lineage.exists_lookup {o : Option EntityId} {up : List EntityMapping}
    (h : Lineage m o up) : ∀ a ∈ up, ∃ p, m.entity? p = some a := by
  induction h with
  | root => simp
  | step he _ ih => exact List.forall_mem_cons.mpr ⟨⟨_, he⟩, ih⟩

theorem lineage_of_climb {steps : Nat} {o : Option EntityId} {up : List EntityMapping}
    (h : (m.climb steps o).all = .ok up) : Lineage m o up := by
  induction steps generalizing o up with
  | zero =>
    cases o with
    | none =>
      cases h
      exact .root
    | some p => cases h
  | succ steps ih =>
    cases o with
    | none =>
      cases h
      exact .root
    | some p =>
      cases he : m.entity? p with
      | none =>
        simp only [climb, he] at h
        cases h
      | some e =>
        simp only [climb, he, Walk.all_meet] at h
        cases hw : (m.climb steps e.parent).all with
        | error fault =>
          rw [hw] at h
          cases h
        | ok rest =>
          rw [hw] at h
          cases h
          exact .step he (ih hw)

/-- The ancestors are found exactly where the lineage comes to an end. -/
theorem all_ancestors_iff {x : EntityId} {up : List EntityMapping} :
    (m.ancestors x).all = .ok up ↔ ∃ e, m.entity? x = some e ∧ Lineage m e.parent up := by
  unfold ancestors
  cases he : m.entity? x with
  | none =>
    refine ⟨fun h => ?_, fun ⟨e, h, _⟩ => ?_⟩
    · cases h
    · cases h
  | some e =>
    refine ⟨fun h => ⟨e, rfl, lineage_of_climb h⟩, fun ⟨e', h, hl⟩ => ?_⟩
    cases h
    exact (Walk.all_eq_ok_iff _ _).mpr (by simp [hl.climb hl.length_le])

/-- The top is the last of the lineage, or the entity itself. -/
theorem top_of_lineage {x : EntityId} {e : EntityMapping} {up : List EntityMapping}
    (he : m.entity? x = some e) (h : Lineage m e.parent up) :
    m.top x = .ok ((up.getLast?.map EntityMapping.id).getD x) := by
  have ha : (m.ancestors x).all = .ok up := all_ancestors_iff.mpr ⟨e, he, h⟩
  simp only [top, ha]
  rfl

/-! ## The bound on the steps -/

/-- What a walk of any number of steps answers, the bounded one answers. -/
theorem all_climb_of_ok {steps : Nat} {o : Option EntityId} {up : List EntityMapping}
    (h : (m.climb steps o).all = .ok up) : (m.climb m.entities.length o).all = .ok up := by
  have hl : Lineage m o up := lineage_of_climb h
  exact (Walk.all_eq_ok_iff _ _).mpr (by simp [hl.climb hl.length_le])

theorem path_of_any_climb {p : EntityMapping → Bool} {steps : Nat} {o : Option EntityId}
    (h : (m.climb steps o).found.any p = true) : ∃ ps, Path m (fun e => p e = true) o ps := by
  induction steps generalizing o with
  | zero => cases o <;> simp [climb, Walk.done, Walk.broken] at h
  | succ steps ih =>
    cases o with
    | none => simp [climb, Walk.done] at h
    | some x =>
      cases he : m.entity? x with
      | none => simp [climb, he, Walk.broken] at h
      | some e =>
        by_cases hp : p e = true
        · exact ⟨[x], .here he hp⟩
        · simp only [climb, he, Walk.meet, List.any_cons, hp, Bool.false_or] at h
          obtain ⟨ps, hps⟩ := ih h
          exact ⟨x :: ps, .up he hp hps⟩

theorem Path.any_climb {p : EntityMapping → Bool} {o : Option EntityId} {ps : List EntityId}
    (h : Path m (fun e => p e = true) o ps) {steps : Nat} (hs : ps.length ≤ steps) :
    (m.climb steps o).found.any p = true := by
  induction h generalizing steps with
  | here he hh =>
    cases steps with
    | zero => simp at hs
    | succ steps => simp [climb, he, Walk.meet, hh]
  | up he _ _ ih =>
    cases steps with
    | zero => simp at hs
    | succ steps => simp [climb, he, Walk.meet, ih (Nat.le_of_succ_le_succ hs)]

/-- What a walk read up to the first entity of some kind answers after any number of steps, the
bounded one answers. -/
theorem any_climb_of_ok {p : EntityMapping → Bool} {steps : Nat} {o : Option EntityId} {b : Bool}
    (h : (m.climb steps o).any p = .ok b) : (m.climb m.entities.length o).any p = .ok b := by
  unfold Walk.any at h
  by_cases hf : (m.climb steps o).found.any p = true
  · obtain ⟨ps, hps⟩ := path_of_any_climb hf
    simp only [hf, if_true] at h
    simp only [Walk.any, hps.any_climb hps.length_le, if_true, h]
  · cases hs : (m.climb steps o).stop with
    | some fault => simp [hf, hs] at h
    | none =>
      have hall : (m.climb steps o).all = .ok (m.climb steps o).found :=
        (Walk.all_eq_ok_iff _ _).mpr ⟨hs, rfl⟩
      obtain ⟨hstop, hfound⟩ := (Walk.all_eq_ok_iff _ _).mp (all_climb_of_ok hall)
      simp only [hf, hs] at h
      simp only [Walk.any, hfound, hf, hstop]
      exact h

/-! ## Who is above -/

/-- Following parent links from `o` comes across `a`, whatever comes after it. -/
inductive Above (m : Model) : Option EntityId → EntityMapping → Prop
  | here {p : EntityId} {e : EntityMapping} (he : m.entity? p = some e) : Above m (some p) e
  | up {p : EntityId} {e a : EntityMapping} (he : m.entity? p = some e)
      (h : Above m e.parent a) : Above m (some p) a

/-- A lineage lists all who are above. -/
theorem Lineage.mem_iff {o : Option EntityId} {up : List EntityMapping} (h : Lineage m o up)
    {a : EntityMapping} : a ∈ up ↔ Above m o a := by
  constructor
  · intro ha
    induction h with
    | root => cases ha
    | step he _ ih =>
      rcases List.mem_cons.mp ha with rfl | ha
      · exact .here he
      · exact .up he (ih ha)
  · intro ha
    induction ha generalizing up with
    | here he =>
      cases h with
      | step he' _ =>
        rw [he] at he'
        cases he'
        exact List.mem_cons_self ..
    | up he _ ih =>
      cases h with
      | step he' h =>
        rw [he] at he'
        cases he'
        exact List.mem_cons_of_mem _ (ih h)

theorem Path.above {halt : EntityMapping → Prop} {o : Option EntityId} {ps : List EntityId}
    (h : Path m halt o ps) : ∃ a, Above m o a ∧ halt a := by
  induction h with
  | here he hh => exact ⟨_, .here he, hh⟩
  | up he _ _ ih =>
    obtain ⟨a, ha, hh⟩ := ih
    exact ⟨a, .up he ha, hh⟩

theorem Above.path (halt : EntityMapping → Prop) {o : Option EntityId} {a : EntityMapping}
    (h : Above m o a) (hh : halt a) : ∃ ps, Path m halt o ps := by
  induction h with
  | @here p _ he => exact ⟨[p], .here he hh⟩
  | @up p e a he _ ih =>
    by_cases hp : halt e
    · exact ⟨[p], .here he hp⟩
    · obtain ⟨ps, hps⟩ := ih hh
      exact ⟨p :: ps, .up he hp hps⟩

theorem any_ancestors_iff {x : EntityId} {p : EntityMapping → Bool} :
    (m.ancestors x).any p = .ok true ↔
      ∃ e a, m.entity? x = some e ∧ Above m e.parent a ∧ p a = true := by
  rw [Walk.any_eq_ok_true_iff]
  unfold ancestors
  cases he : m.entity? x with
  | none => simp [Walk.broken]
  | some e =>
    constructor
    · intro h
      obtain ⟨ps, hps⟩ := path_of_any_climb h
      obtain ⟨a, ha, hp⟩ := hps.above
      exact ⟨e, a, rfl, ha, hp⟩
    · rintro ⟨e', a, he', ha, hp⟩
      cases he'
      obtain ⟨ps, hps⟩ := Above.path (fun e => p e = true) ha hp
      exact hps.any_climb hps.length_le

end RelationalMapping.Model
