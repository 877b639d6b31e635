import Mathlib.Data.List.Chain
import Mathlib.Data.List.Range
import Mathlib.Logic.Relation
import Mathlib.Order.WellFounded
import RelationalMapping.Proofs.Lineage
import RelationalMapping.Proofs.Nesting

/-!
Links without a cycle. A chain of such links stands nowhere twice (`Acyclic.nodup_of_isChain`), so
it is no longer than there are places to stand at, and what follows the links of a model stays
within its bound. Parent links: a walk up ends at a root, or it strays to a position without an
entity (`lineage_or_strays`, `strays_of_any_ancestors`). Links to the parts of composites: no chain
is longer than there are attributes (`length_le_of_partLinks`), so recursion along them is well
founded (`wellFounded_partLink`).
-/

namespace RelationalMapping

/-- Following links never leads back to where it began. -/
def Acyclic {α : Type} (link : α → α → Prop) : Prop := ∀ a, ¬ Relation.TransGen link a a

namespace Acyclic

variable {α : Type} {link : α → α → Prop}

theorem nodup_of_isChain (h : Acyclic link) {as : List α} (hc : as.IsChain link) : as.Nodup := by
  have hfar : as.Pairwise (Relation.TransGen link) :=
    List.isChain_iff_pairwise.mp (hc.imp fun _ _ hab => .single hab)
  refine hfar.imp fun {a b} hab heq => ?_
  subst heq
  exact h a hab

/-- Fewer links make no cycle. -/
theorem mono (h : Acyclic link) {fewer : α → α → Prop} (hle : ∀ a b, fewer a b → link a b) :
    Acyclic fewer :=
  fun a hcycle => h a (Relation.TransGen.mono hle a a hcycle)

/-- Where each link leads to a smaller rank, none leads back. -/
theorem of_rank (rank : α → Nat) (h : ∀ a b, link a b → rank b < rank a) : Acyclic link := by
  have hfar : ∀ a b, Relation.TransGen link a b → rank b < rank a := by
    intro a b hab
    induction hab with
    | single hlink => exact h _ _ hlink
    | tail _ hlink ih => exact Nat.lt_trans (h _ _ hlink) ih
  intro a haa
  exact Nat.lt_irrefl _ (hfar a a haa)

section Insert

variable {wider : α → α → Prop} {new : α}
  (hold : ∀ a b, wider a b → a ≠ new → b ≠ new → link a b)
include hold

/-- After the last time that a way stood at the new place, its links are old ones. -/
theorem exists_old_of_transGen {b : α} (h : Relation.TransGen wider new b) (hb : b ≠ new) :
    ∃ a, wider new a ∧ Relation.ReflTransGen link a b := by
  induction h with
  | single h => exact ⟨_, h, .refl⟩
  | @tail c d _ hcd ih =>
    by_cases hc : c = new
    · exact ⟨d, hc ▸ hcd, .refl⟩
    · obtain ⟨a, ha, hac⟩ := ih hc
      exact ⟨a, ha, hac.tail (hold c d hcd hc hb)⟩

/-- A way over old and new links stands at the new place, or all of its links are old ones. -/
theorem through_or_old {a b : α} (h : Relation.TransGen wider a b) (ha : a ≠ new) :
    Relation.TransGen wider a new ∧ Relation.ReflTransGen wider new b ∨
      b ≠ new ∧ Relation.TransGen link a b := by
  induction h with
  | @single b h =>
    by_cases hb : b = new
    · subst hb
      exact .inl ⟨.single h, .refl⟩
    · exact .inr ⟨hb, .single (hold a b h ha hb)⟩
  | @tail c d hac hcd ih =>
    rcases ih with ⟨hto, hfrom⟩ | ⟨hc, hlink⟩
    · exact .inl ⟨hto, hfrom.tail hcd⟩
    · by_cases hd : d = new
      · subst hd
        exact .inl ⟨hac.tail hcd, .refl⟩
      · exact .inr ⟨hd, hlink.tail (hold c d hcd hc hd)⟩

/-- With one new place there is no cycle either, if from where it links to nothing led back to
what links to it. -/
theorem insert (h : Acyclic link)
    (hnew : ∀ a b, wider a new → wider new b → ¬ Relation.ReflTransGen link b a) :
    Acyclic wider := by
  have haround : ¬ Relation.TransGen wider new new := by
    intro hcycle
    cases hcycle with
    | single hself => exact hnew new new hself hself .refl
    | @tail a _ hto hlast =>
      by_cases ha : a = new
      · subst ha
        exact hnew _ _ hlast hlast .refl
      · obtain ⟨b, hb, hba⟩ := exists_old_of_transGen hold hto ha
        exact hnew a b hlast hb hba
  intro a hcycle
  by_cases ha : a = new
  · subst ha
    exact haround hcycle
  · rcases through_or_old hold hcycle ha with ⟨hto, hfrom⟩ | ⟨_, hlink⟩
    · exact haround (.trans_right hfrom hto)
    · exact h a hlink

end Insert

end Acyclic

namespace Model

variable {m : Model}

/-! ## Parent links -/

/-- The entity at `x` has the one at `p` for its parent, whether that is there or not. -/
def ParentLink (m : Model) (x p : EntityId) : Prop :=
  ∃ e, m.entity? x = some e ∧ e.parent = some p

/-- Following parent links from `o` comes to a position without an entity, and to no entity where
`halt` holds before that. -/
inductive Strays (m : Model) (halt : EntityMapping → Prop) : Option EntityId → Prop
  | missing {p : EntityId} (hp : m.entity? p = none) : Strays m halt (some p)
  | up {p : EntityId} {e : EntityMapping} (he : m.entity? p = some e) (hh : ¬ halt e)
      (h : Strays m halt e.parent) : Strays m halt (some p)

/-- The last link on such a way dangles. -/
theorem Strays.exists_dangling {halt : EntityMapping → Prop} {x : EntityId} {e : EntityMapping}
    (he : m.entity? x = some e) (h : m.Strays halt e.parent) :
    ∃ y p, m.ParentLink y p ∧ m.entity? p = none := by
  generalize ho : e.parent = o at h
  induction h generalizing x e with
  | @missing p hp => exact ⟨x, p, ⟨e, he, ho⟩, hp⟩
  | up hf _ _ ih => exact ih hf rfl

/-- A walk that uses up its steps has stood at one more position for each of them. -/
theorem chain_of_climb {x : EntityId} {e : EntityMapping} (he : m.entity? x = some e)
    {steps : Nat} (h : (m.climb steps e.parent).stop = some (.breach .circular)) :
    ∃ ps : List EntityId, ps.length = steps ∧ (x :: ps).IsChain m.ParentLink ∧
      ∀ p ∈ x :: ps, (m.entity? p).isSome := by
  induction steps generalizing x e with
  | zero => exact ⟨[], rfl, .singleton x, by simp [he]⟩
  | succ steps ih =>
    cases hp : e.parent with
    | none =>
      rw [hp] at h
      cases h
    | some p =>
      cases hf : m.entity? p with
      | none =>
        simp only [hp, climb, hf] at h
        cases h
      | some f =>
        have hrest : (m.climb steps f.parent).stop = some (.breach .circular) := by
          simpa only [hp, climb, hf, Walk.meet] using h
        obtain ⟨ps, hlen, hchain, hall⟩ := ih hf hrest
        refine ⟨p :: ps, by rw [List.length_cons, hlen], .cons_cons ⟨e, he, hp⟩ hchain, ?_⟩
        exact List.forall_mem_cons.mpr ⟨by simp [he], hall⟩

/-- Without a cycle, the positions on a walk are different ones and run out before the steps. -/
theorem stop_ancestors_ne_circular (ha : Acyclic m.ParentLink) (x : EntityId) :
    (m.ancestors x).stop ≠ some (.breach .circular) := by
  intro h
  unfold ancestors at h
  cases he : m.entity? x with
  | none =>
    rw [he] at h
    cases h
  | some e =>
    rw [he] at h
    obtain ⟨ps, hlen, hchain, hall⟩ := chain_of_climb he h
    have hle : (x :: ps).length ≤ m.entities.length :=
      length_le_of_nodup (ha.nodup_of_isChain hchain) hall
    rw [List.length_cons, hlen] at hle
    exact Nat.not_succ_le_self _ hle

theorem strays_of_any_climb {p : EntityMapping → Bool} {steps : Nat} {o : Option EntityId}
    {fault : Fault} (h : (m.climb steps o).any p = .error fault)
    (hend : (m.climb steps o).stop ≠ some (.breach .circular)) :
    fault = .breach .unknownEntity ∧ m.Strays (fun e => p e = true) o := by
  induction steps generalizing o with
  | zero =>
    cases o with
    | none => cases h
    | some x => exact absurd rfl hend
  | succ steps ih =>
    cases o with
    | none => cases h
    | some x =>
      cases he : m.entity? x with
      | none =>
        simp only [climb, he, Walk.any, Walk.broken, List.any_nil, Bool.false_eq_true,
          if_false] at h
        cases h
        exact ⟨rfl, .missing he⟩
      | some e =>
        by_cases hp : p e = true
        · simp [climb, he, Walk.any, Walk.meet, hp] at h
        · have hrest : (m.climb steps e.parent).any p = .error fault := by
            simpa [climb, he, Walk.any, Walk.meet, hp] using h
          have hendrest : (m.climb steps e.parent).stop ≠ some (.breach .circular) := by
            simpa only [climb, he, Walk.meet] using hend
          obtain ⟨hfault, hs⟩ := ih hrest hendrest
          exact ⟨hfault, .up he hp hs⟩

/-- Without a cycle a walk up fails in one way only: it strays, or it does not even begin. -/
theorem strays_of_any_ancestors (ha : Acyclic m.ParentLink) {p : EntityMapping → Bool}
    {x : EntityId} {fault : Fault} (h : (m.ancestors x).any p = .error fault) :
    fault = .breach .unknownEntity ∧ (m.entity? x = none ∨
      ∃ e, m.entity? x = some e ∧ m.Strays (fun e => p e = true) e.parent) := by
  have hend := stop_ancestors_ne_circular ha x
  unfold ancestors at h hend
  cases he : m.entity? x with
  | none =>
    rw [he] at h
    cases h
    exact ⟨rfl, .inl rfl⟩
  | some e =>
    rw [he] at h hend
    obtain ⟨hfault, hs⟩ := strays_of_any_climb h hend
    exact ⟨hfault, .inr ⟨e, rfl, hs⟩⟩

theorem lineage_or_strays (ha : Acyclic m.ParentLink) {x : EntityId} {e : EntityMapping}
    (he : m.entity? x = some e) :
    (∃ up, Lineage m e.parent up) ∨ m.Strays (fun _ => False) e.parent := by
  cases hstop : (m.ancestors x).stop with
  | none =>
    obtain ⟨e', he', hl⟩ := all_ancestors_iff.mp ((Walk.all_eq_ok_iff _ _).mpr ⟨hstop, rfl⟩)
    rw [he] at he'
    cases he'
    exact .inl ⟨_, hl⟩
  | some fault =>
    have hany : (m.ancestors x).any (fun _ => false) = .error fault := by
      simp [Walk.any, hstop]
    obtain ⟨_, hnone | ⟨e', he', hs⟩⟩ := strays_of_any_ancestors ha hany
    · rw [he] at hnone
      cases hnone
    · rw [he] at he'
      cases he'
      exact .inr (by simpa using hs)

/-! ## Links to parts -/

/-- The attribute of the id `a` is a composite that lists `b` among its parts. -/
def PartLink (m : Model) (a b : AttributeId) : Prop :=
  ∃ c, m.attribute? a = some c ∧ b ∈ c.partIds

/-- Only stored attributes have parts. -/
theorem PartLink.isSome_left {a b : AttributeId} (h : m.PartLink a b) :
    (m.attribute? a).isSome := by
  obtain ⟨c, hc, _⟩ := h
  simp [hc]

theorem length_le_of_partLinks (ha : Acyclic m.PartLink) {ids : List AttributeId}
    (hc : ids.IsChain m.PartLink) (hs : ∀ id ∈ ids, (m.attribute? id).isSome) :
    ids.length ≤ m.storeSize :=
  length_le_storeSize (ha.nodup_of_isChain hc) hs

/-- Going from composites to their parts comes to an end: the places on the way are different, and
there are no more of them than attributes. -/
theorem wellFounded_partLink (ha : Acyclic m.PartLink) :
    WellFounded fun part whole => m.PartLink whole part := by
  rw [wellFounded_iff_isEmpty_descending_chain]
  refine ⟨fun ⟨f, hf⟩ => ?_⟩
  have hchain : ((List.range (m.storeSize + 1)).map f).IsChain m.PartLink := by
    rw [List.isChain_map, List.isChain_range]
    exact fun n _ => hf n
  have hle : ((List.range (m.storeSize + 1)).map f).length ≤ m.storeSize := by
    refine length_le_of_partLinks ha hchain fun id hid => ?_
    obtain ⟨n, _, rfl⟩ := List.mem_map.mp hid
    exact (hf n).isSome_left
  rw [List.length_map, List.length_range] at hle
  omega

end Model

end RelationalMapping
