import Mathlib.Data.List.Perm.Basic
import RelationalMapping.Model.Closure

/-!
The entities below a list of siblings as a tree, and what the four walks make of it. Where the
links of a model unfold into a tree (`Unfolds`), each machine comes to the end of its visit and
finds the entities of the tree in an order that is a recursion over the tree: `topDown`,
`bottomUp`, or just their number `size`.
-/

namespace RelationalMapping

/-- Siblings from the first on, each with its own offspring below it. -/
inductive Offspring where
  | none
  | cons (e : EntityMapping) (below later : Offspring)

namespace Offspring

def size : Offspring → Nat
  | none => 0
  | cons _ below later => 1 + below.size + later.size

/-- The siblings without what is below them. -/
def siblings : Offspring → List EntityMapping
  | none => []
  | cons e _ later => e :: later.siblings

/-- Every entity before those below it. -/
def topDown : Offspring → List EntityMapping
  | none => []
  | cons e below later => e :: (below.topDown ++ later.topDown)

/-- What is below the siblings, in the order of `bottomUp`. -/
def depths : Offspring → List EntityMapping
  | none => []
  | cons _ below later => below.depths ++ below.siblings ++ later.depths

/-- Every entity after those below it, and siblings one after the other. -/
def bottomUp (t : Offspring) : List EntityMapping := t.depths ++ t.siblings

/-- The siblings of the one, and those of the other after them. -/
def append : Offspring → Offspring → Offspring
  | none, t => t
  | cons e below later, t => cons e below (later.append t)

@[simp] theorem siblings_append (s t : Offspring) :
    (s.append t).siblings = s.siblings ++ t.siblings := by
  induction s with
  | none => rfl
  | cons e below later _ ihl => rw [append, siblings, ihl, siblings, List.cons_append]

@[simp] theorem topDown_append (s t : Offspring) :
    (s.append t).topDown = s.topDown ++ t.topDown := by
  induction s with
  | none => rfl
  | cons e below later _ ihl =>
    rw [append, topDown, ihl, topDown, List.cons_append, List.append_assoc]

@[simp] theorem depths_append (s t : Offspring) :
    (s.append t).depths = s.depths ++ t.depths := by
  induction s with
  | none => rfl
  | cons e below later _ ihl => rw [append, depths, ihl, depths, List.append_assoc _ later.depths]

@[simp] theorem length_topDown (t : Offspring) : t.topDown.length = t.size := by
  induction t with
  | none => rfl
  | cons e below later ihb ihl =>
    simp only [topDown, size, List.length_cons, List.length_append, ihb, ihl]
    omega

/-- Both orders visit the same entities. -/
theorem bottomUp_perm (t : Offspring) : t.bottomUp.Perm t.topDown := by
  induction t with
  | none => exact .nil
  | cons e below later ihb ihl =>
    have h : (below.bottomUp ++ later.depths ++ e :: later.siblings).Perm
        (e :: (below.bottomUp ++ (later.depths ++ later.siblings))) := by
      rw [← List.append_assoc]
      exact List.perm_middle
    exact h.trans ((ihb.append ihl).cons e)

/-- Steps of the bottom-up machine until all siblings are gone into: one into each, those below
it, and one out again. -/
def descents : Offspring → Nat
  | none => 0
  | cons _ below later => 1 + (below.descents + (below.siblings.length + 1)) + later.descents

theorem descents_add_siblings (t : Offspring) : t.descents + t.siblings.length = 3 * t.size := by
  induction t with
  | none => rfl
  | cons e below later ihb ihl =>
    simp only [descents, siblings, size, List.length_cons]
    omega

end Offspring

namespace Model

/-- The links of `m` below the entities `ids` are those of the tree. -/
inductive Unfolds (m : Model) : List EntityId → Offspring → Prop
  | nil : Unfolds m [] .none
  | cons {id : EntityId} {ids : List EntityId} {e : EntityMapping} {below later : Offspring}
      (he : m.entity? id = some e) (hb : Unfolds m e.children below)
      (hl : Unfolds m ids later) : Unfolds m (id :: ids) (.cons e below later)

namespace Unfolds

variable {m : Model} {ids : List EntityId} {t : Offspring}

theorem append {others : List EntityId} {s : Offspring} (h : Unfolds m ids t)
    (hs : Unfolds m others s) : Unfolds m (ids ++ others) (t.append s) := by
  induction h with
  | nil => exact hs
  | cons he hb _ _ ihl => exact .cons he hb ihl

/-! ## Parents first -/

/-- The machine visits the tree in one step an entity and goes on with what is behind it. -/
theorem topDown_runFor (h : Unfolds m ids t) (n : Nat) (rest : List EntityId) :
    TopDown.runFor m (t.size + n) ⟨ids ++ rest⟩ =
      ⟨t.topDown ++ (TopDown.runFor m n ⟨rest⟩).found, (TopDown.runFor m n ⟨rest⟩).stop⟩ := by
  induction h generalizing n rest with
  | nil => simp [Offspring.size, Offspring.topDown]
  | @cons id ids e below later he hb hl ihb ihl =>
    have hn : TopDown.next m ⟨id :: ids ++ rest⟩ =
        .ok (some (e, ⟨e.children ++ (ids ++ rest)⟩)) := by
      simp [TopDown.next, Model.getEntity, he, Answer.ofOption, bind, Except.bind, pure,
        Except.pure]
    have hs : (Offspring.cons e below later).size + n = below.size + (later.size + n) + 1 := by
      simp only [Offspring.size]
      omega
    rw [hs, TopDown.runFor_next hn, ihb, ihl]
    simp [Walk.meet, Offspring.topDown]

/-! ## Descendants first -/

/-- Once all siblings are gone into, they are met one after the other, and the frame is left. -/
theorem meet_siblings (h : Unfolds m ids t) (n : Nat)
    (outer : List (List EntityId × List EntityId)) :
    BottomUp.runFor m (t.siblings.length + 1 + n) ⟨([], ids) :: outer⟩ =
      ⟨t.siblings ++ (BottomUp.runFor m n ⟨outer⟩).found, (BottomUp.runFor m n ⟨outer⟩).stop⟩ := by
  induction h with
  | nil =>
    have hs : BottomUp.step m ⟨([], []) :: outer⟩ = .ok (.moved ⟨outer⟩) := rfl
    have hn : Offspring.none.siblings.length + 1 + n = n + 1 := by
      simp only [Offspring.siblings, List.length_nil]
      omega
    rw [hn, BottomUp.runFor_moved hs]
    simp [Offspring.siblings]
  | @cons id ids e below later he hb hl _ ihl =>
    have hs : BottomUp.step m ⟨([], id :: ids) :: outer⟩ = .ok (.met e ⟨([], ids) :: outer⟩) := by
      simp [BottomUp.step, Model.getEntity, he, Answer.ofOption, bind, Except.bind, pure,
        Except.pure]
    have hn : (Offspring.cons e below later).siblings.length + 1 + n =
        later.siblings.length + 1 + n + 1 := by
      simp only [Offspring.siblings, List.length_cons]
      omega
    rw [hn, BottomUp.runFor_met hs, ihl]
    simp [Walk.meet, Offspring.siblings]

/-- Going into the siblings finds what is below them. -/
theorem go_into (h : Unfolds m ids t) (n : Nat) (met : List EntityId)
    (outer : List (List EntityId × List EntityId)) :
    BottomUp.runFor m (t.descents + n) ⟨(ids, met) :: outer⟩ =
      ⟨t.depths ++ (BottomUp.runFor m n ⟨([], met) :: outer⟩).found,
        (BottomUp.runFor m n ⟨([], met) :: outer⟩).stop⟩ := by
  induction h generalizing n met outer with
  | nil => simp [Offspring.descents, Offspring.depths]
  | @cons id ids e below later he hb hl ihb ihl =>
    have hs : BottomUp.step m ⟨(id :: ids, met) :: outer⟩ =
        .ok (.moved ⟨(e.children, e.children) :: (ids, met) :: outer⟩) := by
      simp [BottomUp.step, Model.getEntity, he, Answer.ofOption, bind, Except.bind, pure,
        Except.pure]
    have hn : (Offspring.cons e below later).descents + n =
        below.descents + (below.siblings.length + 1 + (later.descents + n)) + 1 := by
      simp only [Offspring.descents]
      omega
    rw [hn, BottomUp.runFor_moved hs, ihb, hb.meet_siblings, ihl]
    simp [Offspring.depths]

theorem bottomUp_runFor (h : Unfolds m ids t) (n : Nat)
    (outer : List (List EntityId × List EntityId)) :
    BottomUp.runFor m (3 * t.size + 1 + n) ⟨(ids, ids) :: outer⟩ =
      ⟨t.bottomUp ++ (BottomUp.runFor m n ⟨outer⟩).found, (BottomUp.runFor m n ⟨outer⟩).stop⟩ := by
  have hn : 3 * t.size + 1 + n = t.descents + (t.siblings.length + 1 + n) := by
    have := t.descents_add_siblings
    omega
  rw [hn, h.go_into, h.meet_siblings]
  simp [Offspring.bottomUp]

/-! ## Counting -/

/-- Adding up what is below each sibling, one sibling after the other, comes to the whole tree. -/
theorem countBelow (h : Unfolds m ids t) (depth : Nat) (hd : t.size ≤ depth) :
    ∃ below, ids.length + below = t.size ∧ ∀ k,
      ids.foldlM (fun n id => return n + (← m.countBelow depth id)) k = Except.ok (k + below) := by
  induction h generalizing depth with
  | nil => exact ⟨0, rfl, fun k => rfl⟩
  | @cons id ids e below later he hb hl ihb ihl =>
    simp only [Offspring.size] at hd
    obtain ⟨d, rfl⟩ : ∃ d, depth = d + 1 := ⟨depth - 1, by omega⟩
    obtain ⟨inner, hsum, hinner⟩ := ihb d (by omega)
    obtain ⟨rest, hrest, hlater⟩ := ihl (d + 1) (by omega)
    have hone : m.countBelow (d + 1) id = .ok below.size := by
      rw [Model.countBelow_succ he, hinner, hsum]
    refine ⟨below.size + rest, ?_, fun k => ?_⟩
    · simp only [List.length_cons, Offspring.size]
      omega
    · rw [List.foldlM_cons, hone, ← Nat.add_assoc]
      exact hlater (k + below.size)

end Unfolds

end Model

end RelationalMapping
