import Mathlib.Data.List.Nodup
import RelationalMapping.Model.Closure
import RelationalMapping.Proofs.Descent
import RelationalMapping.Proofs.VisitOrder

/-!
What the walks find after an entity got one more child. The child is appended to one list of
children, and from there it comes into every walk that goes through its parent: as the last entity
of the parent's own subtree, which is one piece of each walk from above.

* `Offspring.adopt`: the tree with the child, and all other entities where they were.
* `Unfolds.topDown_adopt`, `Unfolds.depths_adopt`: where the child stands in the two orders.
* `new_child_comes_last`: all walks from any entity, before and after.
-/

namespace RelationalMapping

/-- The ids of all entities on the walk, if it ran to its end. -/
def Walk.ids (w : Walk) : Answer (List EntityId) := w.all.map (List.map EntityMapping.id)

theorem Walk.ids_mk (found : List EntityMapping) :
    (Walk.mk found none).ids = .ok (found.map EntityMapping.id) := rfl

/-- An item for which there is nothing to list may be left out. -/
theorem Answer.flatten_mapM_insert {α β : Type} {f : α → Answer (List β)} {c : α}
    (hc : f c = .ok []) (before after : List α) :
    ((before ++ c :: after).mapM f).map List.flatten =
      ((before ++ after).mapM f).map List.flatten := by
  rw [List.mapM_append, List.mapM_append, List.mapM_cons, hc]
  cases before.mapM f with
  | error fault => rfl
  | ok first =>
    cases after.mapM f with
    | error fault => rfl
    | ok second =>
      simp [bind, Except.bind, pure, Except.pure, Except.map]

namespace Offspring

/-- The tree in which `p` has the child, after its other children, and all entities are as `change`
leaves them. -/
def adopt (p : EntityId) (child : EntityMapping) (change : EntityMapping → EntityMapping) :
    Offspring → Offspring
  | none => none
  | cons e below later =>
      cons (change e)
        (if e.id = p then (below.adopt p child change).append (cons child none none)
          else below.adopt p child change)
        (later.adopt p child change)

variable {p : EntityId} {child : EntityMapping} {change : EntityMapping → EntityMapping}
  {t : Offspring}

theorem siblings_adopt (t : Offspring) :
    (t.adopt p child change).siblings = t.siblings.map change := by
  induction t with
  | none => rfl
  | cons e below later _ ihl => rw [adopt, siblings, ihl, siblings, List.map_cons]

theorem topDown_adopt_of_not_mem (h : p ∉ t.topDown.map EntityMapping.id) :
    (t.adopt p child change).topDown = t.topDown.map change := by
  induction t with
  | none => rfl
  | cons e below later ihb ihl =>
    simp only [topDown, List.map_cons, List.map_append, List.mem_cons, List.mem_append,
      not_or] at h
    rw [adopt, if_neg (Ne.symm h.1), topDown, ihb h.2.1, ihl h.2.2, topDown, List.map_cons,
      List.map_append]

theorem depths_adopt_of_not_mem (h : p ∉ t.topDown.map EntityMapping.id) :
    (t.adopt p child change).depths = t.depths.map change := by
  induction t with
  | none => rfl
  | cons e below later ihb ihl =>
    simp only [topDown, List.map_cons, List.map_append, List.mem_cons, List.mem_append,
      not_or] at h
    rw [adopt, if_neg (Ne.symm h.1), depths, ihb h.2.1, ihl h.2.2, siblings_adopt, depths,
      List.map_append, List.map_append]

theorem bottomUp_adopt_of_not_mem (h : p ∉ t.topDown.map EntityMapping.id) :
    (t.adopt p child change).bottomUp = t.bottomUp.map change := by
  rw [bottomUp, depths_adopt_of_not_mem h, siblings_adopt, bottomUp, List.map_append]

/-- No entity is met twice in the parts of a tree, and none in two of them. -/
theorem nodup_cons {e : EntityMapping} {below later : Offspring}
    (h : ((cons e below later).topDown.map EntityMapping.id).Nodup) :
    (below.topDown.map EntityMapping.id).Nodup ∧ (later.topDown.map EntityMapping.id).Nodup ∧
      e.id ∉ below.topDown.map EntityMapping.id ∧ e.id ∉ later.topDown.map EntityMapping.id ∧
      ∀ id ∈ below.topDown.map EntityMapping.id, id ∉ later.topDown.map EntityMapping.id := by
  rw [topDown, List.map_cons, List.map_append, List.nodup_cons, List.mem_append, not_or,
    List.nodup_append] at h
  obtain ⟨⟨hb, hl⟩, hbelow, hlater, hapart⟩ := h
  exact ⟨hbelow, hlater, hb, hl, fun id hid hid' => hapart id hid id hid' rfl⟩

end Offspring

namespace Model

variable {m : Model} {p x : EntityId} {k : HierarchyId} {e pe : EntityMapping}
  {ids : List EntityId} {t : Offspring}

/-! ## The model with the child -/

/-- An entity of the model, after `p` got a child. -/
def withChild (m : Model) (p : EntityId) (e : EntityMapping) : EntityMapping :=
  m.afterChild p e.id e

@[simp] theorem id_withChild (e : EntityMapping) : (m.withChild p e).id = e.id := by
  unfold withChild afterChild
  split <;> rfl

@[simp] theorem parent_withChild (e : EntityMapping) : (m.withChild p e).parent = e.parent := by
  unfold withChild afterChild
  split <;> rfl

@[simp] theorem attributes_withChild (e : EntityMapping) :
    (m.withChild p e).attributes = e.attributes := by
  unfold withChild afterChild
  split <;> rfl

@[simp] theorem span_withChild (e : EntityMapping) : (m.withChild p e).span = e.span := by
  unfold withChild afterChild
  split <;> rfl

theorem map_id_withChild (es : List EntityMapping) :
    (es.map (m.withChild p)).map EntityMapping.id = es.map EntityMapping.id := by
  rw [List.map_map]
  exact List.map_congr_left fun e _ => id_withChild e

theorem mapM_attributes_withChild (es : List EntityMapping) :
    (es.map (m.withChild p)).mapM EntityMapping.attributes = es.mapM EntityMapping.attributes := by
  induction es with
  | nil => rfl
  | cons e rest ih => rw [List.map_cons, List.mapM_cons, List.mapM_cons, ih, attributes_withChild]

section

variable (l : Linked m) (hc : m.checkParent p = .ok k)
include hc

theorem entity?_newChild :
    (m.addChild p).state.entity? m.nextEntity = some (m.newChild p k) :=
  (entity?_addChild_iff hc).mpr (.inr ⟨rfl, rfl⟩)

include l

theorem entity?_withChild (he : m.entity? x = some e) :
    (m.addChild p).state.entity? x = some (m.withChild p e) :=
  (entity?_addChild_iff hc).mpr (.inl ⟨e, he, by rw [withChild, l.entity_id he]⟩)

/-- Lineages are what they were. -/
theorem Lineage.withChild {o : Option EntityId} {up : List EntityMapping} (h : Lineage m o up) :
    Lineage (m.addChild p).state o (up.map (m.withChild p)) := by
  induction h with
  | root => exact .root
  | step he _ ih =>
    exact .step (entity?_withChild l hc he) (by rwa [parent_withChild])

/-- The links unfold into the tree with the child. -/
theorem Unfolds.adopt (h : Unfolds m ids t) :
    Unfolds (m.addChild p).state ids (t.adopt p (m.newChild p k) (m.withChild p)) := by
  induction h with
  | nil => exact .nil
  | @cons id ids e below later he _ _ ihb ihl =>
    refine .cons (entity?_withChild l hc he) ?_ ihl
    by_cases hid : e.id = p
    · have hchildren : (m.withChild p e).children = e.children ++ [m.nextEntity] := by
        rw [withChild, afterChild, if_pos hid]
      rw [if_pos hid, hchildren]
      exact ihb.append (.cons (entity?_newChild hc) .nil .nil)
    · have hchildren : (m.withChild p e).children = e.children := by
        rw [withChild, afterChild, if_neg hid]
      rw [if_neg hid, hchildren]
      exact ihb

end

/-! ## Where the child stands -/

section

variable (l : Linked m) (hp : m.entity? p = some pe) {child : EntityMapping}
  {change : EntityMapping → EntityMapping}
include l hp

/-- Parents first, what is below `p` follows it in one piece, and the child is the last of it. -/
theorem Unfolds.topDown_adopt (h : Unfolds m ids t) (hn : (t.topDown.map EntityMapping.id).Nodup)
    (hmem : p ∈ t.topDown.map EntityMapping.id) :
    ∃ before below after, Unfolds m pe.children below ∧
      t.topDown = before ++ (pe :: below.topDown) ++ after ∧
      (t.adopt p child change).topDown =
        (before ++ (pe :: below.topDown)).map change ++ child :: after.map change := by
  induction h with
  | nil => cases hmem
  | @cons id ids e below later he hb _ ihb ihl =>
    obtain ⟨hbelow, hlater, houtb, houtl, hapart⟩ := Offspring.nodup_cons hn
    by_cases hid : e.id = p
    · have hsame : e = pe := by
        rw [← l.entity_id he, hid, hp] at he
        exact (Option.some.inj he).symm
      subst hsame
      refine ⟨[], below, later.topDown, hb, by simp [Offspring.topDown], ?_⟩
      rw [hid] at houtb houtl
      rw [Offspring.adopt, if_pos hid, Offspring.topDown, Offspring.topDown_append,
        Offspring.topDown_adopt_of_not_mem houtb, Offspring.topDown_adopt_of_not_mem houtl]
      simp [Offspring.topDown]
    rw [Offspring.adopt, if_neg hid, Offspring.topDown, Offspring.topDown]
    rw [Offspring.topDown, List.map_cons, List.map_append, List.mem_cons, List.mem_append] at hmem
    rcases hmem.resolve_left (Ne.symm hid) with hmem | hmem
    · obtain ⟨before, under, after, hunder, hsplit, hadopt⟩ := ihb hbelow hmem
      refine ⟨e :: before, under, after ++ later.topDown, hunder, by simp [hsplit], ?_⟩
      rw [hadopt, Offspring.topDown_adopt_of_not_mem (hapart p hmem)]
      simp
    · obtain ⟨before, under, after, hunder, hsplit, hadopt⟩ := ihl hlater hmem
      have hout : p ∉ below.topDown.map EntityMapping.id := fun h => hapart p h hmem
      refine ⟨e :: (below.topDown ++ before), under, after, hunder, by simp [hsplit], ?_⟩
      rw [hadopt, Offspring.topDown_adopt_of_not_mem hout]
      simp

/-- Descendants first, what is below `p` comes in one piece before `p` itself, which is met later or
is one of the siblings, and the child is the last of that piece. -/
theorem Unfolds.depths_adopt (h : Unfolds m ids t) (hn : (t.topDown.map EntityMapping.id).Nodup)
    (hmem : p ∈ t.topDown.map EntityMapping.id) :
    ∃ before below after, Unfolds m pe.children below ∧
      t.depths = before ++ below.bottomUp ++ after ∧
      (t.adopt p child change).depths =
        (before ++ below.bottomUp).map change ++ child :: after.map change ∧
      pe ∈ after ++ t.siblings := by
  induction h with
  | nil => cases hmem
  | @cons id ids e below later he hb _ ihb ihl =>
    obtain ⟨hbelow, hlater, houtb, houtl, hapart⟩ := Offspring.nodup_cons hn
    by_cases hid : e.id = p
    · have hsame : e = pe := by
        rw [← l.entity_id he, hid, hp] at he
        exact (Option.some.inj he).symm
      subst hsame
      refine ⟨[], below, later.depths, hb, by simp [Offspring.depths, Offspring.bottomUp], ?_,
        by simp [Offspring.siblings]⟩
      rw [hid] at houtb houtl
      rw [Offspring.adopt, if_pos hid, Offspring.depths, Offspring.depths_append,
        Offspring.siblings_append, Offspring.depths_adopt_of_not_mem houtb,
        Offspring.depths_adopt_of_not_mem houtl, Offspring.siblings_adopt]
      simp [Offspring.depths, Offspring.siblings, Offspring.bottomUp]
    rw [Offspring.adopt, if_neg hid, Offspring.depths, Offspring.depths, Offspring.siblings_adopt]
    rw [Offspring.topDown, List.map_cons, List.map_append, List.mem_cons, List.mem_append] at hmem
    rcases hmem.resolve_left (Ne.symm hid) with hmem | hmem
    · obtain ⟨before, under, after, hunder, hsplit, hadopt, hlast⟩ := ihb hbelow hmem
      refine ⟨before, under, after ++ below.siblings ++ later.depths, hunder, by simp [hsplit], ?_,
        ?_⟩
      · rw [hadopt, Offspring.depths_adopt_of_not_mem (hapart p hmem)]
        simp
      · rcases List.mem_append.mp hlast with hlast | hlast <;> simp [hlast]
    · obtain ⟨before, under, after, hunder, hsplit, hadopt, hlast⟩ := ihl hlater hmem
      have hout : p ∉ below.topDown.map EntityMapping.id := fun h => hapart p h hmem
      refine ⟨below.depths ++ below.siblings ++ before, under, after, hunder, by simp [hsplit], ?_,
        ?_⟩
      · rw [hadopt, Offspring.depths_adopt_of_not_mem hout]
        simp
      · rcases List.mem_append.mp hlast with hlast | hlast <;> simp [Offspring.siblings, hlast]

end

/-! ## The walks before and after -/

/-- What is below `x` once `p` has the child, where `t` was below it. -/
def belowAfter (m : Model) (p x : EntityId) (k : HierarchyId) (t : Offspring) : Offspring :=
  if x = p then
    (t.adopt p (m.newChild p k) (m.withChild p)).append (.cons (m.newChild p k) .none .none)
  else t.adopt p (m.newChild p k) (m.withChild p)

section

variable (f : Forest m) (hc : m.checkParent p = .ok k) (he : m.entity? x = some e)
  (ht : Unfolds m e.children t)
include f hc he ht

theorem Unfolds.belowAfter :
    Unfolds (m.addChild p).state (m.withChild p e).children (m.belowAfter p x k t) := by
  have h := (Unfolds.cons he ht .nil).adopt f.linked hc
  cases h with
  | cons he' hb' _ =>
    rw [entity?_withChild f.linked hc he] at he'
    cases he'
    rw [f.entity_id he] at hb'
    exact hb'

theorem descendantsTopDown_after :
    (m.addChild p).state.descendantsTopDown x = ⟨(m.belowAfter p x k t).topDown, none⟩ :=
  (f.addChild hc).linked.descendantsTopDown_eq (entity?_withChild f.linked hc he)
    (ht.belowAfter f hc he)

theorem descendantsBottomUp_after :
    (m.addChild p).state.descendantsBottomUp x = ⟨(m.belowAfter p x k t).bottomUp, none⟩ :=
  (f.addChild hc).linked.descendantsBottomUp_eq (entity?_withChild f.linked hc he)
    (ht.belowAfter f hc he)

theorem descendantCount_after :
    (m.addChild p).state.descendantCount x = .ok (m.belowAfter p x k t).topDown.length := by
  rw [Offspring.length_topDown]
  exact (f.addChild hc).linked.descendantCount_eq (entity?_withChild f.linked hc he)
    (ht.belowAfter f hc he)

omit hc

theorem not_mem_below : x ∉ t.topDown.map EntityMapping.id :=
  (List.nodup_cons.mp (f.linked.nodup_topDown he ht)).1

theorem topDown_belowAfter_self : (m.belowAfter x x k t).topDown =
    t.topDown.map (m.withChild x) ++ [m.newChild x k] := by
  rw [Model.belowAfter, if_pos rfl, Offspring.topDown_append,
    Offspring.topDown_adopt_of_not_mem (not_mem_below f he ht)]
  rfl

theorem bottomUp_belowAfter_self : (m.belowAfter x x k t).bottomUp =
    t.bottomUp.map (m.withChild x) ++ [m.newChild x k] := by
  have hout := not_mem_below f he ht
  rw [Model.belowAfter, if_pos rfl, Offspring.bottomUp, Offspring.depths_append,
    Offspring.siblings_append, Offspring.depths_adopt_of_not_mem hout, Offspring.siblings_adopt,
    Offspring.bottomUp, List.map_append]
  simp [Offspring.depths, Offspring.siblings]

end

theorem topDown_belowAfter_elsewhere (hne : x ≠ p)
    (hout : p ∉ t.topDown.map EntityMapping.id) :
    (m.belowAfter p x k t).topDown = t.topDown.map (m.withChild p) := by
  rw [Model.belowAfter, if_neg hne, Offspring.topDown_adopt_of_not_mem hout]

theorem bottomUp_belowAfter_elsewhere (hne : x ≠ p)
    (hout : p ∉ t.topDown.map EntityMapping.id) :
    (m.belowAfter p x k t).bottomUp = t.bottomUp.map (m.withChild p) := by
  rw [Model.belowAfter, if_neg hne, Offspring.bottomUp_adopt_of_not_mem hout]

/-- From its parent and from all above the parent, the walk comes across the child, and nothing else
is met in another order. -/
theorem exists_insertion (f : Forest m) (he : m.entity? x = some e)
    (ht : Unfolds m e.children t) (hp : m.entity? p = some pe)
    (hin : x = p ∨ p ∈ t.topDown.map EntityMapping.id) :
    ∃ before after, t.topDown = before ++ after ∧ (m.belowAfter p x k t).topDown =
      before.map (m.withChild p) ++ m.newChild p k :: after.map (m.withChild p) := by
  rcases hin with rfl | hmem
  · exact ⟨t.topDown, [], by simp, topDown_belowAfter_self f he ht⟩
  · have hne : x ≠ p := fun heq => not_mem_below f he ht (heq ▸ hmem)
    have hn := (List.nodup_cons.mp (f.linked.nodup_topDown he ht)).2
    obtain ⟨before, below, after, _, hsplit, hadopt⟩ := ht.topDown_adopt f.linked hp hn hmem
    refine ⟨before ++ (pe :: below.topDown), after, hsplit, ?_⟩
    rw [Model.belowAfter, if_neg hne, hadopt]

/-! ## What is inherited -/

section

variable (f : Forest m) (hc : m.checkParent p = .ok k) (he : m.entity? x = some e)
include f hc he

theorem lineage_after : ∃ up, (m.ancestors e.id).all = .ok up ∧
    ((m.addChild p).state.ancestors (m.withChild p e).id).all =
      .ok (up.map (m.withChild p)) := by
  obtain ⟨up, _, hl, _⟩ := f.lineage he
  have hafter := hl.withChild f.linked hc
  rw [id_withChild, f.entity_id he]
  refine ⟨up, all_ancestors_iff.mpr ⟨e, he, hl⟩, all_ancestors_iff.mpr ⟨m.withChild p e, ?_, ?_⟩⟩
  · exact entity?_withChild f.linked hc he
  · rwa [parent_withChild]

theorem attributeClosure_after :
    (m.addChild p).state.attributeClosure x = m.attributeClosure x := by
  obtain ⟨up, hup, hafter⟩ := lineage_after f hc he
  have hget : m.getEntity x = .ok e := Answer.ofOption_eq_ok_iff.mpr he
  have hget' : (m.addChild p).state.getEntity x = .ok (m.withChild p e) :=
    Answer.ofOption_eq_ok_iff.mpr (entity?_withChild f.linked hc he)
  have hlevels : (up.map (m.withChild p)).reverse ++ [m.withChild p e] =
      (up.reverse ++ [e]).map (m.withChild p) := by
    rw [List.map_append, List.map_reverse, List.map_singleton]
  simp only [attributeClosure, hget, hget', hup, hafter, hlevels, mapM_attributes_withChild, bind,
    Except.bind]

theorem attributeClosureSpan_after :
    (m.addChild p).state.attributeClosureSpan x = m.attributeClosureSpan x := by
  obtain ⟨up, hup, hafter⟩ := lineage_after f hc he
  have hget : m.getEntity x = .ok e := Answer.ofOption_eq_ok_iff.mpr he
  have hget' : (m.addChild p).state.getEntity x = .ok (m.withChild p e) :=
    Answer.ofOption_eq_ok_iff.mpr (entity?_withChild f.linked hc he)
  have hspans : (up.map (m.withChild p)).map EntityMapping.span = up.map EntityMapping.span := by
    rw [List.map_map]
    exact List.map_congr_left fun a _ => span_withChild a
  simp only [attributeClosureSpan, hget, hget', hup, hafter, hspans, span_withChild, bind,
    Except.bind]

/-- The child has nothing declared, so it adds nothing where it comes in. -/
theorem treeAttributes_after (hp : m.entity? p = some pe) :
    (m.addChild p).state.treeAttributes x = m.treeAttributes x := by
  obtain ⟨t, ht⟩ := f.linked.exists_offspring he
  have hdown : (m.descendantsTopDown x).all = .ok t.topDown := by
    rw [f.linked.descendantsTopDown_eq he ht]
    rfl
  have hdown' : ((m.addChild p).state.descendantsTopDown x).all =
      .ok (m.belowAfter p x k t).topDown := by
    rw [descendantsTopDown_after f hc he ht]
    rfl
  have hlists : ((m.belowAfter p x k t).topDown.mapM EntityMapping.attributes).map List.flatten =
      (t.topDown.mapM EntityMapping.attributes).map List.flatten := by
    by_cases hin : x = p ∨ p ∈ t.topDown.map EntityMapping.id
    · obtain ⟨before, after, hsplit, hinsert⟩ := exists_insertion (k := k) f he ht hp hin
      have hnew : (m.newChild p k).attributes = .ok [] := rfl
      rw [hinsert, Answer.flatten_mapM_insert hnew, ← List.map_append, mapM_attributes_withChild,
        hsplit]
    · rw [not_or] at hin
      rw [topDown_belowAfter_elsewhere hin.1 hin.2, mapM_attributes_withChild]
  have hread : ∀ (inherited : List AttributeMapping) (n : Model) (es : List EntityMapping),
      (n.descendantsTopDown x).all = .ok es → n.attributeClosure x = .ok inherited →
      n.treeAttributes x =
        ((es.mapM EntityMapping.attributes).map List.flatten).map (inherited ++ ·) := by
    intro inherited n es hes hinherited
    simp only [treeAttributes, hes, hinherited, bind, Except.bind]
    cases es.mapM EntityMapping.attributes <;> rfl
  cases hinherited : m.attributeClosure x with
  | ok inherited =>
    rw [hread inherited m _ hdown hinherited, hread inherited (m.addChild p).state _ hdown'
      ((attributeClosure_after f hc he).trans hinherited), hlists]
  | error fault =>
    simp only [treeAttributes, hinherited, attributeClosure_after f hc he, bind, Except.bind]

end

/-! ## All walks -/

/-- What comes of the walks at `x` when `p` gets the child `n`. Before, they came across `down` and
`rising`. -/
structure TakesIn (m m' : Model) (p : EntityId) (pe : EntityMapping) (n x : EntityId)
    (down rising : List EntityId) : Prop where
  found_down : (m.descendantsTopDown x).ids = .ok down
  found_rising : (m.descendantsBottomUp x).ids = .ok rising
  counted : m.descendantCount x = .ok down.length
  /-- No entity is met twice, so each of them has one place. -/
  distinct : (x :: down).Nodup
  perm : rising.Perm down
  /-- `p` is below `x` exactly if `x` is an ancestor of `p`. -/
  below_iff : ∃ above, (m.ancestors p).ids = .ok above ∧ (p ∈ down ↔ x ∈ above)
  /-- Below `p` the child is met last. -/
  parent : x = p → (m'.descendantsTopDown x).ids = .ok (down ++ [n])
  /-- Above `p` it is met right after the block of `p` and all that was below `p`. -/
  above : p ∈ down → ∃ before block after, (m.descendantsTopDown p).ids = .ok block ∧
    down = before ++ (p :: block) ++ after ∧
    (m'.descendantsTopDown x).ids = .ok (before ++ (p :: block) ++ n :: after)
  /-- Everywhere else nothing changes. -/
  elsewhere : x ≠ p → p ∉ down → (m'.descendantsTopDown x).ids = .ok down ∧
    (m'.descendantsBottomUp x).ids = .ok rising
  /-- From below, it is met right after all that was below `p`, the other children of `p` among
  them, and before `p`. -/
  rises : x = p ∨ p ∈ down → ∃ before block after, (m.descendantsBottomUp p).ids = .ok block ∧
    rising = before ++ block ++ after ∧
    (m'.descendantsBottomUp x).ids = .ok (before ++ block ++ n :: after) ∧
    (∀ c ∈ pe.children, c ∈ block) ∧ (p ∈ down → p ∈ after)
  count : m'.descendantCount x = .ok (down.length + if x = p ∨ p ∈ down then 1 else 0)
  closure : m'.attributeClosure x = m.attributeClosure x
  span : m'.attributeClosureSpan x = m.attributeClosureSpan x
  tree : m'.treeAttributes x = m.treeAttributes x

theorem Unfolds.mem_bottomUp (l : Linked m) (h : Unfolds m ids t) :
    ∀ id ∈ ids, id ∈ t.bottomUp.map EntityMapping.id := by
  intro id hid
  rw [← h.map_id_siblings l] at hid
  rw [Offspring.bottomUp, List.map_append]
  exact List.mem_append_right _ hid

section

variable (f : Forest m) (hc : m.checkParent p = .ok k) (hp : m.entity? p = some pe)
  (he : m.entity? x = some e) (ht : Unfolds m e.children t)
include f hp he ht

theorem idsTopDown_after_above (hmem : p ∈ t.topDown.map EntityMapping.id) :
    ∃ before block after, (m.descendantsTopDown p).ids = .ok block ∧
      t.topDown.map EntityMapping.id = before ++ (p :: block) ++ after ∧
      (m.belowAfter p x k t).topDown.map EntityMapping.id =
        before ++ (p :: block) ++ m.nextEntity :: after := by
  have hne : x ≠ p := fun heq => not_mem_below f he ht (heq ▸ hmem)
  have hn := (List.nodup_cons.mp (f.linked.nodup_topDown he ht)).2
  obtain ⟨before, below, after, hb, hsplit, hadopt⟩ := ht.topDown_adopt f.linked hp hn hmem
  refine ⟨before.map EntityMapping.id, below.topDown.map EntityMapping.id,
    after.map EntityMapping.id, ?_, ?_, ?_⟩
  · rw [f.linked.descendantsTopDown_eq hp hb, Walk.ids_mk]
  · rw [hsplit, List.map_append, List.map_append, List.map_cons, f.entity_id hp]
  · rw [Model.belowAfter, if_neg hne, hadopt, List.map_append, List.map_cons, map_id_withChild,
      map_id_withChild, List.map_append, List.map_cons, f.entity_id hp]
    rfl

theorem idsBottomUp_after (hin : x = p ∨ p ∈ t.topDown.map EntityMapping.id) :
    ∃ before block after, (m.descendantsBottomUp p).ids = .ok block ∧
      t.bottomUp.map EntityMapping.id = before ++ block ++ after ∧
      (m.belowAfter p x k t).bottomUp.map EntityMapping.id =
        before ++ block ++ m.nextEntity :: after ∧
      (∀ c ∈ pe.children, c ∈ block) ∧
      (p ∈ t.topDown.map EntityMapping.id → p ∈ after) := by
  rcases hin with rfl | hmem
  · rw [he] at hp
    cases hp
    refine ⟨[], t.bottomUp.map EntityMapping.id, [], ?_, by simp, ?_, ht.mem_bottomUp f.linked,
      fun hmem => absurd hmem (not_mem_below f he ht)⟩
    · rw [f.linked.descendantsBottomUp_eq he ht, Walk.ids_mk]
    · rw [bottomUp_belowAfter_self f he ht, List.map_append, map_id_withChild]
      rfl
  · have hne : x ≠ p := fun heq => not_mem_below f he ht (heq ▸ hmem)
    have hn := (List.nodup_cons.mp (f.linked.nodup_topDown he ht)).2
    obtain ⟨before, below, after, hb, hsplit, hadopt, hlast⟩ :=
      ht.depths_adopt f.linked hp hn hmem
    refine ⟨before.map EntityMapping.id, below.bottomUp.map EntityMapping.id,
      (after ++ t.siblings).map EntityMapping.id, ?_, ?_, ?_, hb.mem_bottomUp f.linked, fun _ => ?_⟩
    · rw [f.linked.descendantsBottomUp_eq hp hb, Walk.ids_mk]
    · rw [Offspring.bottomUp, hsplit]
      simp
    · rw [Model.belowAfter, if_neg hne, Offspring.bottomUp, hadopt, Offspring.siblings_adopt,
        List.append_assoc, List.cons_append, ← List.map_append, List.map_append, List.map_cons,
        map_id_withChild, map_id_withChild, List.map_append]
      rfl
    · exact List.mem_map.mpr ⟨pe, hlast, f.entity_id hp⟩

theorem length_belowAfter :
    (m.belowAfter p x k t).topDown.length =
      t.topDown.length + if x = p ∨ p ∈ t.topDown.map EntityMapping.id then 1 else 0 := by
  by_cases hin : x = p ∨ p ∈ t.topDown.map EntityMapping.id
  · obtain ⟨before, after, hsplit, hinsert⟩ := exists_insertion (k := k) f he ht hp hin
    rw [if_pos hin, hsplit, hinsert]
    simp only [List.length_append, List.length_cons, List.length_map]
    omega
  · rw [if_neg hin]
    rw [not_or] at hin
    rw [topDown_belowAfter_elsewhere hin.1 hin.2, List.length_map, Nat.add_zero]

include hc

theorem Forest.takesIn : TakesIn m (m.addChild p).state p pe m.nextEntity x
    (t.topDown.map EntityMapping.id) (t.bottomUp.map EntityMapping.id) := by
  have hdown : ((m.addChild p).state.descendantsTopDown x).ids =
      .ok ((m.belowAfter p x k t).topDown.map EntityMapping.id) := by
    rw [descendantsTopDown_after f hc he ht, Walk.ids_mk]
  have hrising : ((m.addChild p).state.descendantsBottomUp x).ids =
      .ok ((m.belowAfter p x k t).bottomUp.map EntityMapping.id) := by
    rw [descendantsBottomUp_after f hc he ht, Walk.ids_mk]
  constructor
  case found_down => rw [f.linked.descendantsTopDown_eq he ht, Walk.ids_mk]
  case found_rising => rw [f.linked.descendantsBottomUp_eq he ht, Walk.ids_mk]
  case counted => rw [f.linked.descendantCount_eq he ht, List.length_map, t.length_topDown]
  case distinct => exact f.linked.nodup_topDown he ht
  case perm => exact t.bottomUp_perm.map _
  case below_iff =>
    obtain ⟨up, hup⟩ := f.linked.grounded hp
    refine ⟨up.map EntityMapping.id, ?_, ?_⟩
    · rw [Walk.ids, all_ancestors_iff.mpr ⟨pe, hp, hup⟩]
      rfl
    · rw [← List.count_pos_iff, ← List.count_pos_iff, f.linked.count_topDown he ht hp hup]
  case parent =>
    rintro rfl
    rw [hdown, topDown_belowAfter_self f he ht, List.map_append, map_id_withChild]
    rfl
  case above =>
    intro hmem
    obtain ⟨before, block, after, hblock, hsplit, hids⟩ :=
      idsTopDown_after_above (k := k) f hp he ht hmem
    exact ⟨before, block, after, hblock, hsplit, by rw [hdown, hids]⟩
  case elsewhere =>
    intro hne hout
    rw [hdown, hrising, topDown_belowAfter_elsewhere hne hout,
      bottomUp_belowAfter_elsewhere hne hout, map_id_withChild, map_id_withChild]
    exact ⟨rfl, rfl⟩
  case rises =>
    intro hin
    obtain ⟨before, block, after, hblock, hsplit, hids, hchildren, hlast⟩ :=
      idsBottomUp_after (k := k) f hp he ht hin
    exact ⟨before, block, after, hblock, hsplit, by rw [hrising, hids], hchildren, hlast⟩
  case count =>
    rw [descendantCount_after f hc he ht, length_belowAfter f hp he ht, List.length_map]
  case closure => exact attributeClosure_after f hc he
  case span => exact attributeClosureSpan_after f hc he
  case tree => exact treeAttributes_after f hc he hp

end

/-- After every run an entity `p` may get a child, and with it all walks from any entity `x` that
was there before are settled. Parents first, the child is the last entity below `p`, and it stands
right behind the block of `p` and its descendants in the walk from each ancestor of `p`. Descendants
first, it stands right behind all that was below `p`, and before `p`. There is one more entity below
`p` and below each of its ancestors. All other walks, and what `x` has by inheritance, are as
before. -/
theorem new_child_comes_last (collisions : NameCollision) (verifying : Bool)
    (commands : List Command) (p x : EntityId) (pe e : EntityMapping)
    (hp : ((fresh collisions verifying).after commands).entity? p = some pe)
    (hx : ((fresh collisions verifying).after commands).entity? x = some e) :
    let m := (fresh collisions verifying).after commands
    ∃ n down rising, (m.addChild p).answer = .ok n ∧ m.entity? n = none ∧
      TakesIn m (m.addChild p).state p pe n x down rising := by
  intro m
  have f : Forest m := forest_after (forest_fresh collisions verifying) commands
  obtain ⟨t, ht⟩ := f.linked.exists_offspring hx
  exact ⟨m.nextEntity, _, _, f.answer_addChild hp, m.entity?_nextEntity,
    f.takesIn (f.checkParent_eq hp) hp hx ht⟩

/-- The root has two children, and the first of them gets its second child. -/
theorem new_child_comes_last_belowInner :
    let m := (fresh .replace true).after
      [.addRoot .joined .object, .addChild ⟨0⟩, .addChild ⟨0⟩, .addChild ⟨1⟩]
    ∃ pe n down rising, m.entity? ⟨1⟩ = some pe ∧ (m.addChild ⟨1⟩).answer = .ok n ∧
      TakesIn m (m.addChild ⟨1⟩).state ⟨1⟩ pe n ⟨0⟩ down rising ∧
      n = ⟨4⟩ ∧ down = [⟨1⟩, ⟨3⟩, ⟨2⟩] ∧ rising = [⟨3⟩, ⟨1⟩, ⟨2⟩] ∧
      (m.addChild ⟨1⟩).state.descendantCount ⟨0⟩ = .ok 4 := by
  intro m
  obtain ⟨n, down, rising, hn, _, taken⟩ := new_child_comes_last .replace true
    [.addRoot .joined .object, .addChild ⟨0⟩, .addChild ⟨0⟩, .addChild ⟨1⟩] ⟨1⟩ ⟨0⟩ _ _ rfl rfl
  have hdown : down = [⟨1⟩, ⟨3⟩, ⟨2⟩] := (Except.ok.inj taken.found_down).symm
  have hrising : rising = [⟨3⟩, ⟨1⟩, ⟨2⟩] := (Except.ok.inj taken.found_rising).symm
  refine ⟨_, n, down, rising, rfl, hn, taken, (Except.ok.inj hn).symm, hdown, hrising, ?_⟩
  rw [taken.count, hdown]
  rfl

end Model

end RelationalMapping
