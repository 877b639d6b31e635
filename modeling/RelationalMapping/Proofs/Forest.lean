import RelationalMapping.Proofs.Lineage
import RelationalMapping.Proofs.Step

/-!
The forest of a model. Parent links, lists of children and recorded roots are three views of the
same trees, kept apart from each other, and every command keeps them in step (`forest_step`). What
carries the rest is that a parent always has a smaller id than its children: no command states
it, but without it a lineage need not end.
-/

namespace RelationalMapping.Model

/-- The trees of a model, as every command leaves them. -/
structure Forest (m : Model) : Prop where
  /-- An entity has the id of its position. -/
  entity_id : ∀ {x : EntityId} {e : EntityMapping}, m.entity? x = some e → e.id = x
  /-- A hierarchy has the id of its position. -/
  hierarchy_id : ∀ {k : HierarchyId} {h : Hierarchy}, m.hierarchy? k = some h → h.id = k
  /-- A parent comes before its children. -/
  parent_lt : ∀ {x p : EntityId} {e : EntityMapping}, m.entity? x = some e → e.parent = some p →
    p.index < x.index
  /-- The children are those entities that name the parent. -/
  mem_children : ∀ {x : EntityId} {e : EntityMapping}, m.entity? x = some e → ∀ c,
    c ∈ e.children ↔ ∃ ce, m.entity? c = some ce ∧ ce.parent = some x
  /-- They are listed in the order of their creation. -/
  children_sorted : ∀ {x : EntityId} {e : EntityMapping}, m.entity? x = some e →
    e.children.Pairwise fun c d => c.index < d.index
  /-- A child shares its parent's hierarchy. -/
  parent_hierarchy : ∀ {x p : EntityId} {e pe : EntityMapping}, m.entity? x = some e →
    e.parent = some p → m.entity? p = some pe → e.hierarchy = pe.hierarchy
  /-- The hierarchy of a root records it. -/
  root_recorded : ∀ {x : EntityId} {e : EntityMapping}, m.entity? x = some e → e.parent = none →
    ∃ h, m.hierarchy? e.hierarchy = some h ∧ h.root = x
  /-- The recorded root is one and carries the hierarchy. -/
  recorded_root : ∀ {k : HierarchyId} {h : Hierarchy}, m.hierarchy? k = some h →
    ∃ e, m.entity? h.root = some e ∧ e.parent = none ∧ e.hierarchy = k

/-! ## Look-ups after a change -/

/-- The same trees: what differs is inside the entities and in the settings of hierarchies. -/
structure Alike (m m' : Model) : Prop where
  entity_forth : ∀ {x : EntityId} {e : EntityMapping}, m.entity? x = some e →
    ∃ e', m'.entity? x = some e' ∧ e.SamePlace e'
  entity_back : ∀ {x : EntityId} {e' : EntityMapping}, m'.entity? x = some e' →
    ∃ e, m.entity? x = some e ∧ e.SamePlace e'
  hierarchy_forth : ∀ {k : HierarchyId} {h : Hierarchy}, m.hierarchy? k = some h →
    ∃ h', m'.hierarchy? k = some h' ∧ h'.id = h.id ∧ h'.root = h.root
  hierarchy_back : ∀ {k : HierarchyId} {h' : Hierarchy}, m'.hierarchy? k = some h' →
    ∃ h, m.hierarchy? k = some h ∧ h'.id = h.id ∧ h'.root = h.root

theorem index_lt_of_hierarchy? {m : Model} {k : HierarchyId} {h : Hierarchy}
    (hk : m.hierarchy? k = some h) : k.index < m.hierarchies.length := by
  exact (List.getElem?_eq_some_iff.mp hk).1

theorem entity?_putEntity {m : Model} {id : EntityId} {e : EntityMapping}
    (he : m.entity? id = some e) (e' : EntityMapping) (x : EntityId) :
    (m.putEntity id e').entity? x = if x = id then some e' else m.entity? x := by
  split
  · rename_i hx
    rw [hx, entity?_putEntity_self e' (index_lt_of_entity? (by simp [he]))]
  · rename_i hx
    exact entity?_putEntity_of_ne e' hx

theorem alike_putEntity {m : Model} {id : EntityId} {e e' : EntityMapping}
    (he : m.entity? id = some e) (hp : e.SamePlace e') : Alike m (m.putEntity id e') := by
  refine ⟨fun {x} f hf => ?_, fun {x} f hf => ?_, fun {_} h hh => ⟨h, hh, rfl, rfl⟩,
    fun {_} h hh => ⟨h, hh, rfl, rfl⟩⟩
  · rw [entity?_putEntity he]
    split
    · rename_i hx
      rw [hx, he] at hf
      cases hf
      exact ⟨e', rfl, hp⟩
    · exact ⟨f, hf, .refl f⟩
  · rw [entity?_putEntity he] at hf
    split at hf
    · rename_i hx
      cases hf
      exact ⟨e, hx ▸ he, hp⟩
    · exact ⟨f, hf, .refl f⟩

theorem hierarchy?_putHierarchy {m : Model} {k : HierarchyId} {h : Hierarchy}
    (hk : m.hierarchy? k = some h) (h' : Hierarchy) (l : HierarchyId) :
    (m.putHierarchy k h').hierarchy? l = if l = k then some h' else m.hierarchy? l := by
  have hi : k.index < m.hierarchies.length := index_lt_of_hierarchy? hk
  by_cases hl : l = k
  · subst hl
    simp [hierarchy?, putHierarchy, hi]
  · have hne : k.index ≠ l.index := fun eq => hl (by cases k; cases l; simp_all)
    simp [hierarchy?, putHierarchy, List.getElem?_set_ne hne, hl]

theorem alike_putHierarchy {m : Model} {k : HierarchyId} {h h' : Hierarchy}
    (hk : m.hierarchy? k = some h) (hid : h'.id = h.id) (hroot : h'.root = h.root) :
    Alike m (m.putHierarchy k h') := by
  refine ⟨fun {_} e he => ⟨e, he, .refl e⟩, fun {_} e he => ⟨e, he, .refl e⟩,
    fun {l} g hg => ?_, fun {l} g hg => ?_⟩
  · by_cases hl : l = k
    · subst hl
      rw [hk] at hg
      cases hg
      exact ⟨h', by simp [hierarchy?_putHierarchy hk], hid, hroot⟩
    · exact ⟨g, by simp [hierarchy?_putHierarchy hk, hl, hg], rfl, rfl⟩
  · by_cases hl : l = k
    · subst hl
      simp only [hierarchy?_putHierarchy hk, if_true] at hg
      cases hg
      exact ⟨h, hk, hid, hroot⟩
    · simp only [hierarchy?_putHierarchy hk, hl, if_false] at hg
      exact ⟨g, hg, rfl, rfl⟩

/-- The forest depends on nothing else. -/
theorem Forest.alike {m m' : Model} (f : Forest m) (a : Alike m m') : Forest m' where
  entity_id := by
    intro x e' he'
    obtain ⟨e, he, hp⟩ := a.entity_back he'
    rw [hp.id, f.entity_id he]
  hierarchy_id := by
    intro k h' hh'
    obtain ⟨h, hh, hid, _⟩ := a.hierarchy_back hh'
    rw [hid, f.hierarchy_id hh]
  parent_lt := by
    intro x p e' he' hpar
    obtain ⟨e, he, hp⟩ := a.entity_back he'
    exact f.parent_lt he (hp.parent ▸ hpar)
  mem_children := by
    intro x e' he' c
    obtain ⟨e, he, hp⟩ := a.entity_back he'
    rw [hp.children, f.mem_children he]
    constructor
    · rintro ⟨ce, hce, hpar⟩
      obtain ⟨ce', hce', hpc⟩ := a.entity_forth hce
      exact ⟨ce', hce', by rw [hpc.parent, hpar]⟩
    · rintro ⟨ce', hce', hpar⟩
      obtain ⟨ce, hce, hpc⟩ := a.entity_back hce'
      exact ⟨ce, hce, by rw [← hpc.parent, hpar]⟩
  children_sorted := by
    intro x e' he'
    obtain ⟨e, he, hp⟩ := a.entity_back he'
    rw [hp.children]
    exact f.children_sorted he
  parent_hierarchy := by
    intro x p e' pe' he' hpar hpe'
    obtain ⟨e, he, hp⟩ := a.entity_back he'
    obtain ⟨pe, hpe, hpp⟩ := a.entity_back hpe'
    rw [hp.hierarchy, hpp.hierarchy]
    exact f.parent_hierarchy he (hp.parent ▸ hpar) hpe
  root_recorded := by
    intro x e' he' hpar
    obtain ⟨e, he, hp⟩ := a.entity_back he'
    obtain ⟨h, hh, hroot⟩ := f.root_recorded he (hp.parent ▸ hpar)
    obtain ⟨h', hh', _, hr⟩ := a.hierarchy_forth hh
    exact ⟨h', hp.hierarchy ▸ hh', by rw [hr, hroot]⟩
  recorded_root := by
    intro k h' hh'
    obtain ⟨h, hh, _, hr⟩ := a.hierarchy_back hh'
    obtain ⟨e, he, hpar, hk⟩ := f.recorded_root hh
    obtain ⟨e', he', hp⟩ := a.entity_forth he
    exact ⟨e', hr ▸ he', by rw [hp.parent, hpar], by rw [hp.hierarchy, hk]⟩

/-! ## A new entity -/

theorem getElem?_concat_eq_some_iff {α : Type} {l : List α} {a b : α} {i : Nat} :
    (l ++ [a])[i]? = some b ↔ l[i]? = some b ∨ i = l.length ∧ a = b := by
  rcases Nat.lt_trichotomy i l.length with h | rfl | h
  · rw [List.getElem?_append_left h]
    exact ⟨.inl, fun hb => hb.elim id fun hb => absurd hb.1 (Nat.ne_of_lt h)⟩
  · simp
  · have hl : l[i]? = none := List.getElem?_eq_none_iff.mpr (Nat.le_of_lt h)
    have hr : (l ++ [a])[i]? = none := List.getElem?_eq_none_iff.mpr (by simp; omega)
    simp [hl, hr, Nat.ne_of_gt h]

/-- The position of the entity that comes next. -/
def nextEntity (m : Model) : EntityId := ⟨m.entities.length⟩

theorem entity?_nextEntity (m : Model) : m.entity? m.nextEntity = none := by
  simp [entity?, nextEntity]

theorem ne_nextEntity {m : Model} {x : EntityId} {e : EntityMapping} (h : m.entity? x = some e) :
    x ≠ m.nextEntity := by
  rintro rfl
  rw [entity?_nextEntity] at h
  cases h

theorem index_lt_nextEntity {m : Model} {x : EntityId} {e : EntityMapping}
    (h : m.entity? x = some e) : x.index < m.nextEntity.index :=
  index_lt_of_entity? (by simp [h])

theorem eq_nextEntity_iff {m : Model} {x : EntityId} :
    x = m.nextEntity ↔ x.index = m.entities.length := by
  cases x
  simp [nextEntity]

/-- The root that is added to `m`. -/
def newRoot (m : Model) : EntityMapping :=
  { id := m.nextEntity, parent := none, hierarchy := ⟨m.hierarchies.length⟩
    collisions := m.collisions }

theorem entity?_addRoot_iff {m : Model} {inheritance : Inheritance} {mode : EntityMode}
    {x : EntityId} {e : EntityMapping} :
    (m.addRoot inheritance mode).state.entity? x = some e ↔
      m.entity? x = some e ∨ x = m.nextEntity ∧ m.newRoot = e := by
  rw [eq_nextEntity_iff]
  exact getElem?_concat_eq_some_iff

theorem hierarchy?_addRoot_iff {m : Model} {inheritance : Inheritance} {mode : EntityMode}
    {k : HierarchyId} {h : Hierarchy} :
    (m.addRoot inheritance mode).state.hierarchy? k = some h ↔
      m.hierarchy? k = some h ∨ k.index = m.hierarchies.length ∧
        { id := ⟨m.hierarchies.length⟩, root := m.nextEntity, settings := { inheritance, mode } }
          = h :=
  getElem?_concat_eq_some_iff

theorem Forest.addRoot {m : Model} (f : Forest m) (inheritance : Inheritance)
    (mode : EntityMode) : Forest (m.addRoot inheritance mode).state where
  entity_id := by
    intro x e he
    rcases entity?_addRoot_iff.mp he with he | ⟨rfl, rfl⟩
    · exact f.entity_id he
    · rfl
  hierarchy_id := by
    intro k h hk
    rcases hierarchy?_addRoot_iff.mp hk with hk | ⟨hk, rfl⟩
    · exact f.hierarchy_id hk
    · cases k
      simp_all
  parent_lt := by
    intro x p e he hp
    rcases entity?_addRoot_iff.mp he with he | ⟨rfl, rfl⟩
    · exact f.parent_lt he hp
    · cases hp
  mem_children := by
    intro x e he c
    rcases entity?_addRoot_iff.mp he with he | ⟨rfl, rfl⟩
    · rw [f.mem_children he]
      constructor
      · rintro ⟨ce, hce, hp⟩
        exact ⟨ce, entity?_addRoot_iff.mpr (.inl hce), hp⟩
      · rintro ⟨ce, hce, hp⟩
        rcases entity?_addRoot_iff.mp hce with hce | ⟨_, rfl⟩
        · exact ⟨ce, hce, hp⟩
        · cases hp
    · refine ⟨fun hc => absurd hc List.not_mem_nil, ?_⟩
      rintro ⟨ce, hce, hp⟩
      rcases entity?_addRoot_iff.mp hce with hce | ⟨_, rfl⟩
      · have := f.parent_lt hce hp
        have := index_lt_nextEntity hce
        omega
      · cases hp
  children_sorted := by
    intro x e he
    rcases entity?_addRoot_iff.mp he with he | ⟨rfl, rfl⟩
    · exact f.children_sorted he
    · exact .nil
  parent_hierarchy := by
    intro x p e pe he hp hpe
    rcases entity?_addRoot_iff.mp he with he | ⟨rfl, rfl⟩
    · rcases entity?_addRoot_iff.mp hpe with hpe | ⟨rfl, rfl⟩
      · exact f.parent_hierarchy he hp hpe
      · have := f.parent_lt he hp
        have := index_lt_nextEntity he
        omega
    · cases hp
  root_recorded := by
    intro x e he hp
    rcases entity?_addRoot_iff.mp he with he | ⟨rfl, rfl⟩
    · obtain ⟨h, hh, hr⟩ := f.root_recorded he hp
      exact ⟨h, hierarchy?_addRoot_iff.mpr (.inl hh), hr⟩
    · exact ⟨_, hierarchy?_addRoot_iff.mpr (.inr ⟨rfl, rfl⟩), rfl⟩
  recorded_root := by
    intro k h hk
    rcases hierarchy?_addRoot_iff.mp hk with hk | ⟨hk, rfl⟩
    · obtain ⟨e, he, hp, hh⟩ := f.recorded_root hk
      exact ⟨e, entity?_addRoot_iff.mpr (.inl he), hp, hh⟩
    · refine ⟨m.newRoot, entity?_addRoot_iff.mpr (.inr ⟨rfl, rfl⟩), rfl, ?_⟩
      cases k
      simp_all [newRoot]

/-- The child of `parent` that is added to `m`. -/
def newChild (m : Model) (parent : EntityId) (hierarchy : HierarchyId) : EntityMapping :=
  { id := m.nextEntity, parent := some parent, hierarchy, collisions := m.collisions }

/-- An entity after `parent` got a child. -/
def afterChild (m : Model) (parent x : EntityId) (e : EntityMapping) : EntityMapping :=
  if x = parent then { e with children := e.children ++ [m.nextEntity] } else e

theorem checkParent_eq_ok_iff {m : Model} {parent : EntityId} {k : HierarchyId} :
    m.checkParent parent = .ok k ↔
      ∃ e h, m.entity? parent = some e ∧ m.hierarchy? e.hierarchy = some h ∧
        m.top parent = .ok h.root ∧ e.hierarchy = k := by
  simp only [checkParent, getEntity, getHierarchy, Answer.bind_eq_ok_iff,
    Answer.ofOption_eq_ok_iff]
  constructor
  · rintro ⟨e, he, top, ht, h, hh, hk⟩
    split at hk
    · rename_i heq
      cases hk
      exact ⟨e, h, he, hh, heq ▸ ht, rfl⟩
    · cases hk
  · rintro ⟨e, h, he, hh, ht, rfl⟩
    exact ⟨e, he, h.root, ht, h, hh, by simp [pure, Except.pure]⟩

theorem entity?_addChild_iff {m : Model} {parent x : EntityId} {hierarchy : HierarchyId}
    {e' : EntityMapping} (hc : m.checkParent parent = .ok hierarchy) :
    (m.addChild parent).state.entity? x = some e' ↔
      (∃ e, m.entity? x = some e ∧ m.afterChild parent x e = e') ∨
        x = m.nextEntity ∧ m.newChild parent hierarchy = e' := by
  rw [eq_nextEntity_iff]
  simp only [addChild, hc, entity?, afterChild]
  refine getElem?_concat_eq_some_iff.trans (or_congr ?_ (by simp [newChild, nextEntity]))
  rw [List.getElem?_modify]
  by_cases hx : x = parent
  · simp [hx, nextEntity]
  · have hne : parent.index ≠ x.index := EntityId.index_ne (Ne.symm hx)
    simp [hx, hne]

/-- Every old entity stays where it is, with its parent and its hierarchy. -/
theorem entity?_addChild_old {m : Model} {parent x : EntityId} {k : HierarchyId}
    {e : EntityMapping} (hc : m.checkParent parent = .ok k) (he : m.entity? x = some e) :
    ∃ e', (m.addChild parent).state.entity? x = some e' ∧ e'.parent = e.parent ∧
      e'.hierarchy = e.hierarchy := by
  refine ⟨_, (entity?_addChild_iff hc).mpr (.inl ⟨e, he, rfl⟩), ?_⟩
  unfold afterChild
  split <;> exact ⟨rfl, rfl⟩

/-- An entity afterwards is an old one, with one more child if it is the parent, or the new one. -/
theorem of_entity?_addChild {m : Model} {parent x : EntityId} {k : HierarchyId}
    {e' : EntityMapping} (hc : m.checkParent parent = .ok k)
    (he' : (m.addChild parent).state.entity? x = some e') :
    (∃ e, m.entity? x = some e ∧ e'.id = e.id ∧ e'.parent = e.parent ∧
      e'.hierarchy = e.hierarchy ∧
      e'.children = if x = parent then e.children ++ [m.nextEntity] else e.children) ∨
    x = m.nextEntity ∧ m.newChild parent k = e' := by
  rcases (entity?_addChild_iff hc).mp he' with ⟨e, he, rfl⟩ | hn
  · refine .inl ⟨e, he, ?_⟩
    unfold afterChild
    split <;> exact ⟨rfl, rfl, rfl, rfl⟩
  · exact .inr hn

section

variable {β : Type} {m : Model} {x : EntityId} {absent : β} (read : EntityMapping → β)

/-- What is read at a position does not change with a new root, if a root has nothing of it. -/
theorem read_addRoot (hnew : read m.newRoot = absent) (inheritance : Inheritance)
    (mode : EntityMode) : ((m.addRoot inheritance mode).state.entity? x).elim absent read =
      (m.entity? x).elim absent read := by
  by_cases hx : x = m.nextEntity
  · have hroot : (m.addRoot inheritance mode).state.entity? x = some m.newRoot :=
      entity?_addRoot_iff.mpr (.inr ⟨hx, rfl⟩)
    rw [hroot, hx, entity?_nextEntity]
    exact hnew
  · have hsame : (m.addRoot inheritance mode).state.entity? x = m.entity? x :=
      Option.ext fun e => entity?_addRoot_iff.trans (by simp [hx])
    rw [hsame]

/-- And not with a new child, if it is not read off the list of children either. -/
theorem read_addChild {parent : EntityId} (hnew : ∀ k, read (m.newChild parent k) = absent)
    (hlisted : ∀ (e : EntityMapping) children, read { e with children } = read e) :
    ((m.addChild parent).state.entity? x).elim absent read = (m.entity? x).elim absent read := by
  cases hc : m.checkParent parent with
  | error fault => simp only [addChild, hc, Outcome.state_refuse]
  | ok k =>
    cases he : m.entity? x with
    | some e =>
      rw [(entity?_addChild_iff hc).mpr (.inl ⟨e, he, rfl⟩), Option.elim_some, Option.elim_some,
        afterChild]
      split
      · exact hlisted e _
      · rfl
    | none =>
      cases he' : (m.addChild parent).state.entity? x with
      | none => rfl
      | some e' =>
        rcases (entity?_addChild_iff hc).mp he' with ⟨e, hold, _⟩ | ⟨_, rfl⟩
        · rw [he] at hold
          cases hold
        · exact hnew k

end

theorem Forest.addChild {m : Model} (f : Forest m) {parent : EntityId} {k : HierarchyId}
    (hc : m.checkParent parent = .ok k) : Forest (m.addChild parent).state := by
  obtain ⟨pe, h, hpe, hh, _, rfl⟩ := checkParent_eq_ok_iff.mp hc
  have new : (m.addChild parent).state.entity? m.nextEntity =
      some (m.newChild parent pe.hierarchy) :=
    (entity?_addChild_iff hc).mpr (.inr ⟨rfl, rfl⟩)
  have hierarchies : ∀ k, (m.addChild parent).state.hierarchy? k = m.hierarchy? k := by
    intro k
    simp [Model.addChild, hc, hierarchy?]
  constructor
  case entity_id =>
    intro x e' he'
    rcases of_entity?_addChild hc he' with ⟨e, he, hid, _⟩ | ⟨rfl, rfl⟩
    · rw [hid, f.entity_id he]
    · rfl
  case hierarchy_id =>
    intro k h hk
    exact f.hierarchy_id (hierarchies k ▸ hk)
  case parent_lt =>
    intro x p e' he' hp
    rcases of_entity?_addChild hc he' with ⟨e, he, _, hpar, _⟩ | ⟨rfl, rfl⟩
    · exact f.parent_lt he (hpar ▸ hp)
    · cases hp
      exact index_lt_nextEntity hpe
  case mem_children =>
    intro x e' he' c
    rcases of_entity?_addChild hc he' with ⟨e, he, _, _, _, hch⟩ | ⟨rfl, rfl⟩
    · have hmem : c ∈ e'.children ↔ c ∈ e.children ∨ x = parent ∧ c = m.nextEntity := by
        rw [hch]
        split <;> simp [*]
      rw [hmem, f.mem_children he]
      constructor
      · rintro (⟨ce, hce, hp⟩ | ⟨rfl, rfl⟩)
        · obtain ⟨ce', hce', hpar, _⟩ := entity?_addChild_old hc hce
          exact ⟨ce', hce', by rw [hpar, hp]⟩
        · exact ⟨_, new, rfl⟩
      · rintro ⟨ce', hce', hp⟩
        rcases of_entity?_addChild hc hce' with ⟨ce, hce, _, hpar, _⟩ | ⟨hc', rfl⟩
        · exact .inl ⟨ce, hce, by rw [← hpar, hp]⟩
        · cases hp
          exact .inr ⟨rfl, hc'⟩
    · refine ⟨fun h => absurd h List.not_mem_nil, ?_⟩
      rintro ⟨ce', hce', hp⟩
      rcases of_entity?_addChild hc hce' with ⟨ce, hce, _, hpar, _⟩ | ⟨_, rfl⟩
      · have := f.parent_lt hce (hpar ▸ hp)
        have := index_lt_nextEntity hce
        omega
      · cases hp
        exact absurd rfl (ne_nextEntity hpe)
  case children_sorted =>
    intro x e' he'
    rcases of_entity?_addChild hc he' with ⟨e, he, _, _, _, hch⟩ | ⟨rfl, rfl⟩
    · rw [hch]
      split
      · refine List.pairwise_append.mpr ⟨f.children_sorted he, List.pairwise_singleton _ _, ?_⟩
        intro c hcm d hd
        obtain ⟨ce, hce, _⟩ := (f.mem_children he c).mp hcm
        rw [List.mem_singleton.mp hd]
        exact index_lt_nextEntity hce
      · exact f.children_sorted he
    · exact .nil
  case parent_hierarchy =>
    intro x p e' pe' he' hp hpe'
    rcases of_entity?_addChild hc he' with ⟨e, he, _, hpar, hhi, _⟩ | ⟨rfl, rfl⟩
    · rcases of_entity?_addChild hc hpe' with ⟨q, hq, _, _, hqh, _⟩ | ⟨rfl, rfl⟩
      · rw [hhi, hqh]
        exact f.parent_hierarchy he (hpar ▸ hp) hq
      · have := f.parent_lt he (hpar ▸ hp)
        have := index_lt_nextEntity he
        omega
    · cases hp
      obtain ⟨q, hq, _, hqh⟩ := entity?_addChild_old hc hpe
      rw [hpe'] at hq
      cases hq
      exact hqh.symm
  case root_recorded =>
    intro x e' he' hp
    rcases of_entity?_addChild hc he' with ⟨e, he, _, hpar, hhi, _⟩ | ⟨rfl, rfl⟩
    · obtain ⟨h, hh, hr⟩ := f.root_recorded he (hpar ▸ hp)
      exact ⟨h, by rw [hierarchies, hhi, hh], hr⟩
    · cases hp
  case recorded_root =>
    intro k h hk
    obtain ⟨e, he, hp, hhi⟩ := f.recorded_root (hierarchies k ▸ hk)
    obtain ⟨e', he', hpar, hhi'⟩ := entity?_addChild_old hc he
    exact ⟨e', he', by rw [hpar, hp], by rw [hhi', hhi]⟩

/-! ## Every run -/

theorem forest_fresh (collisions : NameCollision) (verifying : Bool) :
    Forest (fresh collisions verifying) := by
  constructor <;> intros <;> simp_all [fresh, entity?, hierarchy?]

/-- No command breaks the forest. -/
theorem forest_step {given : AttributeMapping → Prop} {m : Model} {o : Outcome Model Reply}
    (f : Forest m) (h : m.Step given o) : Forest o.state := by
  cases h with
  | refused fault => exact f
  | root inheritance mode => exact f.addRoot inheritance mode
  | child parent k hparent => exact f.addChild hparent
  | settings events hentity hplace hstore hdeclared =>
    exact f.alike (alike_putEntity hentity hplace)
  | hierarchy hhierarchy change => exact f.alike (alike_putHierarchy hhierarchy rfl rfl)
  | binding hentity hbound => exact f.alike (alike_putEntity hentity hbound.samePlace)

theorem forest_after {m : Model} (f : Forest m) (commands : List Command) :
    Forest (m.after commands) :=
  after_induction f fun _ _ _ _ hf hs => forest_step hf hs

/-- Every lineage ends at the root that the entity's hierarchy records. -/
theorem Forest.lineage {m : Model} (f : Forest m) {x : EntityId} {e : EntityMapping}
    (he : m.entity? x = some e) :
    ∃ up h, Lineage m e.parent up ∧ m.hierarchy? e.hierarchy = some h ∧
      (up.getLast?.map EntityMapping.id).getD x = h.root := by
  -- parents come first, so the induction is on the position
  induction hi : x.index using Nat.strongRecOn generalizing x e with
  | ind i ih =>
    cases hp : e.parent with
    | none =>
      obtain ⟨h, hh, hr⟩ := f.root_recorded he hp
      exact ⟨[], h, .root, hh, hr.symm⟩
    | some p =>
      have hlt : p.index < x.index := f.parent_lt he hp
      obtain ⟨pe, hpe⟩ : ∃ pe, m.entity? p = some pe := by
        have := index_lt_nextEntity he
        exact ⟨_, List.getElem?_eq_getElem (Nat.lt_trans hlt this)⟩
      obtain ⟨up, h, hl, hh, hr⟩ := ih p.index (hi ▸ hlt) hpe rfl
      refine ⟨pe :: up, h, .step hpe hl, by rw [f.parent_hierarchy he hp hpe, hh], ?_⟩
      cases up with
      | nil => simpa [f.entity_id hpe] using hr
      | cons first rest => simpa [List.getLast?_cons] using hr

theorem Forest.top_eq {m : Model} (f : Forest m) {x : EntityId} {e : EntityMapping}
    (he : m.entity? x = some e) :
    ∃ h, m.hierarchy? e.hierarchy = some h ∧ m.top x = .ok h.root := by
  obtain ⟨up, h, hl, hh, hr⟩ := f.lineage he
  exact ⟨h, hh, hr ▸ top_of_lineage he hl⟩

theorem Forest.checkParent_eq {m : Model} (f : Forest m) {p : EntityId} {e : EntityMapping}
    (he : m.entity? p = some e) : m.checkParent p = .ok e.hierarchy := by
  obtain ⟨h, hh, ht⟩ := f.top_eq he
  exact checkParent_eq_ok_iff.mpr ⟨e, h, he, hh, ht, rfl⟩

/-- An existing entity may always get a child. -/
theorem Forest.answer_addChild {m : Model} (f : Forest m) {p : EntityId} {e : EntityMapping}
    (he : m.entity? p = some e) : (m.addChild p).answer = .ok m.nextEntity := by
  simp only [Model.addChild, f.checkParent_eq he]
  rfl

/-- Each hierarchy has one root, the recorded one. -/
theorem Forest.root_unique {m : Model} (f : Forest m) {k : HierarchyId} {h : Hierarchy}
    (hk : m.hierarchy? k = some h) (x : EntityId) :
    (∃ e, m.entity? x = some e ∧ e.parent = none ∧ e.hierarchy = k) ↔ x = h.root := by
  constructor
  · rintro ⟨e, he, hp, rfl⟩
    obtain ⟨h', hh', hr⟩ := f.root_recorded he hp
    rw [hk] at hh'
    cases hh'
    exact hr.symm
  · rintro rfl
    exact f.recorded_root hk

/-- After every run from a fresh model the three views of the trees agree: parents, children and
ids are in step, each hierarchy is carried by one root, and the walk from an entity to its root
ends at the one its hierarchy records. So an existing entity is never refused a child. -/
theorem tree_views_agree (collisions : NameCollision) (verifying : Bool)
    (commands : List Command) :
    let m := (fresh collisions verifying).after commands
    Forest m ∧
      (∀ k h, m.hierarchy? k = some h → ∃! x, ∃ e, m.entity? x = some e ∧ e.parent = none ∧
        e.hierarchy = k) ∧
      (∀ x e, m.entity? x = some e → ∃ h, m.hierarchy? e.hierarchy = some h ∧
        m.top x = .ok h.root) ∧
      ∀ p e, m.entity? p = some e → (m.addChild p).answer = .ok m.nextEntity := by
  have f : Forest ((fresh collisions verifying).after commands) :=
    forest_after (forest_fresh collisions verifying) commands
  refine ⟨f, fun k h hk => ?_, fun x e he => f.top_eq he, fun p e he => f.answer_addChild he⟩
  exact ⟨h.root, (f.root_unique hk h.root).mpr rfl, fun x hx => (f.root_unique hk x).mp hx⟩

end RelationalMapping.Model
