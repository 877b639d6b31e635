import RelationalMapping.Proofs.Descent
import RelationalMapping.Proofs.Independence

/-!
Whether an entity is polymorphic is decided by what is next to it: a parent, a child, or a
discriminator of its hierarchy. What that comes to is a fact about the whole tree, since a second
member anywhere in it is below a child of the root (`Forest.hasChildren_of_other`).

* `Forest.isPolymorphic_eq`: an entity is polymorphic when its hierarchy has a discriminator or at
  least two members.
* `Forest.apply_elsewhere`: a command on another hierarchy leaves the entity alone.
* `polymorphic_iff_shared`: both for every run, with what follows for the members of one hierarchy.
-/

namespace RelationalMapping.Model

variable {m m' : Model} {x y : EntityId} {e g : EntityMapping} {k : HierarchyId} {c : Command}

/-! ## The members of a hierarchy -/

/-- How many entities carry the hierarchy. -/
def memberCount (m : Model) (k : HierarchyId) : Nat :=
  m.entities.countP fun e => e.hierarchy == k

theorem two_le_memberCount_iff (he : m.entity? x = some e) :
    2 ≤ m.memberCount e.hierarchy ↔
      ∃ y g, y ≠ x ∧ m.entity? y = some g ∧ g.hierarchy = e.hierarchy := by
  obtain ⟨hlt, hx⟩ := List.getElem?_eq_some_iff.mp he
  have hperm : (e :: m.entities.eraseIdx x.index).Perm m.entities :=
    hx ▸ List.getElem_cons_eraseIdx_perm hlt
  have hcount : m.memberCount e.hierarchy =
      (m.entities.eraseIdx x.index).countP (fun g => g.hierarchy == e.hierarchy) + 1 := by
    rw [memberCount, ← hperm.countP_eq, List.countP_cons_of_pos (by simp)]
  have hrest : 2 ≤ m.memberCount e.hierarchy ↔
      0 < (m.entities.eraseIdx x.index).countP fun g => g.hierarchy == e.hierarchy := by omega
  rw [hrest, List.countP_pos_iff]
  constructor
  · rintro ⟨g, hg, hk⟩
    obtain ⟨i, hne, hi⟩ := List.mem_eraseIdx_iff_getElem?.mp hg
    exact ⟨⟨i⟩, g, fun heq => hne (congrArg EntityId.index heq), hi, by simpa using hk⟩
  · rintro ⟨y, g, hne, hg, hk⟩
    have hi : y.index ≠ x.index := EntityId.index_ne hne
    exact ⟨g, List.mem_eraseIdx_iff_getElem?.mpr ⟨y.index, hi, hg⟩, by simpa using hk⟩

/-- The parent of an entity is another member of its hierarchy. -/
theorem Forest.exists_parent (f : Forest m) (he : m.entity? x = some e) {p : EntityId}
    (hp : e.parent = some p) :
    ∃ pe, p ≠ x ∧ m.entity? p = some pe ∧ pe.hierarchy = e.hierarchy := by
  obtain ⟨pe, hpe, _⟩ := f.linked.listed_once he hp
  exact ⟨pe, EntityId.ne_of_lt (f.parent_lt he hp), hpe, (f.parent_hierarchy he hp hpe).symm⟩

/-- The way up from another member to the root passes through a child of the root. -/
theorem Forest.hasChildren_of_other (f : Forest m) (he : m.entity? x = some e)
    (hroot : e.parent = none) (hne : y ≠ x) (hg : m.entity? y = some g)
    (hk : g.hierarchy = e.hierarchy) : e.hasChildren = true := by
  obtain ⟨h, hh, _⟩ := f.root_recorded he hroot
  have hx : x = h.root := (f.root_unique hh x).mp ⟨e, he, hroot, rfl⟩
  -- parents come first, so the induction is on the position of the member
  induction hi : y.index using Nat.strongRecOn generalizing y g with
  | ind i ih =>
    cases hp : g.parent with
    | none =>
      have hy : y = h.root := (f.root_unique hh y).mp ⟨g, hg, hp, hk⟩
      exact absurd (hy.trans hx.symm) hne
    | some p =>
      by_cases hpx : p = x
      · have hchild : y ∈ e.children := (f.mem_children he y).mpr ⟨g, hg, hpx ▸ hp⟩
        simp [EntityMapping.hasChildren, List.ne_nil_of_mem hchild]
      · obtain ⟨pe, _, hpe, hph⟩ := f.exists_parent hg hp
        exact ih p.index (hi ▸ f.parent_lt hg hp) hpx hpe (hph.trans hk) rfl

/-- A root has a child when its hierarchy has a second member, and only then. -/
theorem Forest.hasChildren_eq (f : Forest m) (he : m.entity? x = some e)
    (hroot : e.parent = none) :
    e.hasChildren = decide (2 ≤ m.memberCount e.hierarchy) := by
  rw [Bool.eq_iff_iff, decide_eq_true_iff, two_le_memberCount_iff he]
  constructor
  · intro hc
    obtain ⟨c, hc⟩ : ∃ c, c ∈ e.children :=
      List.exists_mem_of_ne_nil _ (by simpa [EntityMapping.hasChildren] using hc)
    obtain ⟨ce, hce, hp⟩ := (f.mem_children he c).mp hc
    have hne : c ≠ x := (EntityId.ne_of_lt (f.parent_lt hce hp)).symm
    exact ⟨c, ce, hne, hce, f.parent_hierarchy hce hp he⟩
  · rintro ⟨y, g, hne, hg, hk⟩
    exact f.hasChildren_of_other he hroot hne hg hk

/-- What an entity answers is a matter of its hierarchy and of the number of its members. -/
theorem Forest.isPolymorphic_eq (f : Forest m) (he : m.entity? x = some e) {h : Hierarchy}
    (hh : m.hierarchy? e.hierarchy = some h) :
    m.isPolymorphic x =
      .ok (h.hasDiscriminator || decide (2 ≤ m.memberCount e.hierarchy)) := by
  have hentity : m.getEntity x = .ok e := Answer.ofOption_eq_ok_iff.mpr he
  have hhierarchy : m.getHierarchy e.hierarchy = .ok h := Answer.ofOption_eq_ok_iff.mpr hh
  unfold isPolymorphic
  rw [hentity]
  cases hp : e.parent with
  | none =>
    simp only [bind, Except.bind, EntityMapping.isRoot, hp, Option.isNone_none, if_true,
      hhierarchy, f.hasChildren_eq he hp]
    rfl
  | some p =>
    have htwo : 2 ≤ m.memberCount e.hierarchy := by
      obtain ⟨pe, hne, hpe, hk⟩ := f.exists_parent he hp
      exact (two_le_memberCount_iff he).mpr ⟨p, pe, hne, hpe, hk⟩
    simp only [bind, Except.bind, EntityMapping.isRoot, hp, htwo, decide_true, Bool.or_true]
    rfl

theorem isVersioned_eq (he : m.entity? x = some e) {h : Hierarchy}
    (hh : m.hierarchy? e.hierarchy = some h) : m.isVersioned x = .ok h.isVersioned := by
  have hentity : m.getEntity x = .ok e := Answer.ofOption_eq_ok_iff.mpr he
  have hhierarchy : m.getHierarchy e.hierarchy = .ok h := Answer.ofOption_eq_ok_iff.mpr hh
  simp only [isVersioned, hierarchyOf, hentity, bind, Except.bind, hhierarchy]
  rfl

/-! ## Commands on other hierarchies -/

/-- The hierarchy that a command works on. There is none where its entity is missing. -/
def hierarchyIn? (m : Model) (c : Command) : Option HierarchyId :=
  match c with
  | .addRoot .. => some ⟨m.hierarchies.length⟩
  | .addChild parent => (m.entity? parent).map EntityMapping.hierarchy
  | .configureHierarchy k _ => some k
  | c => c.entity?.bind fun x => (m.entity? x).map EntityMapping.hierarchy

/-- None of the commands works on the hierarchy at its turn. -/
def Elsewhere (k : HierarchyId) : Model → List Command → Prop
  | _, [] => True
  | m, c :: rest => m.hierarchyIn? c ≠ some k ∧ Elsewhere k (m.apply c).state rest

/-- The entity and its hierarchy are in `m'` what they are in `m`. -/
structure LeftAlone (m m' : Model) (x : EntityId) (k : HierarchyId) : Prop where
  entity : m'.entity? x = m.entity? x
  hierarchy : m'.hierarchy? k = m.hierarchy? k

theorem LeftAlone.refl : LeftAlone m m x k := ⟨rfl, rfl⟩

theorem LeftAlone.trans {m'' : Model} (h : LeftAlone m m' x k) (h' : LeftAlone m' m'' x k) :
    LeftAlone m m'' x k :=
  ⟨h'.entity.trans h.entity, h'.hierarchy.trans h.hierarchy⟩

theorem leftAlone_onEntity {α : Type} {f : EntityMapping → Outcome EntityMapping α}
    (hne : y ≠ x) : LeftAlone m (m.onEntity y f).state x k := by
  refine ⟨entity?_onEntity_of_ne hne, ?_⟩
  unfold onEntity
  cases m.entity? y <;> rfl

/-- A command on an entity of another hierarchy leaves the entity alone. -/
theorem leftAlone_of_entity? (he : m.entity? x = some e) (hy : c.entity? = some y)
    (hc : (m.entity? y).map EntityMapping.hierarchy ≠ some e.hierarchy) :
    LeftAlone m (m.apply c).state x e.hierarchy := by
  obtain ⟨f, hf⟩ := Command.localTo hy
  have hne : y ≠ x := fun heq => hc (by rw [heq, he]; rfl)
  exact hf m ▸ leftAlone_onEntity hne

theorem leftAlone_addRoot (he : m.entity? x = some e) {h : Hierarchy}
    (hh : m.hierarchy? e.hierarchy = some h) (inheritance : Inheritance) (mode : EntityMode) :
    LeftAlone m (m.addRoot inheritance mode).state x e.hierarchy :=
  ⟨(entity?_addRoot_iff.mpr (.inl he)).trans he.symm,
    (hierarchy?_addRoot_iff.mpr (.inl hh)).trans hh.symm⟩

theorem leftAlone_addChild (he : m.entity? x = some e) {parent : EntityId} (hne : parent ≠ x) :
    LeftAlone m (m.addChild parent).state x e.hierarchy := by
  cases hp : m.checkParent parent with
  | error fault =>
    have hr : (m.addChild parent).state = m := by simp only [addChild, hp, Outcome.state_refuse]
    rw [hr]
    exact .refl
  | ok k =>
    have hkept : m.afterChild parent x e = e := if_neg hne.symm
    refine ⟨((entity?_addChild_iff hp).mpr (.inl ⟨e, he, hkept⟩)).trans he.symm, ?_⟩
    simp only [addChild, hp, hierarchy?]

theorem leftAlone_changeHierarchy {l : HierarchyId} {f : Hierarchy → Hierarchy} (hne : l ≠ k) :
    LeftAlone m (m.changeHierarchy l f).state x k := by
  unfold changeHierarchy
  cases hl : m.hierarchy? l with
  | none => exact .refl
  | some h => exact ⟨rfl, (hierarchy?_putHierarchy hl (f h) k).trans (if_neg hne.symm)⟩

/-- A command on another hierarchy leaves the entity alone. -/
theorem Forest.apply_elsewhere (f : Forest m) (he : m.entity? x = some e)
    (hc : m.hierarchyIn? c ≠ some e.hierarchy) : LeftAlone m (m.apply c).state x e.hierarchy := by
  cases c with
  | addRoot inheritance mode =>
    obtain ⟨h, hh, _⟩ := f.top_eq he
    exact leftAlone_addRoot he hh inheritance mode
  | addChild parent =>
    have hne : parent ≠ x := fun heq => hc (by rw [heq, hierarchyIn?, he]; rfl)
    exact leftAlone_addChild he hne
  | configureHierarchy l change =>
    have hne : l ≠ e.hierarchy := fun heq => hc (congrArg some heq)
    exact leftAlone_changeHierarchy hne
  | setType _ _ | setPrimaryTable _ _ | setPrimaryTableName _ _ | addSecondaryTable _ _
  | addFilter _ _ | addSynchronizedTables _ _ | configureEntity _ _ | bindBasic _ _ _ _ _
  | bindComponent _ _ _ _ | bindReference _ _ _ _ _ _ | bindCollection _ _ _ _ _ _
  | bindVirtual _ _ _ _ | bindInverse _ _ _ | register _ _ => exact leftAlone_of_entity? he rfl hc

theorem Forest.after_elsewhere (f : Forest m) (he : m.entity? x = some e) {later : List Command}
    (hl : Elsewhere e.hierarchy m later) : LeftAlone m (m.after later) x e.hierarchy := by
  induction later generalizing m with
  | nil => exact .refl
  | cons c rest ih =>
    obtain ⟨hc, hrest⟩ := hl
    have hone : LeftAlone m (m.apply c).state x e.hierarchy := f.apply_elsewhere he hc
    exact hone.trans (ih (forest_step f (step_apply m c)) (hone.entity.trans he) hrest)

/-- What an entity answers is read off itself and its hierarchy. -/
theorem LeftAlone.answers (h : LeftAlone m m' x e.hierarchy) (he : m.entity? x = some e) :
    m'.isPolymorphic x = m.isPolymorphic x ∧ m'.isVersioned x = m.isVersioned x := by
  have hentity : m'.getEntity x = m.getEntity x := congrArg _ h.entity
  have hfound : m.getEntity x = .ok e := Answer.ofOption_eq_ok_iff.mpr he
  have hhierarchy : m'.getHierarchy e.hierarchy = m.getHierarchy e.hierarchy :=
    congrArg _ h.hierarchy
  constructor
  · simp only [isPolymorphic, hentity, hfound, bind, Except.bind, hhierarchy]
  · simp only [isVersioned, hierarchyOf, hentity, hfound, bind, Except.bind, hhierarchy]

/-- After every run an entity is polymorphic when its hierarchy has a discriminator or at least two
members, and versioned when its hierarchy is. All the members answer alike, and commands on other
hierarchies change nothing about the answers. -/
theorem polymorphic_iff_shared (collisions : NameCollision) (verifying : Bool)
    (commands : List Command) (x : EntityId) (e : EntityMapping)
    (he : ((fresh collisions verifying).after commands).entity? x = some e) :
    let m := (fresh collisions verifying).after commands
    ∃ h, m.hierarchy? e.hierarchy = some h ∧
      m.isPolymorphic x =
        .ok (h.hasDiscriminator || decide (2 ≤ m.memberCount e.hierarchy)) ∧
      m.isVersioned x = .ok h.isVersioned ∧
      (∀ y g, m.entity? y = some g → g.hierarchy = e.hierarchy →
        m.isPolymorphic y = m.isPolymorphic x ∧ m.isVersioned y = m.isVersioned x) ∧
      ∀ later, Elsewhere e.hierarchy m later →
        (m.after later).isPolymorphic x = m.isPolymorphic x ∧
          (m.after later).isVersioned x = m.isVersioned x := by
  intro m
  have f : Forest m := forest_after (forest_fresh collisions verifying) commands
  obtain ⟨h, hh, _⟩ := f.top_eq he
  have hpolymorphic := f.isPolymorphic_eq he hh
  have hversioned := isVersioned_eq he hh
  refine ⟨h, hh, hpolymorphic, hversioned, fun y g hg hk => ?_, fun later hl => ?_⟩
  · have hhg : m.hierarchy? g.hierarchy = some h := hk ▸ hh
    rw [f.isPolymorphic_eq hg hhg, isVersioned_eq hg hhg, hpolymorphic, hversioned, hk]
    exact ⟨rfl, rfl⟩
  · exact (f.after_elsewhere he hl).answers he

/-- Two trees, the first with a child. Later on the second becomes polymorphic and versioned, and
the members of the first answer as before. -/
theorem polymorphic_iff_shared_twoTrees :
    let m := (fresh .replace true).after
      [.addRoot .joined .object, .addRoot .joined .object, .addChild ⟨0⟩]
    let later := [.addChild ⟨1⟩,
      .configureHierarchy ⟨1⟩ fun s => { s with version := some ⟨⟨1⟩, 0⟩ },
      .setPrimaryTableName ⟨3⟩ "notes"]
    m.isPolymorphic ⟨0⟩ = .ok true ∧ m.isPolymorphic ⟨2⟩ = m.isPolymorphic ⟨0⟩ ∧
      m.isPolymorphic ⟨1⟩ = .ok false ∧ (m.after later).isPolymorphic ⟨1⟩ = .ok true ∧
      (m.after later).isPolymorphic ⟨0⟩ = m.isPolymorphic ⟨0⟩ ∧
      (m.after later).isVersioned ⟨0⟩ = m.isVersioned ⟨0⟩ := by
  intro m later
  obtain ⟨h, hh, hpolymorphic, _, hmembers, hlater⟩ := polymorphic_iff_shared .replace true
    [.addRoot .joined .object, .addRoot .joined .object, .addChild ⟨0⟩] ⟨0⟩ _ rfl
  refine ⟨?_, (hmembers ⟨2⟩ _ rfl rfl).1, rfl, rfl, hlater later ?_⟩
  · cases hh
    exact hpolymorphic
  · exact ⟨by decide, by decide, by decide, trivial⟩

end RelationalMapping.Model
