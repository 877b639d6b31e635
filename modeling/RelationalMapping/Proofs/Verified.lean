import RelationalMapping.Proofs.Coherence
import RelationalMapping.Proofs.Cycles
import RelationalMapping.Proofs.Descent

/-!
What holds of the trees of a verified model, however it came about. Verification looks at single
links only: from an entity to its parent and to its children, and from a hierarchy to its root.

* `verified_walks_agree`: the links make trees, as in a model that was built by commands, if no
  parent links run in a cycle and every entity has the id of its position.
* `verified_roots`: all hierarchies record the tops of their trees exactly if every root is recorded
  by a hierarchy that stands at the position of its id. Verification does not look from the roots
  back to the hierarchies, so it misses that one is overwritten (`verify_overwrittenHierarchy`).
-/

namespace RelationalMapping.Model

variable {m : Model}

theorem mem_of_entity? {x : EntityId} {e : EntityMapping} (he : m.entity? x = some e) :
    e ∈ m.entities :=
  List.mem_of_getElem? he

/-- The last entity of a lineage is a root. -/
theorem Lineage.parent_last {e : EntityMapping} {up : List EntityMapping}
    (h : Lineage m e.parent up) : (up.getLast?.getD e).parent = none := by
  generalize ho : e.parent = o at h
  induction h generalizing e with
  | root => simpa using ho
  | step _ _ ih => simpa [List.getLast?_cons] using ih rfl

/-! ## Trees -/

/-- An entity shares its hierarchy with all of its lineage. -/
theorem Connected.hierarchy_lineage (c : Connected m) {x : EntityId} {e : EntityMapping}
    {up : List EntityMapping} (he : m.entity? x = some e) (h : Lineage m e.parent up) :
    ∀ a ∈ up, a.hierarchy = e.hierarchy := by
  generalize ho : e.parent = o at h
  induction h generalizing x e with
  | root => simp
  | @step p pe up hpe _ ih =>
    obtain ⟨pe', hpe', _, hsame⟩ := c.parents e (mem_of_entity? he) p ho
    rw [hpe] at hpe'
    cases hpe'
    refine List.forall_mem_cons.mpr ⟨hsame, fun a ha => ?_⟩
    rw [ih hpe rfl a ha, hsame]

/-- Parents coming first, parent links run in no cycle. -/
theorem Forest.acyclic_parentLink (f : Forest m) : Acyclic m.ParentLink :=
  .of_rank EntityId.index fun _ _ ⟨_, he, hp⟩ => f.parent_lt he hp

theorem Connected.linked (c : Connected m)
    (hplace : ∀ x e, m.entity? x = some e → e.id = x) (ha : Acyclic m.ParentLink) :
    Linked m where
  entity_id := fun he => hplace _ _ he
  listed_once := by
    intro x p e he hp
    obtain ⟨pe, hpe, hcount, _⟩ := c.parents e (mem_of_entity? he) p hp
    rw [hplace x e he] at hcount
    exact ⟨pe, hpe, hcount⟩
  listed_parent := by
    intro x k e he hk
    obtain ⟨ke, hke, hp⟩ := c.children e (mem_of_entity? he) k hk
    rw [hplace x e he] at hp
    exact ⟨ke, hke, hp⟩
  grounded := by
    intro x e he
    rcases lineage_or_strays ha he with hl | hs
    · exact hl
    · -- every parent is there, so no walk strays
      obtain ⟨y, p, ⟨f, hf, hp⟩, hnone⟩ := hs.exists_dangling he
      obtain ⟨pe, hpe, _⟩ := c.parents f (mem_of_entity? hf) p hp
      rw [hnone] at hpe
      cases hpe

/-- The links of a verified model make trees, if those to parents run in no cycle and every entity
stands at the position of its id. The walk up from an entity ends at a root; the walks below it end
and meet the entities whose own walk up comes across it, each once; and these all have its
hierarchy. -/
theorem verified_walks_agree (m : Model) (hplace : ∀ x e, m.entity? x = some e → e.id = x)
    (ha : Acyclic m.ParentLink) (hv : m.verify = .ok ()) (x : EntityId) (e : EntityMapping)
    (he : m.entity? x = some e) :
    ∃ up down rising, (m.ancestors x).all = .ok up ∧ (up.getLast?.getD e).parent = none ∧
      WalksAgree m x down rising ∧ (∀ d ∈ down, d.hierarchy = e.hierarchy) ∧
      ∀ d ∈ rising, d.hierarchy = e.hierarchy := by
  have c : Connected m := (Coherent.of_verifyWithin hv).toConnected
  have l : Linked m := c.linked hplace ha
  obtain ⟨up, hl⟩ := l.grounded he
  obtain ⟨down, rising, w⟩ := l.walksAgree he
  have hdown : ∀ d ∈ down, d.hierarchy = e.hierarchy := by
    intro d hd
    have hfound : m.entity? d.id = some d := w.found d hd
    obtain ⟨above, habove, hiff⟩ := w.mem_down_iff d.id (by simp [hfound])
    obtain ⟨d', hd', hup⟩ := all_ancestors_iff.mp habove
    rw [hfound] at hd'
    cases hd'
    -- `e` is in the lineage of `d`, as its id is
    obtain ⟨f, hf, hid⟩ := List.mem_map.mp (hiff.mp (List.mem_map.mpr ⟨d, hd, rfl⟩))
    obtain ⟨p, hp⟩ := hup.exists_lookup f hf
    rw [← hplace p f hp, hid, he] at hp
    cases hp
    exact (c.hierarchy_lineage hfound hup e hf).symm
  exact ⟨up, down, rising, all_ancestors_iff.mpr ⟨e, he, hl⟩, hl.parent_last, w, hdown,
    fun d hd => hdown d (w.perm.mem_iff.mp hd)⟩

/-- Two trees, the second one of three levels. -/
def twoTrees : Model :=
  (fresh .replace true).after
    [.addRoot .joined .object, .addChild ⟨0⟩, .addRoot .joined .object, .addChild ⟨2⟩,
      .addChild ⟨3⟩]

theorem forest_twoTrees : Forest twoTrees := forest_after (forest_fresh .replace true) _

theorem verified_walks_agree_twoTrees :
    (∀ x e, twoTrees.entity? x = some e → e.id = x) ∧ Acyclic twoTrees.ParentLink ∧
      twoTrees.verify = .ok () ∧ ∃ e up down rising, twoTrees.entity? ⟨2⟩ = some e ∧
        (twoTrees.ancestors ⟨2⟩).all = .ok up ∧ (up.getLast?.getD e).parent = none ∧
        WalksAgree twoTrees ⟨2⟩ down rising ∧ (∀ d ∈ down, d.hierarchy = e.hierarchy) ∧
        ∀ d ∈ rising, d.hierarchy = e.hierarchy := by
  have hplace : ∀ x e, twoTrees.entity? x = some e → e.id = x :=
    fun _ _ he => forest_twoTrees.entity_id he
  have ha : Acyclic twoTrees.ParentLink := forest_twoTrees.acyclic_parentLink
  obtain ⟨up, down, rising, h⟩ := verified_walks_agree twoTrees hplace ha rfl ⟨2⟩ _ rfl
  exact ⟨hplace, ha, rfl, _, up, down, rising, rfl, h⟩

/-! ## Roots -/

/-- The positions of the roots. -/
def rootIds (m : Model) : List EntityId :=
  (m.entities.zipIdx.filter fun p => p.1.isRoot).map fun p => ⟨p.2⟩

theorem mem_rootIds {x : EntityId} {e : EntityMapping} (he : m.entity? x = some e)
    (hr : e.parent = none) : x ∈ m.rootIds := by
  refine List.mem_map.mpr ⟨(e, x.index), List.mem_filter.mpr ⟨?_, ?_⟩, rfl⟩
  · rw [List.mem_zipIdx_iff_getElem?]
    exact he
  · simp [EntityMapping.isRoot, hr]

theorem length_rootIds (m : Model) : m.rootIds.length = m.entities.countP EntityMapping.isRoot := by
  have hfst : m.entities.countP EntityMapping.isRoot =
      (m.entities.zipIdx.map Prod.fst).countP EntityMapping.isRoot := by
    rw [List.zipIdx_map_fst]
  rw [rootIds, List.length_map, hfst, List.countP_map, List.countP_eq_length_filter]
  rfl

/-- Hierarchies with the ids of their positions record different roots: a root names the one that
records it. -/
theorem nodup_recorded (c : Connected m) (hk : ∀ k h, m.hierarchy? k = some h → h.id = k) :
    (m.hierarchies.map Hierarchy.root).Nodup := by
  rw [List.nodup_iff_pairwise_ne, List.pairwise_map, List.pairwise_iff_getElem]
  intro i j hi hj hlt heq
  obtain ⟨r, hr, _, hri⟩ := c.roots _ (List.getElem_mem hi)
  obtain ⟨r', hr', _, hrj⟩ := c.roots _ (List.getElem_mem hj)
  rw [heq, hr'] at hr
  cases hr
  rw [hk ⟨i⟩ _ (List.getElem?_eq_getElem hi)] at hri
  rw [hk ⟨j⟩ _ (List.getElem?_eq_getElem hj), hri] at hrj
  exact absurd (congrArg HierarchyId.index hrj) (Nat.ne_of_lt hlt)

/-- Every root is recorded by a hierarchy that stands at the position of its id. -/
def RootsRecorded (m : Model) : Prop :=
  ∀ x e, m.entity? x = some e → e.parent = none →
    ∃ k h, m.hierarchy? k = some h ∧ h.id = k ∧ h.root = x

/-- The hierarchy of an entity is there and records where the way up from the entity ends, if it
does. -/
def TopsRecorded (m : Model) : Prop :=
  ∀ x e ps, m.entity? x = some e → Path m (fun e => e.parent = none) (some x) ps →
    ∃ h, m.hierarchy? e.hierarchy = some h ∧ ps.getLast? = some h.root

/-- The different roots that the hierarchies record are all there are, if there are no more. -/
theorem Connected.rootsRecorded (c : Connected m)
    (hk : ∀ k h, m.hierarchy? k = some h → h.id = k)
    (hcount : m.entities.countP EntityMapping.isRoot ≤ m.hierarchies.length) :
    m.RootsRecorded := by
  intro x e he hr
  have hsub : m.hierarchies.map Hierarchy.root ⊆ m.rootIds := by
    intro y hy
    obtain ⟨h, hh, rfl⟩ := List.mem_map.mp hy
    obtain ⟨r, hroot, hparent, _⟩ := c.roots h hh
    exact mem_rootIds hroot hparent
  have hlen : m.rootIds.length ≤ (m.hierarchies.map Hierarchy.root).length := by
    rwa [length_rootIds, List.length_map]
  have hperm : (m.hierarchies.map Hierarchy.root).Perm m.rootIds :=
    ((nodup_recorded c hk).subperm hsub).perm_of_length_le hlen
  obtain ⟨h, hh, rfl⟩ := List.mem_map.mp (hperm.mem_iff.mpr (mem_rootIds he hr))
  obtain ⟨i, hi⟩ := List.mem_iff_getElem?.mp hh
  exact ⟨⟨i⟩, h, hi, hk ⟨i⟩ h hi, rfl⟩

/-- A way up from `x` to a root ends at a root of the same hierarchy. -/
theorem Connected.root_of_path (c : Connected m) {x : EntityId} {e : EntityMapping}
    {ps : List EntityId} (he : m.entity? x = some e)
    (h : Path m (fun e => e.parent = none) (some x) ps) :
    ∃ p r, ps.getLast? = some p ∧ m.entity? p = some r ∧ r.parent = none ∧
      r.hierarchy = e.hierarchy := by
  generalize ho : some x = o at h
  induction h generalizing x e with
  | @here q f hf hroot =>
    cases ho
    rw [hf] at he
    cases he
    exact ⟨_, f, rfl, hf, hroot, rfl⟩
  | @up q f ps hf hnot h ih =>
    cases ho
    rw [hf] at he
    cases he
    obtain ⟨p, hp⟩ := Option.ne_none_iff_exists'.mp hnot
    obtain ⟨pe, hpe, _, hsame⟩ := c.parents f (mem_of_entity? hf) p hp
    obtain ⟨last, r, hlast, hr, hroot, hhier⟩ := ih hpe hp.symm
    exact ⟨last, r, by simp [List.getLast?_cons, hlast], hr, hroot, by rw [hhier, hsame]⟩

/-- The top of the tree is the last position on the way up, if the root there has that id. -/
theorem top_of_path {x p : EntityId} {ps : List EntityId}
    (h : Path m (fun e => e.parent = none) (some x) ps) (hp : ps.getLast? = some p)
    (hid : ∀ r, m.entity? p = some r → r.id = p) : m.top x = .ok p := by
  have lineage : ∃ e up, m.entity? x = some e ∧ Lineage m e.parent up ∧
      (up.getLast?.map EntityMapping.id).getD x = p := by
    generalize ho : some x = o at h
    induction h generalizing x with
    | @here q f hf hroot =>
      cases ho
      cases hp
      exact ⟨f, [], hf, hroot ▸ .root, rfl⟩
    | @up q f ps hf hnot h ih =>
      cases ho
      obtain ⟨q, hq⟩ := Option.ne_none_iff_exists'.mp hnot
      have hrest : ps.getLast? = some p := by
        rw [hq] at h
        cases h <;> simpa [List.getLast?_cons] using hp
      obtain ⟨g, up, hg, hl, hlast⟩ := ih hrest hq.symm
      refine ⟨f, g :: up, hf, hq ▸ .step hg hl, ?_⟩
      cases up with
      | nil =>
        cases hlast
        exact hid g hg
      | cons a rest => simpa [List.getLast?_cons] using hlast
  obtain ⟨e, up, he, hl, hlast⟩ := lineage
  exact hlast ▸ top_of_lineage he hl

/-- What a root has, every entity below it has: they share the hierarchy. -/
theorem Connected.topsRecorded_iff (c : Connected m) : m.TopsRecorded ↔ m.RootsRecorded := by
  constructor
  · intro h x e he hr
    obtain ⟨k, hk, hlast⟩ := h x e [x] he (.here he hr)
    cases hlast
    obtain ⟨r, hroot, _, hsame⟩ := c.roots k (List.mem_of_getElem? hk)
    rw [he] at hroot
    cases hroot
    exact ⟨e.hierarchy, k, hk, hsame.symm, rfl⟩
  · intro h x e ps he hps
    obtain ⟨p, r, hlast, hr, hroot, hsame⟩ := c.root_of_path he hps
    obtain ⟨k, g, hk, hid, rfl⟩ := h p r hr hroot
    obtain ⟨r', hr', _, hcarried⟩ := c.roots g (List.mem_of_getElem? hk)
    rw [hr] at hr'
    cases hr'
    exact ⟨g, by rw [← hsame, hcarried, hid, hk], hlast⟩

/-- In a verified model the hierarchies record the tops of all trees exactly if each root is
recorded by one that stands at the position of its id. So it is where all hierarchies stand at those
positions and there are no more roots than hierarchies. The roots having the ids of their positions
too, every entity from which a way up ends may then get a child. -/
theorem verified_roots (m : Model) (hv : m.verify = .ok ()) :
    (m.TopsRecorded ↔ m.RootsRecorded) ∧
      ((∀ k h, m.hierarchy? k = some h → h.id = k) →
        m.entities.countP EntityMapping.isRoot ≤ m.hierarchies.length → m.RootsRecorded) ∧
      (m.RootsRecorded → (∀ x e, m.entity? x = some e → e.parent = none → e.id = x) →
        ∀ x ps, Path m (fun e => e.parent = none) (some x) ps →
          (m.addChild x).answer = .ok m.nextEntity) := by
  have c : Connected m := (Coherent.of_verifyWithin hv).toConnected
  refine ⟨c.topsRecorded_iff, c.rootsRecorded, fun hroots hids x ps hps => ?_⟩
  obtain ⟨e, he⟩ : ∃ e, m.entity? x = some e := by
    cases hps with
    | here he _ => exact ⟨_, he⟩
    | up he _ _ => exact ⟨_, he⟩
  obtain ⟨h, hh, hlast⟩ := c.topsRecorded_iff.mpr hroots x e ps he hps
  obtain ⟨p, r, hlast', hr, hroot, _⟩ := c.root_of_path he hps
  have htop : m.top x = .ok h.root := by
    refine top_of_path hps hlast fun f hf => ?_
    rw [hlast] at hlast'
    cases hlast'
    exact hids _ f hf (by rw [hf] at hr; cases hr; exact hroot)
  have hc : m.checkParent x = .ok e.hierarchy :=
    checkParent_eq_ok_iff.mpr ⟨e, h, he, hh, htop, rfl⟩
  simp only [addChild, hc]
  rfl

theorem verified_roots_twoTrees :
    twoTrees.verify = .ok () ∧ twoTrees.TopsRecorded ∧
      (twoTrees.addChild ⟨4⟩).answer = .ok ⟨5⟩ := by
  obtain ⟨hiff, hcount, hchild⟩ := verified_roots twoTrees rfl
  have hroots : twoTrees.RootsRecorded :=
    hcount (fun _ _ hk => forest_twoTrees.hierarchy_id hk) (by decide)
  have hpath : Path twoTrees (fun e => e.parent = none) (some ⟨4⟩) [⟨4⟩, ⟨3⟩, ⟨2⟩] :=
    .up rfl (by simp) (.up rfl (by simp) (.here rfl rfl))
  have hids : ∀ x e, twoTrees.entity? x = some e → e.parent = none → e.id = x :=
    fun _ _ he _ => forest_twoTrees.entity_id he
  exact ⟨rfl, hiff.mpr hroots, hchild hroots hids _ _ hpath⟩

/-- Two roots, where the second hierarchy was overwritten by the first. -/
def overwrittenHierarchy : Model :=
  ((fresh .replace true).after
    [.addRoot .joined .object, .addRoot .joined .object]).putHierarchy ⟨1⟩
    { id := ⟨0⟩, root := ⟨0⟩, settings := { inheritance := .joined, mode := .object } }

/-- A verified model may have a root that its hierarchy does not record, and that gets no child. -/
theorem verify_overwrittenHierarchy :
    overwrittenHierarchy.verify = .ok () ∧ ¬ overwrittenHierarchy.TopsRecorded ∧
      (overwrittenHierarchy.addChild ⟨1⟩).answer = .error (.breach (.strayParent ⟨1⟩ ⟨0⟩)) := by
  refine ⟨rfl, fun h => ?_, rfl⟩
  obtain ⟨k, hk, hlast⟩ := h ⟨1⟩ _ [⟨1⟩] rfl (.here rfl rfl)
  cases hk
  cases hlast

end RelationalMapping.Model
