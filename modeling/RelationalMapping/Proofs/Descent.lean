import Mathlib.Data.List.Count
import RelationalMapping.Proofs.Forest
import RelationalMapping.Proofs.Offspring

/-!
Downward and upward walks. Where every child is listed once by its parent and every lineage ends
(`Linked`), an entity stands as often among the descendants of another as that one stands in its
lineage (`Linked.count_topDown`). That one equation says who the descendants are, that none comes
twice, and that the visits stay within their bounds.
-/

namespace RelationalMapping.Model

/-- Parents and children name each other, and every lineage ends. -/
structure Linked (m : Model) : Prop where
  entity_id : ∀ {x : EntityId} {e : EntityMapping}, m.entity? x = some e → e.id = x
  listed_once : ∀ {x p : EntityId} {e : EntityMapping}, m.entity? x = some e →
    e.parent = some p → ∃ pe, m.entity? p = some pe ∧ pe.children.count x = 1
  listed_parent : ∀ {x c : EntityId} {e : EntityMapping}, m.entity? x = some e →
    c ∈ e.children → ∃ ce, m.entity? c = some ce ∧ ce.parent = some x
  grounded : ∀ {x : EntityId} {e : EntityMapping}, m.entity? x = some e →
    ∃ up, Lineage m e.parent up

theorem Forest.linked {m : Model} (f : Forest m) : Linked m where
  entity_id := f.entity_id
  listed_once := by
    intro x p e he hp
    obtain ⟨up, _, hl, _⟩ := f.lineage he
    rw [hp] at hl
    cases hl with
    | @step _ pe _ hpe _ =>
      have hn : pe.children.Nodup :=
        (f.children_sorted hpe).imp EntityId.ne_of_lt
      exact ⟨pe, hpe, List.count_eq_one_of_mem hn ((f.mem_children hpe x).mpr ⟨e, he, hp⟩)⟩
  listed_parent := by
    intro x c e he hc
    exact (f.mem_children he c).mp hc
  grounded := by
    intro x e he
    obtain ⟨up, _, hl, _⟩ := f.lineage he
    exact ⟨up, hl⟩

section

variable {m : Model} {ids : List EntityId} {t : Offspring}

/-- The links below any entities unfold: each level down has a longer lineage. -/
theorem Linked.exists_unfolds (l : Linked m) (depth : Nat) (ids : List EntityId)
    (h : ∀ c ∈ ids, ∃ ce up, m.entity? c = some ce ∧ Lineage m ce.parent up ∧
      m.entities.length < up.length + depth) : ∃ t, Unfolds m ids t := by
  induction depth generalizing ids with
  | zero =>
    cases ids with
    | nil => exact ⟨.none, .nil⟩
    | cons c rest =>
      obtain ⟨ce, up, _, hl, hlt⟩ := h c (List.mem_cons_self ..)
      exact absurd hlt (Nat.not_lt_of_le hl.length_le)
  | succ depth ihd =>
    induction ids with
    | nil => exact ⟨.none, .nil⟩
    | cons c rest ihr =>
      obtain ⟨ce, up, hce, hl, hlt⟩ := h c (List.mem_cons_self ..)
      obtain ⟨below, hb⟩ : ∃ below, Unfolds m ce.children below := by
        refine ihd ce.children fun k hk => ?_
        obtain ⟨ke, hke, hp⟩ := l.listed_parent hce hk
        refine ⟨ke, ce :: up, hke, hp ▸ .step hce hl, ?_⟩
        rw [List.length_cons]
        omega
      obtain ⟨later, hr⟩ := ihr fun k hk => h k (List.mem_cons_of_mem _ hk)
      exact ⟨.cons ce below later, .cons hce hb hr⟩

theorem Unfolds.lookup_mem (l : Linked m) (h : Unfolds m ids t) :
    ∀ e ∈ t.topDown, m.entity? e.id = some e := by
  induction h with
  | nil => simp [Offspring.topDown]
  | @cons id ids e below later he _ _ ihb ihl =>
    intro f hf
    simp only [Offspring.topDown, List.mem_cons, List.mem_append] at hf
    rcases hf with rfl | hf | hf
    · rw [l.entity_id he, he]
    · exact ihb f hf
    · exact ihl f hf

/-- An entity of the tree is one of the first or a child of another entity of the tree. -/
theorem Unfolds.count_topDown (l : Linked m) (h : Unfolds m ids t) (y : EntityId) :
    (t.topDown.map EntityMapping.id).count y =
      ids.count y + (t.topDown.flatMap EntityMapping.children).count y := by
  induction h with
  | nil => simp [Offspring.topDown]
  | @cons id ids e below later he _ _ ihb ihl =>
    simp only [Offspring.topDown, List.map_cons, List.map_append, List.flatMap_cons,
      List.flatMap_append, List.count_cons, List.count_append, ihb, ihl, l.entity_id he]
    omega

theorem Linked.count_child (l : Linked m) {x y : EntityId} {e ye : EntityMapping}
    (he : m.entity? x = some e) (hy : m.entity? y = some ye) :
    e.children.count y = if ye.parent = some x then 1 else 0 := by
  split
  · rename_i hp
    obtain ⟨pe, hpe, hc⟩ := l.listed_once hy hp
    rw [he] at hpe
    cases hpe
    exact hc
  · rename_i hp
    refine List.count_eq_zero.mpr fun hmem => hp ?_
    obtain ⟨ce, hce, hpar⟩ := l.listed_parent he hmem
    rw [hy] at hce
    cases hce
    exact hpar

/-- Among the children of some entities, `y` stands as often as its parent among them. -/
theorem Linked.count_children (l : Linked m) {y : EntityId} {ye : EntityMapping}
    (hy : m.entity? y = some ye) (es : List EntityMapping)
    (hes : ∀ e ∈ es, m.entity? e.id = some e) :
    (es.flatMap EntityMapping.children).count y =
      (es.map fun e => some e.id).count ye.parent := by
  induction es with
  | nil => rfl
  | cons e rest ih =>
    have he := l.count_child (hes e (List.mem_cons_self ..)) hy
    have hr := ih fun f hf => hes f (List.mem_cons_of_mem _ hf)
    simp only [List.flatMap_cons, List.count_append, List.map_cons, List.count_cons, he, hr]
    by_cases hp : ye.parent = some e.id
    · simp [hp, Nat.add_comm]
    · simp [hp, Ne.symm hp]

/-- `y` stands as often among the descendants of `x` as `x` stands in the lineage of `y`. -/
theorem Linked.count_topDown (l : Linked m) {x y : EntityId} {ex ye : EntityMapping}
    (hx : m.entity? x = some ex) (ht : Unfolds m ex.children t) (hy : m.entity? y = some ye)
    {up : List EntityMapping} (hl : Lineage m ye.parent up) :
    (t.topDown.map EntityMapping.id).count y = (up.map EntityMapping.id).count x := by
  have step : ∀ {z : EntityId} {ze : EntityMapping}, m.entity? z = some ze →
      (t.topDown.map EntityMapping.id).count z =
        (if ze.parent = some x then 1 else 0) +
          (t.topDown.map fun e => some e.id).count ze.parent := by
    intro z ze hz
    rw [ht.count_topDown l, l.count_child hx hz, l.count_children hz _ (ht.lookup_mem l)]
  -- up the lineage of `y`, one parent at a time
  generalize hp : ye.parent = o at hl
  induction hl generalizing y ye with
  | root =>
    have hnone : (t.topDown.map fun e => some e.id).count none = 0 :=
      List.count_eq_zero.mpr (by simp)
    rw [step hy, hp, hnone]
    rfl
  | @step p pe up hpe _ ih =>
    have hsome : (t.topDown.map fun e => some e.id).count (some p) =
        (t.topDown.map EntityMapping.id).count p := by
      have hc := List.count_map_of_injective (t.topDown.map EntityMapping.id) some
        (fun _ _ => Option.some.inj) p
      rwa [List.map_map] at hc
    rw [step hy, hp, hsome, ih hpe rfl, List.map_cons, List.count_cons, l.entity_id hpe]
    by_cases hpx : p = x
    · simp [hpx, Nat.add_comm]
    · simp [hpx]

/-- No entity stands in its own lineage, and none twice in one. -/
theorem Linked.nodup_lineage (l : Linked m) {x : EntityId} {e : EntityMapping}
    {up : List EntityMapping} (he : m.entity? x = some e) (hl : Lineage m e.parent up) :
    (x :: up.map EntityMapping.id).Nodup := by
  obtain ⟨ps, hps, hup⟩ := (Lineage.step he hl).path
  have hids : ∀ {ps : List EntityId} {es : List EntityMapping},
      List.Forall₂ (fun p e => m.entity? p = some e) ps es → ps = es.map EntityMapping.id := by
    intro ps es h
    induction h with
    | nil => rfl
    | cons he _ ih => rw [List.map_cons, l.entity_id he, ih]
  have hn : ((e :: up).map EntityMapping.id).Nodup := hids hup ▸ hps.nodup
  rwa [List.map_cons, l.entity_id he] at hn

theorem Linked.nodup_topDown (l : Linked m) {x : EntityId} {e : EntityMapping}
    (he : m.entity? x = some e) (ht : Unfolds m e.children t) :
    (x :: t.topDown.map EntityMapping.id).Nodup := by
  obtain ⟨up, hl⟩ := l.grounded he
  refine List.nodup_cons.mpr ⟨?_, List.nodup_iff_count_le_one.mpr fun y => ?_⟩
  · rw [← List.count_eq_zero, l.count_topDown he ht he hl, List.count_eq_zero]
    exact (List.nodup_cons.mp (l.nodup_lineage he hl)).1
  · by_cases hy : y ∈ t.topDown.map EntityMapping.id
    · obtain ⟨ye, hye, rfl⟩ := List.mem_map.mp hy
      have hlook := ht.lookup_mem l ye hye
      obtain ⟨upy, hly⟩ := l.grounded hlook
      rw [l.count_topDown he ht hlook hly]
      exact List.nodup_iff_count_le_one.mp (List.nodup_cons.mp (l.nodup_lineage hlook hly)).2 x
    · rw [List.count_eq_zero.mpr hy]
      exact Nat.zero_le _

/-- An entity has fewer descendants than the model has entities. -/
theorem Linked.size_lt (l : Linked m) {x : EntityId} {e : EntityMapping}
    (he : m.entity? x = some e) (ht : Unfolds m e.children t) : t.size < m.entities.length := by
  have hlen : (x :: t.topDown.map EntityMapping.id).length ≤ m.entities.length := by
    refine length_le_of_nodup (l.nodup_topDown he ht) fun y hy => ?_
    rcases List.mem_cons.mp hy with rfl | hy
    · simp [he]
    · obtain ⟨ye, hye, rfl⟩ := List.mem_map.mp hy
      simp [ht.lookup_mem l ye hye]
  rwa [List.length_cons, List.length_map, t.length_topDown] at hlen

/-! ## The bounds on the steps -/

theorem three_mul_le_two_pow (k : Nat) : 3 * k ≤ Nat.pow 2 (k + 2) := by
  induction k with
  | zero => decide
  | succ k ih =>
    have hpow : Nat.pow 2 (k + 1 + 2) = Nat.pow 2 (k + 2) * 2 := rfl
    have hpos : 4 ≤ Nat.pow 2 (k + 2) := Nat.pow_le_pow_right Nat.two_pos (Nat.le_add_left 2 k)
    omega

theorem three_mul_le_visitBound {k : Nat} (h : k < m.entities.length) :
    3 * k ≤ m.visitBound :=
  calc
    3 * k ≤ Nat.pow 2 (k + 2) := three_mul_le_two_pow k
    _ ≤ Nat.pow 2 (m.entities.length + 1) := Nat.pow_le_pow_right Nat.two_pos (by omega)
    _ ≤ m.visitBound := Nat.pow_le_pow_left (Nat.le_add_left 2 _) _

/-- The bound for each sibling is enough for all that is below them. -/
theorem Unfolds.size_le_steps (h : Unfolds m ids t) (hs : t.size < m.entities.length) :
    3 * t.size ≤ ids.length * m.visitBound := by
  cases h with
  | nil => simp [Offspring.size]
  | cons _ _ _ =>
    exact Nat.le_trans (three_mul_le_visitBound hs) (Nat.le_mul_of_pos_left _ (Nat.succ_pos _))

/-- A visit of the tree runs to its end. -/
theorem Unfolds.run_topDown (h : Unfolds m ids t) (hs : t.size < m.entities.length) :
    TopDown.run m ⟨ids⟩ = ⟨t.topDown, none⟩ := by
  obtain ⟨n, hn⟩ : ∃ n, TopDown.steps m ⟨ids⟩ = t.size + n := by
    have hsteps : 3 * t.size ≤ TopDown.steps m ⟨ids⟩ := h.size_le_steps hs
    exact ⟨TopDown.steps m ⟨ids⟩ - t.size, by omega⟩
  have hend : TopDown.runFor m n ⟨[]⟩ = .done := TopDown.runFor_end rfl n
  have hrun := h.topDown_runFor n []
  rw [List.append_nil, hend] at hrun
  simp only [TopDown.run, hn, hrun, Walk.done, List.append_nil]

theorem TopDown.below_eq {x : EntityId} {e : EntityMapping} (he : m.entity? x = some e) :
    TopDown.below m x = .ok ⟨e.children⟩ := by
  simp [TopDown.below, getEntity, he, Answer.ofOption, bind, Except.bind, pure, Except.pure]

theorem Linked.descendantsTopDown_eq (l : Linked m) {x : EntityId} {e : EntityMapping}
    (he : m.entity? x = some e) (ht : Unfolds m e.children t) :
    m.descendantsTopDown x = ⟨t.topDown, none⟩ := by
  simp only [descendantsTopDown, TopDown.below_eq he, ht.run_topDown (l.size_lt he ht)]

theorem Linked.descendantsBottomUp_eq (l : Linked m) {x : EntityId} {e : EntityMapping}
    (he : m.entity? x = some e) (ht : Unfolds m e.children t) :
    m.descendantsBottomUp x = ⟨t.bottomUp, none⟩ := by
  have hb : BottomUp.below m x = .ok ⟨[(e.children, e.children)]⟩ := by
    simp [BottomUp.below, getEntity, he, l.entity_id he, Answer.ofOption, bind, Except.bind, pure,
      Except.pure]
  obtain ⟨n, hn⟩ : ∃ n, BottomUp.steps m ⟨[(e.children, e.children)]⟩ = 3 * t.size + 1 + n := by
    have hs : 3 * t.size ≤ e.children.length * m.visitBound := ht.size_le_steps (l.size_lt he ht)
    refine ⟨BottomUp.steps m ⟨[(e.children, e.children)]⟩ - (3 * t.size + 1), ?_⟩
    simp only [BottomUp.steps, List.flatMap_cons, List.flatMap_nil, List.append_nil,
      List.length_singleton]
    omega
  have hend : BottomUp.runFor m n ⟨[]⟩ = .done := BottomUp.runFor_end rfl n
  have hrun := ht.bottomUp_runFor n []
  rw [hend] at hrun
  simp only [descendantsBottomUp, hb, BottomUp.run, hn, hrun, Walk.done, List.append_nil]

theorem Linked.descendantCount_eq (l : Linked m) {x : EntityId} {e : EntityMapping}
    (he : m.entity? x = some e) (ht : Unfolds m e.children t) :
    m.descendantCount x = .ok t.size := by
  have hs : t.size < m.entities.length := l.size_lt he ht
  obtain ⟨n, hn⟩ : ∃ n, m.entities.length = n + 1 := ⟨m.entities.length - 1, by omega⟩
  obtain ⟨below, hsum, hcounted⟩ := ht.countBelow n (by omega)
  rw [descendantCount, hn, countBelow_succ he, hcounted, hsum]

/-- What is below an entity is a tree. -/
theorem Linked.exists_offspring (l : Linked m) {x : EntityId} {e : EntityMapping}
    (he : m.entity? x = some e) : ∃ t, Unfolds m e.children t := by
  obtain ⟨up, hl⟩ := l.grounded he
  refine l.exists_unfolds (m.entities.length) e.children fun c hc => ?_
  obtain ⟨ce, hce, hp⟩ := l.listed_parent he hc
  refine ⟨ce, e :: up, hce, hp ▸ .step he hl, ?_⟩
  rw [List.length_cons]
  omega

end

/-- How the walks below `x` and the walks up to it fit together: `down` and `rising` are what the
two walks below `x` come across. -/
structure WalksAgree (m : Model) (x : EntityId) (down rising : List EntityMapping) : Prop where
  top_down : (m.descendantsTopDown x).all = .ok down
  bottom_up : (m.descendantsBottomUp x).all = .ok rising
  counted : m.descendantCount x = .ok down.length
  perm : rising.Perm down
  length_rising : rising.length = down.length
  /-- Only entities of the model are met, each as it is there. -/
  found : ∀ e ∈ down, m.entity? e.id = some e
  nodup_down : (down.map EntityMapping.id).Nodup
  nodup_rising : (rising.map EntityMapping.id).Nodup
  not_mem_down : x ∉ down.map EntityMapping.id
  not_mem_rising : x ∉ rising.map EntityMapping.id
  /-- An entity is met below `x` exactly if its own walk up comes across `x`. -/
  mem_down_iff : ∀ y, (m.entity? y).isSome → ∃ above, (m.ancestors y).all = .ok above ∧
    (y ∈ down.map EntityMapping.id ↔ x ∈ above.map EntityMapping.id)

theorem Linked.walksAgree {m : Model} (l : Linked m) {x : EntityId} {e : EntityMapping}
    (he : m.entity? x = some e) : ∃ down rising, WalksAgree m x down rising := by
  obtain ⟨t, ht⟩ := l.exists_offspring he
  have hn := List.nodup_cons.mp (l.nodup_topDown he ht)
  have hids : (t.bottomUp.map EntityMapping.id).Perm (t.topDown.map EntityMapping.id) :=
    t.bottomUp_perm.map _
  refine ⟨t.topDown, t.bottomUp, ?_⟩
  constructor
  case top_down =>
    rw [l.descendantsTopDown_eq he ht]
    rfl
  case bottom_up =>
    rw [l.descendantsBottomUp_eq he ht]
    rfl
  case counted => rw [l.descendantCount_eq he ht, t.length_topDown]
  case perm => exact t.bottomUp_perm
  case length_rising => exact t.bottomUp_perm.length_eq
  case found => exact ht.lookup_mem l
  case nodup_down => exact hn.2
  case nodup_rising => exact hids.nodup_iff.mpr hn.2
  case not_mem_down => exact hn.1
  case not_mem_rising => exact fun h => hn.1 (hids.mem_iff.mp h)
  case mem_down_iff =>
    intro y hy
    obtain ⟨f, hf⟩ := Option.isSome_iff_exists.mp hy
    obtain ⟨above, ha⟩ := l.grounded hf
    refine ⟨above, all_ancestors_iff.mpr ⟨f, hf, ha⟩, ?_⟩
    rw [← List.count_pos_iff, ← List.count_pos_iff, l.count_topDown he ht hf ha]

/-- All that has `x` above it is met below `x`. -/
theorem WalksAgree.mem_of_above {m : Model} {x : EntityId} {down rising : List EntityMapping}
    (w : WalksAgree m x down rising) {d : EntityMapping} (hd : m.entity? d.id = some d)
    {above : List EntityMapping} (ha : (m.ancestors d.id).all = .ok above)
    (hx : x ∈ above.map EntityMapping.id) : d ∈ rising := by
  obtain ⟨above', ha', hiff⟩ := w.mem_down_iff d.id (by simp [hd])
  rw [ha] at ha'
  cases ha'
  obtain ⟨d', hd', hid⟩ := List.mem_map.mp (hiff.mpr hx)
  have hfound : m.entity? d'.id = some d' := w.found d' hd'
  rw [hid, hd] at hfound
  cases hfound
  exact w.perm.mem_iff.mpr hd'

/-- After every run the walks up and down agree: `y` is among the descendants of `x`, once in each
order, exactly where `x` is among the ancestors of `y`. Both orders visit the same entities, as
many as are counted, and `x` is not one of them. All walks come to their end. -/
theorem walks_agree (collisions : NameCollision) (verifying : Bool) (commands : List Command)
    (x : EntityId) (hx : (((fresh collisions verifying).after commands).entity? x).isSome) :
    ∃ down rising, WalksAgree ((fresh collisions verifying).after commands) x down rising := by
  obtain ⟨e, he⟩ := Option.isSome_iff_exists.mp hx
  exact (forest_after (forest_fresh collisions verifying) commands).linked.walksAgree he

theorem walks_agree_two_levels :
    let m := (fresh .replace true).after
      [.addRoot .joined .object, .addChild ⟨0⟩, .addChild ⟨1⟩, .addChild ⟨0⟩]
    (m.entity? ⟨0⟩).isSome ∧ ∃ down rising, WalksAgree m ⟨0⟩ down rising := by
  have h : (((fresh .replace true).after [.addRoot .joined .object, .addChild ⟨0⟩, .addChild ⟨1⟩,
      .addChild ⟨0⟩]).entity? ⟨0⟩).isSome := rfl
  exact ⟨h, walks_agree .replace true _ ⟨0⟩ h⟩

end RelationalMapping.Model
