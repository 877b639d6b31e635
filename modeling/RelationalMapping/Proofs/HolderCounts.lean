import RelationalMapping.Proofs.CauseLinks

/-!
Counting the holders of a node. `Held` says what a store keeps to while certain handles to it are
alive: each node counts the handles to it and the nodes that it caused, no node outlives them, and
all chains end. The operations on the store keep to it, and they change nothing of what the handles
tell that stay alive (`Held.share`, `Held.attach`, `Held.release`).
-/

namespace RelationalMapping

namespace FailureStore

/-- How many nodes have that one for their cause. -/
def citations (s : FailureStore) (r : FailureRef) : Nat :=
  s.nodes.countP fun o => o.bind FailureNode.cause = some r

/-- The store with these handles alive, and no others. -/
structure Held (s : FailureStore) (handles : List FailureRef) : Prop where
  /-- Every chain of causes ends. -/
  ends : ∀ {r : FailureRef}, (s.node? r).isSome → ∃ chain, s.Tells r chain
  /-- A handle leads to a node. -/
  present : ∀ {r : FailureRef}, r ∈ handles → (s.node? r).isSome
  /-- The holders of a node are the handles to it and the nodes that it caused. -/
  counted : ∀ {r : FailureRef} {n : FailureNode}, s.node? r = some n →
    n.holders = handles.count r + s.citations r
  /-- There are no other nodes than those that some handle leads to. -/
  reached : ∀ {r : FailureRef}, (s.node? r).isSome →
    ∃ h ∈ handles, Relation.ReflTransGen s.CausedBy h r

variable {s s' : FailureStore} {r q c : FailureRef} {n : FailureNode} {handles : List FailureRef}

/-! ## Nodes and citations -/

theorem eq_iff_index_eq : q = r ↔ q.index = r.index := by
  cases q
  cases r
  simp

theorem index_lt_of_node? (h : s.node? r = some n) : r.index < s.nodes.length := by
  refine Nat.lt_of_not_le fun hge => ?_
  have hnone : s.nodes[r.index]? = none := List.getElem?_eq_none_iff.mpr hge
  rw [node?, hnone] at h
  cases h

theorem node?_put (h : s.node? r = some n) (n' : FailureNode) (q : FailureRef) :
    (s.put r n').node? q = if q = r then some n' else s.node? q := by
  split
  · rename_i hq
    rw [hq]
    exact node?_put_self n' (index_lt_of_node? h)
  · rename_i hq
    exact node?_put_of_ne n' hq

theorem node?_free (s : FailureStore) (r q : FailureRef) :
    (s.free r).node? q = if q = r then none else s.node? q := by
  split
  · rename_i hq
    subst hq
    simp only [node?, free, List.getElem?_set_self']
    cases s.nodes[q.index]? <;> rfl
  · rename_i hq
    exact node?_free_of_ne hq

theorem node?_create (s : FailureStore) (kind : FailureKind) (q : FailureRef) :
    (s.create kind).1.node? q =
      if q = (s.create kind).2 then some { kind, holders := 1 } else s.node? q := by
  simp only [create, node?, eq_iff_index_eq]
  rcases Nat.lt_trichotomy q.index s.nodes.length with h | h | h
  · rw [List.getElem?_append_left h, if_neg (Nat.ne_of_lt h)]
  · simp [h]
  · have hl : s.nodes[q.index]? = none := List.getElem?_eq_none_iff.mpr (Nat.le_of_lt h)
    have hr : (s.nodes ++ [some ({ kind, holders := 1 } : FailureNode)])[q.index]? = none :=
      List.getElem?_eq_none_iff.mpr (by simp; omega)
    rw [hl, hr, if_neg (Nat.ne_of_gt h)]

/-- No node is there under the reference that comes next. -/
theorem node?_created (s : FailureStore) (kind : FailureKind) :
    s.node? (s.create kind).2 = none := by
  simp [node?, create]

theorem citations_eq_zero_iff : s.citations r = 0 ↔ ∀ q, ¬ s.CausedBy q r := by
  rw [citations, List.countP_eq_zero]
  constructor
  · intro h q hq
    obtain ⟨n, hn, hc⟩ := causedBy_iff.mp hq
    have hmem : some n ∈ s.nodes := by
      refine List.mem_of_getElem? (i := q.index) ?_
      simpa [node?, Option.join_eq_some_iff] using hn
    exact h _ hmem (by simpa using hc)
  · intro h o ho hcite
    obtain ⟨i, hi⟩ := List.mem_iff_getElem?.mp ho
    obtain ⟨n, rfl, hc⟩ := Option.bind_eq_some_iff.mp (of_decide_eq_true hcite)
    exact h ⟨i⟩ (causedBy_iff.mpr ⟨n, by simp [node?, hi], hc⟩)

/-- Another entry in the place of a node cites what it cites instead of what the node cited. -/
theorem citations_set (h : s.node? r = some n) (o : Option FailureNode) (q : FailureRef) :
    (⟨s.nodes.set r.index o⟩ : FailureStore).citations q + (if n.cause = some q then 1 else 0) =
      s.citations q + if o.bind FailureNode.cause = some q then 1 else 0 := by
  have hlt := index_lt_of_node? h
  have hat : s.nodes[r.index] = some n := by
    have hget : s.nodes[r.index]? = some (some n) := by
      simpa [node?, Option.join_eq_some_iff] using h
    exact (List.getElem?_eq_some_iff.mp hget).2
  rw [citations, List.countP_set hlt, hat]
  by_cases hn : n.cause = some q
  · have hpos : 0 < s.citations q := by
      refine List.countP_pos_iff.mpr ⟨some n, ?_, by simpa using hn⟩
      exact hat ▸ List.getElem_mem hlt
    simp only [citations] at hpos
    simp [hn, citations]
    omega
  · simp [hn, citations]

theorem citations_put (h : s.node? r = some n) (n' : FailureNode) (q : FailureRef) :
    (s.put r n').citations q + (if n.cause = some q then 1 else 0) =
      s.citations q + if n'.cause = some q then 1 else 0 :=
  citations_set h (some n') q

theorem citations_free (h : s.node? r = some n) (q : FailureRef) :
    (s.free r).citations q + (if n.cause = some q then 1 else 0) = s.citations q :=
  citations_set h none q

theorem citations_create (s : FailureStore) (kind : FailureKind) (q : FailureRef) :
    (s.create kind).1.citations q = s.citations q := by
  simp [citations, create, List.countP_append]

/-! ## What the handles tell -/

theorem Held.tells (w : s.Held handles) (h : (s.node? r).isSome) : s.Tells r (s.chain r) := by
  obtain ⟨chain, hchain⟩ := w.ends h
  rwa [hchain.chain_eq]

/-- Causes are never freed before what they caused. -/
theorem Held.isSome_of_reach (w : s.Held handles) (h : (s.node? r).isSome)
    (hway : Relation.ReflTransGen s.CausedBy r q) : (s.node? q).isSome := by
  rcases Relation.reflTransGen_iff_eq_or_transGen.mp hway with rfl | hway
  · exact h
  · obtain ⟨rest, hrest, _⟩ := (w.tells h).of_transGen hway
    exact hrest.isSome_node?

theorem ne_of_reach (hr : ∀ p, ¬ s.CausedBy p r) (hq : q ≠ r)
    (hway : Relation.ReflTransGen s.CausedBy q c) : c ≠ r := by
  cases hway with
  | refl => exact hq
  | tail _ hlink =>
    rintro rfl
    exact hr _ hlink

/-! ## One more failure -/

theorem told?_create (s : FailureStore) (kind : FailureKind) (q : FailureRef) :
    (s.create kind).1.told? q =
      if q = (s.create kind).2 then some (kind, none) else s.told? q := by
  rw [told?, node?_create]
  split <;> rfl

theorem ne_created (h : (s.node? q).isSome) (kind : FailureKind) : q ≠ (s.create kind).2 := by
  rintro rfl
  rw [node?_created] at h
  cases h

theorem Held.told?_create (w : s.Held handles) (h : (s.node? r).isSome) (kind : FailureKind)
    (hway : Relation.ReflTransGen s.CausedBy r q) :
    (s.create kind).1.told? q = s.told? q := by
  rw [FailureStore.told?_create, if_neg (ne_created (w.isSome_of_reach h hway) kind)]

theorem Held.chain_create (w : s.Held handles) (h : (s.node? r).isSome) (kind : FailureKind) :
    (s.create kind).1.chain r = s.chain r :=
  ((w.tells h).frame fun _ hway => w.told?_create h kind hway).chain_eq

theorem Held.create (w : s.Held handles) (kind : FailureKind) :
    (s.create kind).1.Held ((s.create kind).2 :: handles) := by
  have hnew : (s.create kind).1.node? (s.create kind).2 = some { kind, holders := 1 } := by
    rw [node?_create, if_pos rfl]
  have hold : ∀ {q}, q ≠ (s.create kind).2 → (s.create kind).1.node? q = s.node? q := by
    intro q hq
    rw [node?_create, if_neg hq]
  have huncited : s.citations (s.create kind).2 = 0 := by
    refine citations_eq_zero_iff.mpr fun q hq => ?_
    exact ne_created (w.isSome_of_reach hq.isSome_node? (.single hq)) kind rfl
  have hunheld : (s.create kind).2 ∉ handles := fun hmem => ne_created (w.present hmem) kind rfl
  constructor
  case ends =>
    intro r hr
    by_cases hrn : r = (s.create kind).2
    · exact ⟨[kind], .first (by rw [FailureStore.told?_create, if_pos hrn])⟩
    · rw [hold hrn] at hr
      exact ⟨_, (w.tells hr).frame fun _ hway => w.told?_create hr kind hway⟩
  case present =>
    intro r hr
    rcases List.mem_cons.mp hr with rfl | hr
    · rw [hnew]
      rfl
    · rw [hold (ne_created (w.present hr) kind)]
      exact w.present hr
  case counted =>
    intro r n hn
    rw [citations_create]
    by_cases hrn : r = (s.create kind).2
    · rw [hrn, hnew] at hn
      cases hn
      rw [hrn, List.count_cons_self, List.count_eq_zero.mpr hunheld, huncited]
    · rw [hold hrn] at hn
      rw [List.count_cons_of_ne (Ne.symm hrn), w.counted hn]
  case reached =>
    intro r hr
    by_cases hrn : r = (s.create kind).2
    · exact ⟨r, by rw [hrn]; exact List.mem_cons_self .., .refl⟩
    · rw [hold hrn] at hr
      obtain ⟨h, hmem, hway⟩ := w.reached hr
      exact ⟨h, List.mem_cons_of_mem _ hmem,
        reach_frame hway fun _ hway' => w.told?_create (w.present hmem) kind hway'⟩

/-! ## Handles that come and go -/

theorem told?_recount (hn : s.node? r = some n) (holders : Nat) (q : FailureRef) :
    (s.put r { n with holders }).told? q = s.told? q := by
  rw [told?, node?_put hn, told?]
  split
  · rename_i hq
    rw [hq, hn]
    rfl
  · rfl

theorem Held.chain_recount (w : s.Held handles) (hn : s.node? r = some n) (holders : Nat)
    (hq : (s.node? q).isSome) : (s.put r { n with holders }).chain q = s.chain q :=
  ((w.tells hq).frame fun p _ => told?_recount hn holders p).chain_eq

/-- Other handles to one node may be alive than were, if the node counts them and if they still lead
to all that was led to. -/
theorem Held.recount (w : s.Held handles) (hn : s.node? r = some n) {holders : Nat}
    {others : List FailureRef} (hpresent : ∀ h ∈ others, (s.node? h).isSome)
    (hcount : holders + handles.count r = n.holders + others.count r)
    (hothers : ∀ q, q ≠ r → others.count q = handles.count q)
    (hreach : ∀ h ∈ handles, ∃ h' ∈ others, Relation.ReflTransGen s.CausedBy h' h) :
    (s.put r { n with holders }).Held others := by
  have htold : ∀ q, (s.put r { n with holders }).told? q = s.told? q := told?_recount hn holders
  have hsome : ∀ {q}, ((s.put r { n with holders }).node? q).isSome = (s.node? q).isSome := by
    intro q
    rw [← isSome_told?, htold, isSome_told?]
  constructor
  case ends => exact fun h => ⟨_, (w.tells (hsome ▸ h)).frame fun q _ => htold q⟩
  case present => exact fun hmem => hsome ▸ hpresent _ hmem
  case counted =>
    intro q found hfound
    have hcite := citations_put hn { n with holders } q
    rw [node?_put hn] at hfound
    split at hfound
    · rename_i hq
      subst hq
      cases hfound
      have hold := w.counted hn
      simp only at hcite ⊢
      omega
    · rename_i hq
      have hold := w.counted hfound
      rw [← hothers q hq] at hold
      simp only at hcite
      omega
  case reached =>
    intro q hq
    obtain ⟨h, hmem, hway⟩ := w.reached (hsome ▸ hq)
    obtain ⟨h', hmem', hway'⟩ := hreach h hmem
    exact ⟨h', hmem', reach_frame (hway'.trans hway) fun q _ => htold q⟩

/-- One more handle to a node that is there. -/
theorem Held.share (w : s.Held handles) (hr : (s.node? r).isSome) :
    (s.share r).Held (r :: handles) ∧
      ∀ q, (s.node? q).isSome → (s.share r).chain q = s.chain q := by
  obtain ⟨n, hn⟩ := Option.isSome_iff_exists.mp hr
  have hshare : s.share r = s.put r { n with holders := n.holders + 1 } := by
    rw [FailureStore.share, hn]
  rw [hshare]
  refine ⟨w.recount hn ?_ ?_ ?_ ?_, fun q hq => w.chain_recount hn _ hq⟩
  · intro h hmem
    rcases List.mem_cons.mp hmem with rfl | hmem
    · exact hr
    · exact w.present hmem
  · rw [List.count_cons_self]
    omega
  · exact fun q hq => List.count_cons_of_ne (Ne.symm hq)
  · exact fun h hmem => ⟨h, List.mem_cons_of_mem _ hmem, .refl⟩

/-- A handle is given up to a node that has other holders. -/
theorem Held.lower (w : s.Held (r :: handles)) (hn : s.node? r = some n) (hmore : 1 < n.holders) :
    (s.put r { n with holders := n.holders - 1 }).Held handles := by
  have hcount := w.counted hn
  rw [List.count_cons_self] at hcount
  refine w.recount hn (fun h hmem => w.present (List.mem_cons_of_mem _ hmem)) ?_ ?_ ?_
  · rw [List.count_cons_self]
    omega
  · exact fun q hq => (List.count_cons_of_ne (Ne.symm hq)).symm
  · intro h hmem
    rcases List.mem_cons.mp hmem with rfl | hmem
    · by_cases hother : h ∈ handles
      · exact ⟨h, hother, .refl⟩
      · -- some node has it for its cause, and that one is led to by another handle
        rw [List.count_eq_zero.mpr hother] at hcount
        have hcited : ¬ ∀ p, ¬ s.CausedBy p h := by
          rw [← citations_eq_zero_iff]
          omega
        obtain ⟨p, hp⟩ := Classical.not_forall_not.mp hcited
        obtain ⟨h', hmem', hway⟩ := w.reached hp.isSome_node?
        rcases List.mem_cons.mp hmem' with rfl | hmem'
        · exact absurd (.tail' hway hp) (w.tells (by simp [hn])).not_around
        · exact ⟨h', hmem', hway.tail hp⟩
    · exact ⟨h, hmem, .refl⟩

/-- The last holder of a node takes the node with it, and is the one that its cause then has to be
given up by. -/
theorem Held.free (w : s.Held (r :: handles)) (hn : s.node? r = some n) (hlast : n.holders ≤ 1) :
    (s.free r).Held (n.cause.toList ++ handles) ∧
      ∀ h ∈ handles, (s.free r).chain h = s.chain h := by
  have hcount := w.counted hn
  rw [List.count_cons_self] at hcount
  have hunheld : r ∉ handles := List.count_eq_zero.mp (by omega)
  have huncaused : ∀ p, ¬ s.CausedBy p r := citations_eq_zero_iff.mp (by omega)
  have hframe : ∀ {q : FailureRef}, q ≠ r → ∀ p, Relation.ReflTransGen s.CausedBy q p →
      (s.free r).told? p = s.told? p :=
    fun hq p hway => told?_free_of_ne (ne_of_reach huncaused hq hway)
  have hcause : ∀ c ∈ n.cause.toList, s.CausedBy r c := by
    intro c hc
    exact causedBy_iff.mpr ⟨n, hn, Option.mem_toList.mp hc⟩
  have hne : ∀ h ∈ n.cause.toList ++ handles, h ≠ r ∧ (s.node? h).isSome := by
    intro h hmem
    rcases List.mem_append.mp hmem with hc | hmem
    · have hlink := hcause h hc
      refine ⟨?_, w.isSome_of_reach (by simp [hn]) (.single hlink)⟩
      rintro rfl
      exact huncaused _ hlink
    · exact ⟨fun heq => hunheld (heq ▸ hmem), w.present (List.mem_cons_of_mem _ hmem)⟩
  refine ⟨?_, fun h hmem => ?_⟩
  · constructor
    case ends =>
      intro q hq
      rw [node?_free] at hq
      split at hq
      · cases hq
      · rename_i hqr
        exact ⟨_, (w.tells hq).frame (hframe hqr)⟩
    case present =>
      intro h hmem
      obtain ⟨hhr, hsome⟩ := hne h hmem
      rwa [node?_free, if_neg hhr]
    case counted =>
      intro q m hm
      rw [node?_free] at hm
      split at hm
      · cases hm
      · rename_i hqr
        have hold := w.counted hm
        have hcite := citations_free hn q
        rw [List.count_cons_of_ne (Ne.symm hqr)] at hold
        rw [List.count_append]
        cases hc : n.cause with
        | none =>
          rw [hc, if_neg (by simp)] at hcite
          simp only [Option.toList_none, List.count_nil]
          omega
        | some c =>
          rw [hc] at hcite
          simp only [Option.toList_some, List.count_singleton, beq_iff_eq]
          simp only [Option.some.injEq] at hcite
          omega
    case reached =>
      intro q hq
      rw [node?_free] at hq
      split at hq
      · cases hq
      · rename_i hqr
        obtain ⟨h, hmem, hway⟩ := w.reached hq
        rcases List.mem_cons.mp hmem with rfl | hmem
        · -- what the freed node led to is led to by its cause
          rcases Relation.ReflTransGen.cases_head hway with heq | ⟨c, hlink, hrest⟩
          · exact absurd heq.symm hqr
          · obtain ⟨m, hm, hc⟩ := causedBy_iff.mp hlink
            rw [hn] at hm
            cases hm
            have hmemc : c ∈ n.cause.toList ++ handles :=
              List.mem_append_left _ (Option.mem_toList.mpr hc)
            exact ⟨c, hmemc, reach_frame hrest (hframe (hne c hmemc).1)⟩
        · have hmem' := List.mem_append_right n.cause.toList hmem
          exact ⟨h, hmem', reach_frame hway (hframe (hne h hmem').1)⟩
  · obtain ⟨hhr, hsome⟩ := hne h (List.mem_append_right _ hmem)
    exact ((w.tells hsome).frame (hframe hhr)).chain_eq

/-- A handle is given up; the others go on telling what they told. -/
theorem Held.release (w : s.Held (r :: handles)) :
    (s.release r).Held handles ∧ ∀ h ∈ handles, (s.release r).chain h = s.chain h := by
  fun_induction FailureStore.release s r generalizing handles with
  | case1 s r hnone =>
    have hsome := w.present (List.mem_cons_self ..)
    rw [hnone] at hsome
    cases hsome
  | case2 s r n hn hlast hc =>
    have hfree := w.free hn hlast
    rw [hc] at hfree
    exact hfree
  | case3 s r n hn hlast c hc ih =>
    have hfree := w.free hn hlast
    rw [hc] at hfree
    obtain ⟨hheld, hchains⟩ := ih hfree.1
    exact ⟨hheld, fun h hmem => (hchains h hmem).trans (hfree.2 h hmem)⟩
  | case4 s r n hn hmore =>
    exact ⟨w.lower hn (Nat.lt_of_not_le hmore), fun h hmem =>
      w.chain_recount hn _ (w.present (List.mem_cons_of_mem _ hmem))⟩

/-- Giving up a handle puts nothing where there was nothing, and changes nothing that stays. -/
theorem told?_of_release {t : FailureKind × Option FailureRef}
    (h : (s.release r).told? q = some t) : s.told? q = some t := by
  have hfree : ∀ {s : FailureStore} {r : FailureRef}, (s.free r).told? q = some t →
      s.told? q = some t := by
    intro s r h
    rw [told?, node?_free] at h
    split at h
    · cases h
    · exact h
  fun_induction FailureStore.release s r with
  | case1 s r hnone => exact h
  | case2 s r n hn hlast hc => exact hfree h
  | case3 s r n hn hlast c hc ih => exact hfree (ih h)
  | case4 s r n hn hmore => rwa [told?_recount hn] at h

/-! ## A failure gets its cause -/

theorem attach?_eq_some_iff {base : FailureRef} : s.attach? base r = some s' ↔
    ∃ n, s.node? r = some n ∧ (n.holders = 1 ∧ n.cause = none) ∧
      s.put r { n with cause := some base } = s' := by
  unfold attach?
  cases s.node? r with
  | none => simp
  | some n => simp [and_assoc]

/-- A failure that was just made may get any cause. -/
theorem attach?_create (s : FailureStore) (kind : FailureKind) (base : FailureRef) :
    (s.create kind).1.attach? base (s.create kind).2 = some ((s.create kind).1.put
      (s.create kind).2 { kind, cause := some base, holders := 1 }) := by
  refine attach?_eq_some_iff.mpr ⟨{ kind, holders := 1 }, ?_, ⟨rfl, rfl⟩, rfl⟩
  rw [node?_create, if_pos rfl]

/-- A node with one handle and no other holder gets a cause, and only that handle tells more than
before. The handle to the cause is given to the node. -/
theorem Held.attach {base : FailureRef} (w : s.Held (r :: base :: handles))
    (h : s.attach? base r = some s') :
    s'.Held (r :: handles) ∧ (∃ kind, s.chain r = [kind] ∧ s'.chain r = kind :: s.chain base) ∧
      ∀ h ∈ handles, s'.chain h = s.chain h := by
  obtain ⟨n, hn, ⟨hone, hnone⟩, rfl⟩ := attach?_eq_some_iff.mp h
  have hcount := w.counted hn
  rw [List.count_cons_self] at hcount
  have hunheld : r ∉ base :: handles := List.count_eq_zero.mp (by omega)
  have huncaused : ∀ p, ¬ s.CausedBy p r := citations_eq_zero_iff.mp (by omega)
  have hbase : base ≠ r := fun heq => hunheld (heq ▸ List.mem_cons_self ..)
  have hbare : s.told? r = some (n.kind, none) :=
    told?_eq_some_iff.mpr ⟨n, hn, by rw [hnone]⟩
  have htold : (s.put r { n with cause := some base }).told? r = some (n.kind, some base) := by
    rw [told?, node?_put hn, if_pos rfl]
    rfl
  have hframe : ∀ {q : FailureRef}, q ≠ r → ∀ p, Relation.ReflTransGen s.CausedBy q p →
      (s.put r { n with cause := some base }).told? p = s.told? p := by
    intro q hq p hway
    rw [told?, node?_put_of_ne _ (ne_of_reach huncaused hq hway), told?]
  have hmem : base ∈ r :: base :: handles :=
    List.mem_cons_of_mem _ (List.mem_cons_self ..)
  have htells : (s.put r { n with cause := some base }).Tells base (s.chain base) :=
    (w.tells (w.present hmem)).frame (hframe hbase)
  refine ⟨?_, ⟨n.kind, ?_, (Tells.caused htold htells).chain_eq⟩, fun h hmem => ?_⟩
  · constructor
    case ends =>
      intro q hq
      by_cases hqr : q = r
      · subst hqr
        exact ⟨_, .caused htold htells⟩
      · rw [node?_put hn, if_neg hqr] at hq
        exact ⟨_, (w.tells hq).frame (hframe hqr)⟩
    case present =>
      intro q hq
      rw [node?_put hn]
      split
      · rfl
      · rename_i hqr
        refine w.present (List.mem_cons_of_mem _ (List.mem_cons_of_mem _ ?_))
        exact (List.mem_cons.mp hq).resolve_left hqr
    case counted =>
      intro q m hm
      have hcite := citations_put hn { n with cause := some base } q
      rw [hnone, if_neg (by simp)] at hcite
      simp only [Option.some.injEq] at hcite
      rw [node?_put hn] at hm
      split at hm
      · rename_i hqr
        subst hqr
        cases hm
        rw [if_neg hbase] at hcite
        rw [List.count_cons_of_ne hbase] at hcount
        rw [List.count_cons_self]
        simp only
        omega
      · rename_i hqr
        have hold := w.counted hm
        rw [List.count_cons_of_ne (Ne.symm hqr), List.count_cons] at hold
        rw [List.count_cons_of_ne (Ne.symm hqr)]
        simp only [beq_iff_eq] at hold
        omega
    case reached =>
      intro q hq
      by_cases hqr : q = r
      · exact ⟨r, List.mem_cons_self .., hqr ▸ .refl⟩
      · rw [node?_put hn, if_neg hqr] at hq
        obtain ⟨h, hmem, hway⟩ := w.reached hq
        rcases List.mem_cons.mp hmem with rfl | hmem
        · exact absurd (eq_of_reach hbare hway) hqr
        · have hhr : h ≠ r := fun heq => hunheld (heq ▸ hmem)
          have hway' := reach_frame hway (hframe hhr)
          rcases List.mem_cons.mp hmem with rfl | hmem
          · exact ⟨r, List.mem_cons_self .., .head ⟨_, htold⟩ hway'⟩
          · exact ⟨h, List.mem_cons_of_mem _ hmem, hway'⟩
  · exact (Tells.first hbare).chain_eq
  · have hhr : h ≠ r := fun heq => hunheld (heq ▸ List.mem_cons_of_mem _ hmem)
    have hpresent := w.present (List.mem_cons_of_mem r (List.mem_cons_of_mem base hmem))
    exact ((w.tells hpresent).frame (hframe hhr)).chain_eq

/-! ## The order of the handles -/

theorem held_empty : empty.Held [] := by
  constructor <;> simp [empty, node?]

theorem Held.perm (w : s.Held handles) {others : List FailureRef} (h : handles.Perm others) :
    s.Held others where
  ends := w.ends
  present := fun hmem => w.present (h.mem_iff.mpr hmem)
  counted := fun hn => by rw [w.counted hn, h.count_eq]
  reached := fun hr => by
    obtain ⟨q, hmem, hway⟩ := w.reached hr
    exact ⟨q, h.mem_iff.mp hmem, hway⟩

end FailureStore

end RelationalMapping
