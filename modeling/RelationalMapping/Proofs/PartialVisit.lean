import RelationalMapping.Proofs.Descent

/-!
A top-down visit that is left and taken up again. Whatever was read of it, what is pending are the
roots of trees that have not been gone into, and all that is still to come is each of these
followed by its own descendants.

* `Unfolds.next_eq`: one step takes the first entity off the trees that are pending.
* `Unfolds.read_eq`: any number of steps reads off so many entities, and the rest is pending.
* `pending_visited`: the visit below an entity, from its beginning on and from any point of it.
-/

namespace RelationalMapping

namespace TopDown

/-- Reads up to `k` entities: those that were found, and the visit as it goes on from there. -/
def read (m : Model) : Nat → TopDown → Answer (List EntityMapping × TopDown)
  | 0, v => .ok ([], v)
  | k + 1, v => do
      match ← v.next m with
      | none => return ([], v)
      | some (e, rest) =>
          let (found, left) ← read m k rest
          return (e :: found, left)

variable {m : Model} {v rest left : TopDown} {e : EntityMapping} {found : List EntityMapping}

theorem read_end (h : v.next m = .ok none) (k : Nat) : read m k v = .ok ([], v) := by
  cases k with
  | zero => rfl
  | succ k =>
    rw [read, h]
    rfl

theorem read_next (h : v.next m = .ok (some (e, rest))) {k : Nat}
    (hread : read m k rest = .ok (found, left)) :
    read m (k + 1) v = .ok (e :: found, left) := by
  rw [read, h]
  simp only [bind, Except.bind, hread]
  rfl

end TopDown

namespace Model

/-- The entity at that position and all below it, parents first. -/
def subtree (m : Model) (id : EntityId) : Answer (List EntityMapping) := do
  return (← m.getEntity id) :: (← (m.descendantsTopDown id).all)

variable {m : Model} {ids : List EntityId} {t : Offspring}

/-! ## What is still to come -/

/-- Either there is nothing left to visit, or the first entity of the trees is met, and what was
below it and behind it is pending. -/
theorem Unfolds.next_eq (h : Unfolds m ids t) :
    TopDown.next m ⟨ids⟩ = .ok none ∧ t.topDown = [] ∨
      ∃ e pending left, TopDown.next m ⟨ids⟩ = .ok (some (e, ⟨pending⟩)) ∧
        Unfolds m pending left ∧ t.topDown = e :: left.topDown := by
  cases h with
  | nil => exact .inl ⟨rfl, rfl⟩
  | @cons id ids e below later he hb hl =>
    refine .inr ⟨e, e.children ++ ids, below.append later, ?_, hb.append hl, ?_⟩
    · have hid : m.getEntity id = .ok e := Answer.ofOption_eq_ok_iff.mpr he
      simp only [TopDown.next, hid]
      rfl
    · rw [Offspring.topDown_append, Offspring.topDown]

/-- However far the visit is read, the trees that are pending hold what was not read yet. -/
theorem Unfolds.read_eq (h : Unfolds m ids t) (k : Nat) :
    ∃ pending left, TopDown.read m k ⟨ids⟩ = .ok (t.topDown.take k, ⟨pending⟩) ∧
      Unfolds m pending left ∧ left.topDown = t.topDown.drop k := by
  induction k generalizing ids t with
  | zero => exact ⟨ids, t, rfl, h, rfl⟩
  | succ k ih =>
    rcases h.next_eq with ⟨hend, hnil⟩ | ⟨e, pending, left, hnext, hleft, hcons⟩
    · rw [hnil, List.take_nil, List.drop_nil]
      exact ⟨ids, t, TopDown.read_end hend (k + 1), h, hnil⟩
    · obtain ⟨pending', left', hread, hleft', hdrop⟩ := ih hleft
      refine ⟨pending', left', ?_, hleft', ?_⟩
      · rw [hcons, List.take_succ_cons]
        exact TopDown.read_next hnext hread
      · rw [hcons, List.drop_succ_cons, hdrop]

theorem Unfolds.next_eq_none_iff (h : Unfolds m ids t) :
    TopDown.next m ⟨ids⟩ = .ok none ↔ t.topDown = [] := by
  rcases h.next_eq with ⟨hend, hnil⟩ | ⟨e, pending, left, hnext, _, hcons⟩
  · exact iff_of_true hend hnil
  · rw [hnext, hcons]
    simp

/-- A visit of its own below each of the entities finds, piece by piece, what one visit finds. -/
theorem Linked.mapM_subtree (l : Linked m) (h : Unfolds m ids t) :
    ∃ pieces, ids.mapM m.subtree = .ok pieces ∧ pieces.flatten = t.topDown := by
  induction h with
  | nil => exact ⟨[], rfl, rfl⟩
  | @cons id ids e below later he hb _ _ ihl =>
    obtain ⟨pieces, hpieces, hflat⟩ := ihl
    have hone : m.subtree id = .ok (e :: below.topDown) := by
      have hid : m.getEntity id = .ok e := Answer.ofOption_eq_ok_iff.mpr he
      simp only [subtree, hid, l.descendantsTopDown_eq he hb]
      rfl
    refine ⟨(e :: below.topDown) :: pieces, ?_, ?_⟩
    · rw [List.mapM_cons, hone, hpieces]
      rfl
    · rw [List.flatten_cons, hflat, Offspring.topDown, List.cons_append]

/-- After every run the top-down visit below `x` finds each child of `x` followed by what the visit
below that child finds, one child after the other, and then it ends. Read any number of times, it
has given so many of these entities in their order. What the rest of it finds from there on are the
others, and they are each pending entity followed by what the visit below that one finds, from the
next one on; it has ended if nothing is left. -/
theorem pending_visited (collisions : NameCollision) (verifying : Bool) (commands : List Command)
    (x : EntityId) (e : EntityMapping)
    (he : ((fresh collisions verifying).after commands).entity? x = some e) :
    let m := (fresh collisions verifying).after commands
    ∃ v pieces, TopDown.below m x = .ok v ∧ e.children.mapM m.subtree = .ok pieces ∧
      (m.descendantsTopDown x).all = .ok pieces.flatten ∧
      ∀ k, ∃ left rest, TopDown.read m k v = .ok (pieces.flatten.take k, left) ∧
        left.pending.mapM m.subtree = .ok rest ∧
        rest.flatten = pieces.flatten.drop k ∧
        (left.run m).all = .ok rest.flatten ∧
        (left.next m = .ok none ↔ pieces.flatten.length ≤ k) := by
  intro m
  have l : Linked m := (forest_after (forest_fresh collisions verifying) commands).linked
  obtain ⟨t, ht⟩ := l.exists_offspring he
  obtain ⟨pieces, hpieces, hflat⟩ := l.mapM_subtree ht
  refine ⟨⟨e.children⟩, pieces, TopDown.below_eq he, hpieces, ?_, fun k => ?_⟩
  · rw [hflat, l.descendantsTopDown_eq he ht]
    rfl
  · obtain ⟨pending, left, hread, hleft, hdrop⟩ := ht.read_eq k
    obtain ⟨rest, hrest, hrestflat⟩ := l.mapM_subtree hleft
    -- what is left is no more than there was, so the bound on the steps is still enough
    have hsize : left.size < m.entities.length := by
      have hlen : left.size ≤ t.size := by
        rw [← left.length_topDown, hdrop, ← t.length_topDown, List.length_drop]
        exact Nat.sub_le _ _
      exact Nat.lt_of_le_of_lt hlen (l.size_lt he ht)
    refine ⟨⟨pending⟩, rest, hflat ▸ hread, hrest, ?_, ?_, ?_⟩
    · rw [hrestflat, hdrop, hflat]
    · rw [hleft.run_topDown hsize, hrestflat]
      rfl
    · rw [hleft.next_eq_none_iff, hdrop, List.drop_eq_nil_iff, hflat]

/-- Two children of the root have two children and one. The visit is left in the first subtree. -/
theorem pending_visited_firstSubtree :
    let m := (fresh .replace true).after
      [.addRoot .joined .object, .addChild ⟨0⟩, .addChild ⟨0⟩, .addChild ⟨1⟩, .addChild ⟨2⟩,
        .addChild ⟨1⟩]
    ∃ e v found left, m.entity? ⟨0⟩ = some e ∧ TopDown.below m ⟨0⟩ = .ok v ∧
      TopDown.read m 2 v = .ok (found, left) ∧
      found.map EntityMapping.id = [⟨1⟩, ⟨3⟩] ∧ left.pending = [⟨5⟩, ⟨2⟩] ∧
      ∃ rest, (left.run m).all = .ok rest ∧ rest.map EntityMapping.id = [⟨5⟩, ⟨2⟩, ⟨4⟩] := by
  intro m
  obtain ⟨v, pieces, hbelow, hpieces, _, hread⟩ := pending_visited .replace true
    [.addRoot .joined .object, .addChild ⟨0⟩, .addChild ⟨0⟩, .addChild ⟨1⟩, .addChild ⟨2⟩,
      .addChild ⟨1⟩] ⟨0⟩ _ rfl
  obtain ⟨left, rest, hfound, hpending, _, hrun, _⟩ := hread 2
  cases hbelow
  cases hpieces
  refine ⟨_, _, _, left, rfl, rfl, hfound, rfl, ?_⟩
  cases hfound
  cases hpending
  exact ⟨rfl, _, hrun, rfl⟩

end Model

end RelationalMapping
