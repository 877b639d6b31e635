import RelationalMapping.Proofs.Descent

/-!
The order of the bottom-up visit. What it finds below an entity is what it finds below each of the
children, one after the other, followed by the children themselves (`children_last`). That the same
holds at every level is carried by `InOrder`: whatever is met, what is below it was met before, and
in one piece.
-/

namespace RelationalMapping

namespace Model

variable {m : Model} {ids : List EntityId} {t : Offspring}

/-! ## Siblings and what is below them -/

/-- The siblings of the tree are the entities that the links name. -/
theorem Unfolds.mapM_getEntity (h : Unfolds m ids t) : ids.mapM m.getEntity = .ok t.siblings := by
  induction h with
  | nil => rfl
  | @cons id ids e below later he _ _ _ ihl =>
    have hid : m.getEntity id = .ok e := Answer.ofOption_eq_ok_iff.mpr he
    rw [List.mapM_cons, hid, ihl]
    rfl

theorem Unfolds.map_id_siblings (l : Linked m) (h : Unfolds m ids t) :
    t.siblings.map EntityMapping.id = ids := by
  induction h with
  | nil => rfl
  | cons he _ _ _ ihl => rw [Offspring.siblings, List.map_cons, l.entity_id he, ihl]

/-- A visit of its own below each sibling finds, piece by piece, what one visit finds below them
all. -/
theorem Linked.mapM_descendantsBottomUp (l : Linked m) (h : Unfolds m ids t) :
    ∃ pieces, (ids.mapM fun c => (m.descendantsBottomUp c).all) = .ok pieces ∧
      pieces.flatten = t.depths := by
  induction h with
  | nil => exact ⟨[], rfl, rfl⟩
  | @cons id ids e below later he hb _ _ ihl =>
    obtain ⟨pieces, hpieces, hflat⟩ := ihl
    have hone : (m.descendantsBottomUp id).all = .ok below.bottomUp := by
      rw [l.descendantsBottomUp_eq he hb]
      rfl
    refine ⟨below.bottomUp :: pieces, ?_, ?_⟩
    · rw [List.mapM_cons, hone, hpieces]
      rfl
    · rw [List.flatten_cons, hflat]
      rfl

/-! ## One entity at any level -/

/-- What the bottom-up visit finds below the entity: `under`, with the children of the entity side
by side at the end, in the order in which they were added. -/
structure Rises (m : Model) (e : EntityMapping) (kids under : List EntityMapping) : Prop where
  found : (m.descendantsBottomUp e.id).all = .ok under
  children : e.children.mapM m.getEntity = .ok kids
  sorted : kids.Pairwise fun a b => a.id.index < b.id.index
  together : kids <:+ under

theorem Forest.rises (f : Forest m) {x : EntityId} {e : EntityMapping} (he : m.entity? x = some e)
    (h : Unfolds m e.children t) : Rises m e t.siblings t.bottomUp where
  found := by
    rw [f.entity_id he, f.linked.descendantsBottomUp_eq he h]
    rfl
  children := h.mapM_getEntity
  sorted := by
    have hsorted : e.children.Pairwise fun c d => c.index < d.index := f.children_sorted he
    rw [← h.map_id_siblings f.linked, List.pairwise_map] at hsorted
    exact hsorted
  together := List.suffix_append t.depths t.siblings

/-! ## The order at every level -/

/-- What is below `y` is among what was met before, in one piece. -/
def MetAfter (m : Model) (before : List EntityMapping) (y : EntityMapping) : Prop :=
  ∃ below, m.entity? y.id = some y ∧ Unfolds m y.children below ∧ below.bottomUp <:+: before

theorem MetAfter.mono {before more : List EntityMapping} {y : EntityMapping}
    (h : MetAfter m before y) (hmore : before <:+: more) : MetAfter m more y := by
  obtain ⟨below, hy, hb, hpiece⟩ := h
  exact ⟨below, hy, hb, hpiece.trans hmore⟩

/-- Whatever is met, what is below it was met before. -/
def InOrder (m : Model) (met : List EntityMapping) : Prop :=
  ∀ before y after, met = before ++ y :: after → MetAfter m before y

theorem InOrder.append {first second : List EntityMapping} (hfirst : InOrder m first)
    (hsecond : ∀ before y after, second = before ++ y :: after → MetAfter m (first ++ before) y) :
    InOrder m (first ++ second) := by
  intro before y after h
  rcases List.append_eq_append_iff.mp h with ⟨later, rfl, hrest⟩ | ⟨rest, rfl, hrest⟩
  · exact hsecond later y after hrest
  · cases rest with
    | nil => simpa using hsecond [] y after hrest.symm
    | cons z rest =>
      obtain ⟨rfl, _⟩ := List.cons.inj hrest
      exact hfirst before y rest rfl

/-- What is below a sibling is met before all of the siblings. -/
theorem Unfolds.metAfter_sibling (l : Linked m) (h : Unfolds m ids t) :
    ∀ y ∈ t.siblings, MetAfter m t.depths y := by
  induction h with
  | nil => simp [Offspring.siblings]
  | @cons id ids e below later he hb _ _ ihl =>
    intro y hy
    rcases List.mem_cons.mp hy with rfl | hy
    · exact ⟨below, by rw [l.entity_id he, he], hb, (List.prefix_append _ _).isInfix⟩
    · exact (ihl y hy).mono (List.suffix_append _ _).isInfix

theorem Unfolds.inOrder_bottomUp (l : Linked m) (h : Unfolds m ids t)
    (hdepths : InOrder m t.depths) : InOrder m t.bottomUp := by
  refine hdepths.append fun before y after hsplit => ?_
  have hy : y ∈ t.siblings := by simp [hsplit]
  exact (h.metAfter_sibling l y hy).mono (List.prefix_append _ _).isInfix

theorem Unfolds.inOrder_depths (l : Linked m) (h : Unfolds m ids t) : InOrder m t.depths := by
  induction h with
  | nil =>
    intro before y after hsplit
    cases before <;> cases hsplit
  | @cons id ids e below later he hb hl ihb ihl =>
    refine (hb.inOrder_bottomUp l ihb).append fun before y after hsplit => ?_
    exact (ihl before y after hsplit).mono (List.suffix_append _ _).isInfix

/-- After every run the bottom-up visit below `x` comes to its end. What it finds is what it finds
below each of the children, from the first to the last, and then the children. Hence an entity is
met when all that is below it has been met, its own children side by side in the order in which they
were added. -/
theorem children_last (collisions : NameCollision) (verifying : Bool) (commands : List Command)
    (x : EntityId) (e : EntityMapping)
    (he : ((fresh collisions verifying).after commands).entity? x = some e) :
    let m := (fresh collisions verifying).after commands
    ∃ pieces kids, (e.children.mapM fun c => (m.descendantsBottomUp c).all) = .ok pieces ∧
      (m.descendantsBottomUp x).all = .ok (pieces.flatten ++ kids) ∧
      Rises m e kids (pieces.flatten ++ kids) ∧
      ∀ before y after, pieces.flatten ++ kids = before ++ y :: after →
        ∃ own under, Rises m y own under ∧ under <:+: before ∧
          ∀ d above, m.entity? d.id = some d → (m.ancestors d.id).all = .ok above → y ∈ above →
            d ∈ before := by
  intro m
  have f : Forest m := forest_after (forest_fresh collisions verifying) commands
  have l : Linked m := f.linked
  obtain ⟨t, ht⟩ := l.exists_offspring he
  obtain ⟨pieces, hpieces, hflat⟩ := l.mapM_descendantsBottomUp ht
  have hrises : Rises m e t.siblings t.bottomUp := f.rises he ht
  have hall : pieces.flatten ++ t.siblings = t.bottomUp := by
    rw [hflat]
    rfl
  have hfound : (m.descendantsBottomUp x).all = .ok t.bottomUp := f.entity_id he ▸ hrises.found
  refine ⟨pieces, t.siblings, hpieces, hall ▸ hfound, hall ▸ hrises, ?_⟩
  intro before y after hsplit
  obtain ⟨below, hy, hb, hpiece⟩ :=
    ht.inOrder_bottomUp l (ht.inOrder_depths l) before y after (hall ▸ hsplit)
  have hbelow : Rises m y below.siblings below.bottomUp := f.rises hy hb
  refine ⟨below.siblings, below.bottomUp, hbelow, hpiece, fun d above hd ha hmem => ?_⟩
  obtain ⟨down, rising, w⟩ := l.walksAgree hy
  have hrising : rising = below.bottomUp := Except.ok.inj (w.bottom_up.symm.trans hbelow.found)
  have hd : d ∈ rising := w.mem_of_above hd ha (List.mem_map.mpr ⟨y, hmem, rfl⟩)
  exact hpiece.subset (hrising ▸ hd)

/-- Three levels, of which the last one is under both children of the root. -/
theorem children_last_threeLevels :
    let m := (fresh .replace true).after
      [.addRoot .joined .object, .addChild ⟨0⟩, .addChild ⟨0⟩, .addChild ⟨1⟩, .addChild ⟨2⟩,
        .addChild ⟨1⟩]
    ∃ e pieces kids, m.entity? ⟨0⟩ = some e ∧
      (e.children.mapM fun c => (m.descendantsBottomUp c).all) = .ok pieces ∧
      (m.descendantsBottomUp ⟨0⟩).all = .ok (pieces.flatten ++ kids) ∧
      (pieces.map fun piece => piece.map EntityMapping.id) = [[⟨3⟩, ⟨5⟩], [⟨4⟩]] ∧
      kids.map EntityMapping.id = [⟨1⟩, ⟨2⟩] := by
  intro m
  obtain ⟨pieces, kids, hpieces, hfound, hrises, _⟩ := children_last .replace true
    [.addRoot .joined .object, .addChild ⟨0⟩, .addChild ⟨0⟩, .addChild ⟨1⟩, .addChild ⟨2⟩,
      .addChild ⟨1⟩] ⟨0⟩ _ rfl
  refine ⟨_, pieces, kids, rfl, hpieces, hfound, ?_, ?_⟩
  · cases hpieces
    rfl
  · cases hrises.children
    rfl

end Model

end RelationalMapping
