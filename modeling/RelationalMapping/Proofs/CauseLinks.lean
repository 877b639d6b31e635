import Mathlib.Logic.Relation
import RelationalMapping.Failure.Store

/-!
What a failure in the store shows. Its text, its description and its kind are read off the nodes, by
following the links to causes for as long as there are any; how many holders a node has does not
show (`told?`). Where the links end (`Tells`) all three are those of the list of failures that is
met on the way (`Tells.shows`), and that list is the one that `chain` gives (`Tells.chain_eq`).
-/

namespace RelationalMapping

namespace FailureStore

/-- What the node says: which failure it is, and where the one is that caused it. -/
def told? (s : FailureStore) (r : FailureRef) : Option (FailureKind × Option FailureRef) :=
  (s.node? r).map fun n => (n.kind, n.cause)

/-- The failure at `r` was caused by the one at `c`. -/
def CausedBy (s : FailureStore) (r c : FailureRef) : Prop :=
  ∃ kind, s.told? r = some (kind, some c)

/-- From `r` on the links to causes end, and these are the failures on the way. -/
inductive Tells (s : FailureStore) : FailureRef → FailureChain → Prop
  | first {r : FailureRef} {kind : FailureKind} (h : s.told? r = some (kind, none)) :
      Tells s r [kind]
  | caused {r c : FailureRef} {kind : FailureKind} {chain : FailureChain}
      (h : s.told? r = some (kind, some c)) (hc : Tells s c chain) : Tells s r (kind :: chain)

/-! ## Reading node by node -/

/-- Writes the text after what is written already: the failure's own, then a separator if there is
a cause, then the cause. The clock has to last for all of them. -/
def writeWithin (s : FailureStore) : Nat → FailureRef → String → Option String
  | 0, _, _ => none
  | clock + 1, r, written =>
      match s.told? r with
      | none => none
      | some (kind, none) => some (written ++ kind.text)
      | some (kind, some c) => s.writeWithin clock c (written ++ kind.text ++ ": ")

/-- The description of a failure holds that of its cause. -/
def describeWithin (s : FailureStore) : Nat → FailureRef → Option Description
  | 0, _ => none
  | clock + 1, r =>
      match s.told? r with
      | none => none
      | some (kind, none) =>
          some (.record "Error" [("kind", describe kind), ("cause", .plain "None")])
      | some (kind, some c) =>
          (s.describeWithin clock c).map fun d =>
            .record "Error" [("kind", describe kind), ("cause", .tuple "Some" [d])]

/-- The kind is that of the newest failure. -/
def isInconsistency (s : FailureStore) (r : FailureRef) : Bool :=
  (s.told? r).any fun t => t.1.isInconsistency

/-- What is read at `r` ends, and is what the list of failures reads as. -/
structure Shows (s : FailureStore) (r : FailureRef) (chain : FailureChain) : Prop where
  text : ∀ clock, chain.length ≤ clock → s.writeWithin clock r "" = some chain.text
  description : ∀ clock, chain.length ≤ clock →
    (s.describeWithin clock r).map (Description.indented 0) =
      some (Description.indented 0 chain.description)
  inconsistency : s.isInconsistency r = chain.head?.any FailureKind.isInconsistency

variable {s s' : FailureStore} {r c q : FailureRef} {chain : FailureChain}

theorem told?_eq_some_iff {t : FailureKind × Option FailureRef} :
    s.told? r = some t ↔ ∃ n, s.node? r = some n ∧ (n.kind, n.cause) = t :=
  Option.map_eq_some_iff

theorem isSome_told? : (s.told? r).isSome = (s.node? r).isSome := Option.isSome_map

theorem causedBy_iff : s.CausedBy r c ↔ ∃ n, s.node? r = some n ∧ n.cause = some c := by
  constructor
  · rintro ⟨kind, h⟩
    obtain ⟨n, hn, heq⟩ := told?_eq_some_iff.mp h
    exact ⟨n, hn, congrArg Prod.snd heq⟩
  · rintro ⟨n, hn, hc⟩
    exact ⟨n.kind, told?_eq_some_iff.mpr ⟨n, hn, by rw [hc]⟩⟩

/-- What has a cause is not freed. -/
theorem CausedBy.isSome_node? (h : s.CausedBy r c) : (s.node? r).isSome := by
  obtain ⟨n, hn, _⟩ := causedBy_iff.mp h
  rw [hn]
  rfl

/-- A failure without a cause leads to no other one. -/
theorem eq_of_reach {kind : FailureKind} (h : s.told? r = some (kind, none))
    (hway : Relation.ReflTransGen s.CausedBy r q) : q = r := by
  rcases Relation.ReflTransGen.cases_head hway with heq | ⟨c, ⟨_, hlink⟩, _⟩
  · exact heq.symm
  · rw [h] at hlink
    cases hlink

/-! ## Where the links end -/

theorem Tells.unique (h : s.Tells r chain) {other : FailureChain} (h' : s.Tells r other) :
    chain = other := by
  induction h generalizing other with
  | first ht =>
    cases h' with
    | first ht' =>
      rw [ht] at ht'
      cases ht'
      rfl
    | caused ht' =>
      rw [ht] at ht'
      cases ht'
  | caused ht _ ih =>
    cases h' with
    | first ht' =>
      rw [ht] at ht'
      cases ht'
    | caused ht' hc' =>
      rw [ht] at ht'
      cases ht'
      rw [ih hc']

theorem Tells.isSome_node? (h : s.Tells r chain) : (s.node? r).isSome := by
  rw [← isSome_told?]
  cases h with
  | first ht => rw [ht]; rfl
  | caused ht _ => rw [ht]; rfl

theorem Tells.of_causedBy (h : s.Tells r chain) (hc : s.CausedBy r c) :
    ∃ rest, s.Tells c rest ∧ rest.length < chain.length := by
  obtain ⟨kind, ht⟩ := hc
  cases h with
  | first ht' =>
    rw [ht] at ht'
    cases ht'
  | caused ht' hc =>
    rw [ht] at ht'
    cases ht'
    exact ⟨_, hc, Nat.lt_succ_self _⟩

/-- The way to the first cause gets shorter with every link. -/
theorem Tells.of_transGen (h : s.Tells r chain) (hc : Relation.TransGen s.CausedBy r c) :
    ∃ rest, s.Tells c rest ∧ rest.length < chain.length := by
  induction hc with
  | single hlink => exact h.of_causedBy hlink
  | tail _ hlink ih =>
    obtain ⟨rest, hrest, hlt⟩ := ih
    obtain ⟨last, hlast, hlt'⟩ := hrest.of_causedBy hlink
    exact ⟨last, hlast, Nat.lt_trans hlt' hlt⟩

/-- So it never comes back to where it began. -/
theorem Tells.not_around (h : s.Tells r chain) : ¬ Relation.TransGen s.CausedBy r r := by
  intro hround
  obtain ⟨rest, hrest, hlt⟩ := h.of_transGen hround
  rw [h.unique hrest] at hlt
  exact Nat.lt_irrefl _ hlt

/-! ## Another store -/

theorem reach_frame (h : Relation.ReflTransGen s.CausedBy r c)
    (hsame : ∀ q, Relation.ReflTransGen s.CausedBy r q → s'.told? q = s.told? q) :
    Relation.ReflTransGen s'.CausedBy r c := by
  induction h with
  | refl => exact .refl
  | tail hway hlink ih =>
    obtain ⟨kind, ht⟩ := hlink
    exact ih.tail ⟨kind, (hsame _ hway).trans ht⟩

/-- Only the nodes on the way matter. -/
theorem Tells.frame (h : s.Tells r chain)
    (hsame : ∀ q, Relation.ReflTransGen s.CausedBy r q → s'.told? q = s.told? q) :
    s'.Tells r chain := by
  induction h with
  | first ht => exact .first ((hsame _ .refl).trans ht)
  | caused ht _ ih =>
    refine .caused ((hsame _ .refl).trans ht) (ih fun q hq => ?_)
    exact hsame q (.head ⟨_, ht⟩ hq)

theorem told?_free_of_ne (h : q ≠ r) : (s.free r).told? q = s.told? q := by
  rw [told?, node?_free_of_ne h, told?]

/-- The cause of a failure is read in the store without the failure itself. -/
theorem chain_of_told? {kind : FailureKind} {cause : Option FailureRef}
    (h : s.told? r = some (kind, cause)) :
    s.chain r = kind :: (cause.map (s.free r).chain).getD [] := by
  obtain ⟨n, hn, heq⟩ := told?_eq_some_iff.mp h
  cases heq
  rw [FailureStore.chain]
  split
  · rename_i hnone
    rw [hn] at hnone
    cases hnone
  · rename_i found hfound
    rw [hn] at hfound
    cases hfound
    cases n.cause <;> rfl

/-- On the way from a failure to its first cause the failure itself is not met again, so it does not
matter that `chain` takes away each node that it has read. -/
theorem Tells.chain_eq (h : s.Tells r chain) : s.chain r = chain := by
  induction chain generalizing s r with
  | nil => cases h
  | cons kind rest ih =>
    have hround : ¬ Relation.TransGen s.CausedBy r r := h.not_around
    cases h with
    | first ht => exact chain_of_told? ht
    | @caused _ c _ _ ht hc =>
      have hrest : (s.free r).Tells c rest := by
        refine hc.frame fun q hq => told?_free_of_ne ?_
        rintro rfl
        exact hround (.head' ⟨kind, ht⟩ hq)
      rw [chain_of_told? ht, Option.map_some, Option.getD_some, ih hrest]

/-! ## What is read -/

theorem Tells.ne_nil (h : s.Tells r chain) : chain ≠ [] := by
  cases h <;> exact List.cons_ne_nil _ _

theorem text_cons {kind : FailureKind} (h : chain ≠ []) :
    FailureChain.text (kind :: chain) = kind.text ++ ": " ++ FailureChain.text chain := by
  cases chain with
  | nil => exact absurd rfl h
  | cons k rest => simp [FailureChain.text]

theorem description_cons {kind : FailureKind} (h : chain ≠ []) :
    FailureChain.description (kind :: chain) = .record "Error"
      [("kind", describe kind), ("cause", .tuple "Some" [FailureChain.description chain])] := by
  cases chain with
  | nil => exact absurd rfl h
  | cons k rest => rfl

theorem Tells.writeWithin_eq (h : s.Tells r chain) {clock : Nat} (hclock : chain.length ≤ clock)
    (written : String) : s.writeWithin clock r written = some (written ++ chain.text) := by
  induction h generalizing clock written with
  | @first r kind ht =>
    obtain ⟨clock, rfl⟩ := Nat.exists_eq_add_of_le' hclock
    simp [writeWithin, ht, FailureChain.text]
  | @caused r c kind chain ht hc ih =>
    obtain ⟨clock, rfl⟩ := Nat.exists_eq_add_of_le' hclock
    have hrest : chain.length ≤ clock + chain.length := Nat.le_add_left _ _
    simp only [List.length_cons, ← Nat.add_assoc, writeWithin, ht]
    rw [ih hrest, text_cons hc.ne_nil, String.append_assoc, String.append_assoc,
      String.append_assoc]

theorem Tells.describeWithin_eq (h : s.Tells r chain) {clock : Nat}
    (hclock : chain.length ≤ clock) : s.describeWithin clock r = some chain.description := by
  induction h generalizing clock with
  | @first r kind ht =>
    obtain ⟨clock, rfl⟩ := Nat.exists_eq_add_of_le' hclock
    simp only [List.length_singleton, describeWithin, ht]
    rfl
  | @caused r c kind chain ht hc ih =>
    obtain ⟨clock, rfl⟩ := Nat.exists_eq_add_of_le' hclock
    have hrest : chain.length ≤ clock + chain.length := Nat.le_add_left _ _
    simp only [List.length_cons, ← Nat.add_assoc, describeWithin, ht]
    rw [ih hrest, description_cons hc.ne_nil, Option.map_some]

/-- The three are those of the list, as soon as the clock lasts for the list. -/
theorem Tells.shows (h : s.Tells r chain) : s.Shows r chain where
  text := by
    intro clock hclock
    rw [h.writeWithin_eq hclock, String.empty_append]
  description := by
    intro clock hclock
    rw [h.describeWithin_eq hclock, Option.map_some]
  inconsistency := by
    cases h with
    | first ht => simp [isInconsistency, ht]
    | caused ht _ => simp [isInconsistency, ht]

end FailureStore

end RelationalMapping
