import RelationalMapping.Failure.Desk
import RelationalMapping.Proofs.HolderCounts

/-!
Failures as plain values. `FailureValues` works with lists of failures, the newest first, that
nothing shares and nothing changes: a clone is a copy, and a failure in the context of a newer one
is the list with one more in front. A desk behaves just so (`step_mirrors`), although its handles
share nodes and one of them is written to whenever a failure is put into a context. The one thing
that plain values cannot tell is whether somebody else holds the newer failure.
-/

namespace RelationalMapping

/-- Lists of failures in slots. -/
structure FailureValues where
  slots : List (Option FailureChain) := []

namespace FailureValues

def held? (v : FailureValues) (slot : Nat) : Option FailureChain := v.slots[slot]?.join

def vacate (v : FailureValues) (slot : Nat) : FailureValues := ⟨v.slots.set slot none⟩

def keep (v : FailureValues) (chain : FailureChain) :
    FailureValues × Except FailureRefusal FailureReply :=
  (⟨v.slots ++ [some chain]⟩, .ok (.made v.slots.length chain))

/-- A single failure that is `free` comes in front of `base`. -/
def combine (v : FailureValues) (free : Bool) (base newer : FailureChain) :
    FailureValues × Except FailureRefusal FailureReply :=
  match free, newer with
  | true, [kind] => v.keep (kind :: base)
  | _, _ => (v, .error .notFresh)

def putInContext (v : FailureValues) (free : Bool) (of : Nat) (newer : FailureContext) :
    FailureValues × Except FailureRefusal FailureReply :=
  match v.held? of with
  | none => (v, .error .emptySlot)
  | some base =>
      match newer with
      | .text t => (v.vacate of).combine true base [.note t]
      | .slot i =>
          match (v.vacate of).held? i with
          | none => (v.vacate of, .error .emptySlot)
          | some chain => ((v.vacate of).vacate i).combine free base chain

/-- A step over plain values. Whether a failure that is put into context is free is told, not
found out. -/
def step (v : FailureValues) (free : Bool) :
    FailureStep → FailureValues × Except FailureRefusal FailureReply
  | .create kind => v.keep [kind]
  | .clone of =>
      match v.held? of with
      | none => (v, .error .emptySlot)
      | some chain => v.keep chain
  | .context of newer => v.putInContext free of newer
  | .drop of =>
      match v.held? of with
      | none => (v, .error .emptySlot)
      | some _ => (v.vacate of, .ok .dropped)
  | .inspect of =>
      match v.held? of with
      | none => (v, .error .emptySlot)
      | some chain => (v, .ok (.inspected chain))

def after (v : FailureValues) : List (FailureStep × Bool) → FailureValues
  | [] => v
  | (s, free) :: rest => (v.step free s).1.after rest

def replies (v : FailureValues) :
    List (FailureStep × Bool) → List (Except FailureRefusal FailureReply)
  | [] => []
  | (s, free) :: rest => (v.step free s).2 :: (v.step free s).1.replies rest

end FailureValues

/-- The slots that a step takes handles out of. -/
def FailureStep.takes : FailureStep → List Nat
  | .context of (.text _) => [of]
  | .context of (.slot i) => [of, i]
  | .drop of => [of]
  | _ => []

/-- Whether a step found that the newer failure was free. -/
def FailureReply.free : Except FailureRefusal FailureReply → Bool
  | .error .notFresh => false
  | _ => true

namespace FailureDesk

/-- Of each step, whether it found that. -/
def verdicts (d : FailureDesk) (steps : List FailureStep) : List Bool :=
  (d.replies steps).map FailureReply.free

/-- What the handles stand for. -/
def values (d : FailureDesk) : FailureValues := ⟨d.slots.map (Option.map d.store.chain)⟩

/-- The handles in the slots. -/
def handles (d : FailureDesk) : List FailureRef := d.slots.filterMap id

/-- The handles that are alive are those in the slots and the given ones. -/
def HeldWith (d : FailureDesk) (taken : List FailureRef) : Prop :=
  d.store.Held (taken ++ d.handles)

variable {d : FailureDesk} {r base newer : FailureRef} {slot i : Nat} {taken : List FailureRef}

/-! ## Slots -/

theorem held?_vacate (d : FailureDesk) (slot i : Nat) :
    (d.vacate slot).held? i = if i = slot then none else d.held? i := by
  simp only [held?, vacate, List.getElem?_set]
  by_cases hi : slot = i
  · subst hi
    by_cases hlt : slot < d.slots.length <;> simp [hlt]
  · simp [hi, Ne.symm hi]

theorem mem_handles_iff : r ∈ d.handles ↔ ∃ slot, d.held? slot = some r := by
  have hslot : r ∈ d.handles ↔ some r ∈ d.slots := by simp [handles]
  simp only [hslot, List.mem_iff_getElem?, held?, Option.join_eq_some_iff]

theorem values_held? (d : FailureDesk) (slot : Nat) :
    d.values.held? slot = (d.held? slot).map d.store.chain := by
  simp only [values, FailureValues.held?, held?, List.getElem?_map]
  cases d.slots[slot]? with
  | none => rfl
  | some o => rfl

theorem values_vacate (d : FailureDesk) (slot : Nat) :
    (d.vacate slot).values = d.values.vacate slot := by
  simp [values, vacate, FailureValues.vacate, List.map_set]

theorem filterMap_set_perm {l : List (Option FailureRef)} (h : l[i]? = some (some r)) :
    (l.filterMap id).Perm (r :: (l.set i none).filterMap id) := by
  induction l generalizing i with
  | nil => simp at h
  | cons o rest ih =>
    cases i with
    | zero =>
      rw [List.getElem?_cons_zero] at h
      cases h
      exact .refl _
    | succ i =>
      have hrest := ih (by simpa using h)
      cases o with
      | none => simpa using hrest
      | some q => simpa using (hrest.cons q).trans (.swap r q _)

theorem handles_perm (h : d.held? slot = some r) :
    d.handles.Perm (r :: (d.vacate slot).handles) :=
  filterMap_set_perm (Option.join_eq_some_iff.mp h)

/-- A handle that is taken out of its slot is still alive. -/
theorem HeldWith.vacate (w : d.HeldWith taken) (h : d.held? slot = some r) :
    (d.vacate slot).HeldWith (r :: taken) := by
  refine FailureStore.Held.perm w ?_
  exact ((handles_perm h).append_left taken).trans List.perm_middle

/-- What a handle in a slot stands for ends. -/
theorem HeldWith.tells (w : d.HeldWith taken) (h : d.held? slot = some r) :
    d.store.Tells r (d.store.chain r) :=
  FailureStore.Held.tells w
    (w.present (List.mem_append_right _ (mem_handles_iff.mpr ⟨slot, h⟩)))

/-! ## Changes of the store -/

/-- The values do not change with the store as long as the handles tell the same. -/
theorem map_chain_congr {store : FailureStore}
    (h : ∀ r ∈ d.handles, store.chain r = d.store.chain r) :
    d.slots.map (Option.map store.chain) = d.values.slots := by
  refine List.map_congr_left fun o ho => ?_
  cases o with
  | none => rfl
  | some r => rw [Option.map_some, Option.map_some, h r (List.mem_filterMap.mpr ⟨some r, ho, rfl⟩)]

theorem values_keep {store : FailureStore} (r : FailureRef)
    (h : ∀ q ∈ d.handles, store.chain q = d.store.chain q) :
    (d.keep store r).1.values = (d.values.keep (store.chain r)).1 ∧
      .ok (d.keep store r).2 = (d.values.keep (store.chain r)).2 := by
  have hlength : d.values.slots.length = d.slots.length := List.length_map _
  refine ⟨?_, by rw [keep, FailureValues.keep, hlength]⟩
  simp only [keep, FailureValues.keep, values, List.map_append, map_chain_congr h]
  rfl

/-- With one more slot there is one more handle. -/
theorem HeldWith.keep {store : FailureStore} (w : store.Held (r :: (taken ++ d.handles))) :
    (d.keep store r).1.HeldWith taken := by
  have hhandles : (d.keep store r).1.handles = d.handles ++ [r] := by
    simp [handles, FailureDesk.keep, List.filterMap_append]
  rw [HeldWith, hhandles]
  refine w.perm ?_
  rw [← List.append_assoc]
  exact (List.perm_append_singleton r _).symm

theorem HeldWith.discardAll {refs : List FailureRef} (w : d.HeldWith refs) :
    (d.discardAll refs).HeldWith [] ∧ (d.discardAll refs).values = d.values := by
  have hrelease : ∀ (refs : List FailureRef) (s : FailureStore), s.Held (refs ++ d.handles) →
      (refs.foldl FailureStore.release s).Held d.handles ∧
        ∀ r ∈ d.handles, (refs.foldl FailureStore.release s).chain r = s.chain r := by
    intro refs
    induction refs with
    | nil => exact fun s hs => ⟨hs, fun r _ => rfl⟩
    | cons q rest ih =>
      intro s hs
      obtain ⟨hheld, hchains⟩ := FailureStore.Held.release hs
      obtain ⟨hlast, hrest⟩ := ih (s.release q) hheld
      exact ⟨hlast, fun r hr => (hrest r hr).trans (hchains r (List.mem_append_right _ hr))⟩
  obtain ⟨hheld, hchains⟩ := hrelease refs d.store w
  refine ⟨hheld, ?_⟩
  exact congrArg FailureValues.mk (map_chain_congr hchains)

/-- The reply tells whether the newer failure could get its cause. -/
theorem combine_reply (d : FailureDesk) (base newer : FailureRef) :
    (d.combine base newer).2 =
      match d.store.attach? base newer with
      | some store => .ok (.made d.slots.length (store.chain newer))
      | none => .error .notFresh := by
  unfold FailureDesk.combine
  cases d.store.attach? base newer <;> rfl

/-- Two handles that were taken out of their slots are combined, or given up. -/
theorem HeldWith.combine (w : d.HeldWith [newer, base]) :
    (d.combine base newer).1.HeldWith [] ∧
      let result := d.values.combine (FailureReply.free (d.combine base newer).2)
        (d.store.chain base) (d.store.chain newer)
      (d.combine base newer).1.values = result.1 ∧ (d.combine base newer).2 = result.2 := by
  unfold FailureDesk.combine
  cases ha : d.store.attach? base newer with
  | none =>
    obtain ⟨hheld, hvalues⟩ := w.discardAll
    exact ⟨hheld, hvalues, rfl⟩
  | some store =>
    obtain ⟨hheld, ⟨kind, hsingle, hchain⟩, hchains⟩ := FailureStore.Held.attach w ha
    refine ⟨HeldWith.keep hheld, ?_⟩
    simp only [FailureReply.free, FailureValues.combine, hsingle, ← hchain]
    exact values_keep newer hchains

/-! ## Steps -/

/-- The desk without a handle. -/
theorem heldWith_empty : ({} : FailureDesk).HeldWith [] := FailureStore.held_empty

/-- A new failure is held by one handle more, and that handle is its only holder. -/
theorem HeldWith.create (w : d.HeldWith taken) (kind : FailureKind) :
    ({ d with store := (d.store.create kind).1 } : FailureDesk).HeldWith
        ((d.store.create kind).2 :: taken) ∧
      (d.store.create kind).1.chain (d.store.create kind).2 = [kind] ∧
      ∀ r ∈ taken ++ d.handles, (d.store.create kind).1.chain r = d.store.chain r := by
  refine ⟨FailureStore.Held.create w kind, ?_, fun r hr => w.chain_create (w.present hr) kind⟩
  have htold : (d.store.create kind).1.told? (d.store.create kind).2 = some (kind, none) := by
    rw [FailureStore.told?_create, if_pos rfl]
  exact (FailureStore.Tells.first htold).chain_eq

/-- A text is put in front as the failure that is made of it. -/
theorem HeldWith.combine_create (w : d.HeldWith [base]) (kind : FailureKind) :
    let made : FailureDesk := { d with store := (d.store.create kind).1 }
    (made.combine base (d.store.create kind).2).1.HeldWith [] ∧
      let result := d.values.combine true (d.store.chain base) [kind]
      (made.combine base (d.store.create kind).2).1.values = result.1 ∧
        (made.combine base (d.store.create kind).2).2 = result.2 := by
  intro made
  obtain ⟨wmade, hnew, hchains⟩ := w.create kind
  obtain ⟨hheld, hresult⟩ := wmade.combine
  have hvalues : made.values = d.values :=
    congrArg FailureValues.mk
      (map_chain_congr fun r hr => hchains r (List.mem_append_right _ hr))
  have hfree : FailureReply.free (made.combine base (d.store.create kind).2).2 = true := by
    rw [combine_reply, FailureStore.attach?_create]
    rfl
  refine ⟨hheld, ?_⟩
  rw [hfree, hvalues, hnew, hchains base (by simp)] at hresult
  exact hresult

theorem HeldWith.putInContext (w : d.HeldWith []) (of : Nat) (newer : FailureContext) :
    (d.putInContext of newer).1.HeldWith [] ∧
      let result := d.values.putInContext (FailureReply.free (d.putInContext of newer).2) of newer
      (d.putInContext of newer).1.values = result.1 ∧ (d.putInContext of newer).2 = result.2 := by
  unfold FailureDesk.putInContext FailureValues.putInContext
  rw [values_held?]
  cases hof : d.held? of with
  | none => exact ⟨w, rfl, rfl⟩
  | some base =>
    have wbase : (d.vacate of).HeldWith [base] := w.vacate hof
    cases newer with
    | text t =>
      simp only [Option.map_some, ← values_vacate]
      exact wbase.combine_create (.note t)
    | slot i =>
      simp only [Option.map_some, ← values_vacate, values_held?]
      cases hi : (d.vacate of).held? i with
      | none =>
        obtain ⟨hheld, hvalues⟩ := wbase.discardAll
        exact ⟨hheld, hvalues, rfl⟩
      | some r =>
        have wboth : ((d.vacate of).vacate i).HeldWith [r, base] := wbase.vacate hi
        exact wboth.combine

/-- A step does to the values of a desk what it does to plain values, and replies the same. -/
theorem HeldWith.step_mirrors (w : d.HeldWith []) (s : FailureStep) :
    (d.step s).1.HeldWith [] ∧
      let result := d.values.step (FailureReply.free (d.step s).2) s
      (d.step s).1.values = result.1 ∧ (d.step s).2 = result.2 := by
  cases s with
  | create kind =>
    obtain ⟨wnew, hnew, hchains⟩ := w.create kind
    refine ⟨HeldWith.keep wnew, ?_⟩
    simp only [FailureValues.step, ← hnew]
    exact values_keep _ hchains
  | clone of =>
    simp only [FailureDesk.step, FailureValues.step, values_held?]
    cases hof : d.held? of with
    | none => exact ⟨w, rfl, rfl⟩
    | some r =>
      have hr : (d.store.node? r).isSome := w.present (mem_handles_iff.mpr ⟨of, hof⟩)
      obtain ⟨hheld, hchains⟩ := FailureStore.Held.share w hr
      refine ⟨HeldWith.keep hheld, ?_⟩
      simp only [Option.map_some, ← hchains r hr]
      exact values_keep r fun q hq => hchains q (w.present hq)
  | context of newer => exact w.putInContext of newer
  | drop of =>
    simp only [FailureDesk.step, FailureValues.step, values_held?]
    cases hof : d.held? of with
    | none => exact ⟨w, rfl, rfl⟩
    | some r =>
      obtain ⟨hheld, hvalues⟩ := (w.vacate hof).discardAll
      exact ⟨hheld, hvalues.trans (values_vacate d of), rfl⟩
  | inspect of =>
    simp only [FailureDesk.step, FailureValues.step, values_held?]
    cases hof : d.held? of with
    | none => exact ⟨w, rfl, rfl⟩
    | some r => exact ⟨w, rfl, rfl⟩

theorem HeldWith.after (w : d.HeldWith []) (steps : List FailureStep) :
    (d.after steps).HeldWith [] := by
  induction steps generalizing d with
  | nil => exact w
  | cons s rest ih => exact ih (w.step_mirrors s).1

/-- And so does a run. -/
theorem HeldWith.run_mirrors (w : d.HeldWith []) (steps : List FailureStep) :
    (d.after steps).values = d.values.after (steps.zip (d.verdicts steps)) ∧
      d.replies steps = d.values.replies (steps.zip (d.verdicts steps)) := by
  induction steps generalizing d with
  | nil => exact ⟨rfl, rfl⟩
  | cons s rest ih =>
    obtain ⟨hheld, hvalues, hreply⟩ := w.step_mirrors s
    obtain ⟨hafter, hreplies⟩ := ih hheld
    have hverdicts : d.verdicts (s :: rest) =
        FailureReply.free (d.step s).2 :: (d.step s).1.verdicts rest := rfl
    rw [hverdicts, List.zip_cons_cons, FailureDesk.after, FailureValues.after, replies,
      FailureValues.replies, ← hvalues, ← hreply]
    exact ⟨hafter, congrArg _ hreplies⟩

/-- The handle in each slot shows what the value in that slot reads as; empty slots are the same. -/
def Displays (d : FailureDesk) (v : FailureValues) : Prop :=
  ∀ slot, (d.held? slot = none ∧ v.held? slot = none) ∨
    ∃ r chain, d.held? slot = some r ∧ v.held? slot = some chain ∧ d.store.Shows r chain

theorem HeldWith.displays (w : d.HeldWith []) : d.Displays d.values := by
  intro slot
  rw [values_held?]
  cases hr : d.held? slot with
  | none => exact .inl ⟨rfl, rfl⟩
  | some r => exact .inr ⟨r, d.store.chain r, rfl, rfl, (w.tells hr).shows⟩

end FailureDesk

namespace FailureValues

variable {v : FailureValues} {slot : Nat} {chain : FailureChain}

theorem held?_vacate_of_ne {i : Nat} (h : slot ≠ i) : (v.vacate i).held? slot = v.held? slot := by
  simp [held?, vacate, List.getElem?_set_ne (Ne.symm h)]

theorem held?_keep (h : v.held? slot = some chain) (other : FailureChain) :
    (v.keep other).1.held? slot = some chain := by
  have hlt : slot < v.slots.length := by
    refine Nat.lt_of_not_le fun hge => ?_
    simp [held?, List.getElem?_eq_none_iff.mpr hge] at h
  rw [held?, keep, List.getElem?_append_left hlt]
  exact h

theorem held?_combine (h : v.held? slot = some chain) (free : Bool) (base newer : FailureChain) :
    (v.combine free base newer).1.held? slot = some chain := by
  unfold combine
  split
  · exact held?_keep h _
  · exact h

/-- A value stays in its slot until a step takes it out. -/
theorem held?_step {s : FailureStep} {free : Bool} (h : v.held? slot = some chain)
    (hs : slot ∉ s.takes) : (v.step free s).1.held? slot = some chain := by
  cases s with
  | create kind => exact held?_keep h _
  | clone of =>
    rw [step]
    split
    · exact h
    · exact held?_keep h _
  | context of newer =>
    rw [step, putInContext]
    split
    · exact h
    · cases newer with
      | text t =>
        have hof : slot ≠ of := by simpa [FailureStep.takes] using hs
        exact held?_combine (by rw [held?_vacate_of_ne hof, h]) _ _ _
      | slot i =>
        obtain ⟨hof, hi⟩ : slot ≠ of ∧ slot ≠ i := by simpa [FailureStep.takes] using hs
        have hrest : (v.vacate of).held? slot = some chain := by rw [held?_vacate_of_ne hof, h]
        simp only
        split
        · exact hrest
        · exact held?_combine (by rw [held?_vacate_of_ne hi, hrest]) _ _ _
  | drop of =>
    have hof : slot ≠ of := by simpa [FailureStep.takes] using hs
    rw [step]
    split
    · exact h
    · rw [held?_vacate_of_ne hof, h]
  | inspect of =>
    rw [step]
    split <;> exact h

end FailureValues

/-- After any steps, each handle stands for a list of failures that is found without looking at the
nodes: a clone has the list of the original, and a failure in the context of a newer one has its
list with that one in front. The replies are those that the lists give, and every handle that is
alive shows its list: the text, the description and the kind that are read off the nodes end, and
are the list's. What comes next changes what a handle shows only by taking it out of its slot. -/
theorem failures_are_values (steps : List FailureStep) :
    let d := ({} : FailureDesk).after steps
    let told := steps.zip (({} : FailureDesk).verdicts steps)
    let v := ({} : FailureValues).after told
    ({} : FailureDesk).replies steps = ({} : FailureValues).replies told ∧ d.Displays v ∧
      ∀ s slot chain, v.held? slot = some chain → slot ∉ s.takes →
        ∃ r, (d.step s).1.held? slot = some r ∧ (d.step s).1.store.Shows r chain := by
  intro d told v
  have w : d.HeldWith [] := FailureDesk.heldWith_empty.after steps
  obtain ⟨hafter, hreplies⟩ := FailureDesk.heldWith_empty.run_mirrors steps
  have hvalues : d.values = v := hafter
  refine ⟨hreplies, hvalues ▸ w.displays, fun s slot chain hchain hs => ?_⟩
  obtain ⟨wnext, hnext, _⟩ := w.step_mirrors s
  have hkept : (d.step s).1.values.held? slot = some chain := by
    rw [hnext]
    exact FailureValues.held?_step (hvalues ▸ hchain) hs
  rcases wnext.displays slot with ⟨_, hnone⟩ | ⟨r, shown, hr, hshown, hshows⟩
  · rw [hkept] at hnone
    cases hnone
  · rw [hkept] at hshown
    cases hshown
    exact ⟨r, hr, hshows⟩

/-- Two failures, the first one cloned. -/
def clonedCause : List FailureStep :=
  [.create (.note "no connection"), .create (.note "not saved"), .clone 0]

/-- When the first one is put into the context of the second one, its clone does not show it. -/
theorem failures_are_values_clonedCause :
    let d := (({} : FailureDesk).after clonedCause).step (.context 0 (.slot 1))
    ∃ r, d.1.held? 2 = some r ∧ d.1.store.Shows r [.note "no connection"] :=
  (failures_are_values clonedCause).2.2 (.context 0 (.slot 1)) 2 [.note "no connection"] rfl
    (by decide)

end RelationalMapping
