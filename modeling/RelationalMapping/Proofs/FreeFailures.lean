import RelationalMapping.Proofs.Cycles
import RelationalMapping.Proofs.PlainFailures

/-!
Who may be given a cause. Links to causes never run in a cycle, and no node outlives the handles
that lead to it; so whether a failure may be put in front of another one is a matter of what handles
are alive: it must have no cause, and nobody else may hold it (`Unshared`, `answers_iff_unshared`).
A failure that is part of the base's own chain is held by that chain.

* `context_iff_unshared`: after any steps, all that handles decide (`HandlesDecide`).
-/

namespace RelationalMapping.FailureDesk

/-- Some handle that is alive leads to the node. -/
def Live (d : FailureDesk) (q : FailureRef) : Prop :=
  ∃ slot h, d.held? slot = some h ∧ Relation.ReflTransGen d.store.CausedBy h q

/-- The failure in the slot has no cause and no holder but the handle there. -/
structure Unshared (d : FailureDesk) (slot : Nat) (r : FailureRef) : Prop where
  uncaused : ∃ kind, d.store.told? r = some (kind, none)
  handles : ∀ other, d.held? other = some r → other = slot
  nodes : ∀ q, d.Live q → ¬ d.store.CausedBy q r

variable {d d' : FailureDesk} {r base q : FailureRef} {slot i : Nat}

theorem HeldWith.acyclic (w : d.HeldWith []) : Acyclic d.store.CausedBy := by
  intro r hround
  obtain ⟨c, hlink, _⟩ := Relation.TransGen.head'_iff.mp hround
  exact (FailureStore.Held.tells w hlink.isSome_node?).not_around hround

/-- Nodes that no handle leads to are freed, and others are not. -/
theorem HeldWith.isSome_iff_live (w : d.HeldWith []) : (d.store.node? q).isSome ↔ d.Live q := by
  constructor
  · intro hq
    obtain ⟨h, hmem, hway⟩ := w.reached hq
    obtain ⟨slot, hslot⟩ := mem_handles_iff.mp hmem
    exact ⟨slot, h, hslot, hway⟩
  · rintro ⟨slot, h, hslot, hway⟩
    exact FailureStore.Held.isSome_of_reach w (w.tells hslot).isSome_node? hway

/-! ## The count and the holders -/

theorem HeldWith.citations_eq_zero_iff (w : d.HeldWith []) :
    d.store.citations r = 0 ↔ ∀ q, d.Live q → ¬ d.store.CausedBy q r := by
  rw [FailureStore.citations_eq_zero_iff]
  exact ⟨fun h q _ => h q, fun h q hlink => h q (w.isSome_iff_live.mp hlink.isSome_node?) hlink⟩

theorem count_vacate_eq_zero_iff :
    (d.vacate slot).handles.count r = 0 ↔ ∀ other, d.held? other = some r → other = slot := by
  rw [List.count_eq_zero, mem_handles_iff, not_exists]
  refine forall_congr' fun other => ?_
  rw [held?_vacate]
  by_cases ho : other = slot <;> simp [ho]

/-- The count of a node stands at one just where the handle in the slot is its only holder. -/
theorem HeldWith.attach?_isSome_iff (w : d.HeldWith []) (hr : d.held? slot = some r)
    (base : FailureRef) :
    (d.store.attach? base r).isSome ↔ d.Unshared slot r := by
  have hattach : (d.store.attach? base r).isSome ↔
      ∃ n, d.store.node? r = some n ∧ n.holders = 1 ∧ n.cause = none := by
    simp [Option.isSome_iff_exists, FailureStore.attach?_eq_some_iff]
  have hholders : ∀ {n}, d.store.node? r = some n →
      n.holders = (d.vacate slot).handles.count r + 1 + d.store.citations r := by
    intro n hn
    rw [w.counted hn, List.nil_append, (handles_perm hr).count_eq, List.count_cons_self]
  rw [hattach]
  constructor
  · rintro ⟨n, hn, hone, hnone⟩
    have hcount := hholders hn
    refine ⟨⟨n.kind, ?_⟩, count_vacate_eq_zero_iff.mp (by omega),
      w.citations_eq_zero_iff.mp (by omega)⟩
    exact FailureStore.told?_eq_some_iff.mpr ⟨n, hn, by rw [hnone]⟩
  · rintro ⟨⟨kind, htold⟩, hhandles, hnodes⟩
    obtain ⟨n, hn, heq⟩ := FailureStore.told?_eq_some_iff.mp htold
    have hcount := hholders hn
    rw [count_vacate_eq_zero_iff.mpr hhandles, w.citations_eq_zero_iff.mpr hnodes] at hcount
    exact ⟨n, hn, hcount, congrArg Prod.snd heq⟩

/-! ## Contexts -/

theorem step_context_slot {of : Nat} (hof : d.held? of = some base) (hi : d.held? i = some r)
    (hne : i ≠ of) : (d.step (.context of (.slot i))).2 =
      (((d.vacate of).vacate i).combine base r).2 := by
  have hafter : (d.vacate of).held? i = some r := by rw [held?_vacate, if_neg hne, hi]
  simp only [step, putInContext, hof, hafter]

theorem step_context_text {of : Nat} (hof : d.held? of = some base) (t : String) :
    ∃ reply, (d.step (.context of (.text t))).2 = .ok reply := by
  simp only [step, putInContext, hof]
  rw [combine_reply]
  have hattach := FailureStore.attach?_create d.store (.note t) base
  simp only [vacate, hattach]
  exact ⟨_, rfl⟩

/-- A context comes about exactly where the newer failure is unshared; otherwise it is refused. -/
theorem HeldWith.answers_iff_unshared (w : d.HeldWith []) {of : Nat}
    (hof : d.held? of = some base) (hi : d.held? i = some r) (hne : i ≠ of) :
    ((∃ reply, (d.step (.context of (.slot i))).2 = .ok reply) ↔ d.Unshared i r) ∧
      ((d.step (.context of (.slot i))).2 = .error .notFresh ↔ ¬ d.Unshared i r) := by
  have hstore : ((d.vacate of).vacate i).store = d.store := rfl
  rw [step_context_slot hof hi hne, combine_reply, hstore, ← w.attach?_isSome_iff hi base]
  cases d.store.attach? base r <;> simp

/-- What is part of the base's chain is held by the chain. -/
theorem not_unshared_of_reach {of : Nat} (hof : d.held? of = some base) (hne : i ≠ of)
    (hway : Relation.ReflTransGen d.store.CausedBy base r) : ¬ d.Unshared i r := by
  intro hu
  cases hway with
  | refl => exact hne (hu.handles of hof).symm
  | tail hway hlink => exact hu.nodes _ ⟨of, base, hof, hway⟩ hlink

/-! ## Dropped handles -/

/-- What drops leave: the other slots, and of the nodes some, as they were. -/
structure Dropped (d d' : FailureDesk) (slots : List Nat) : Prop where
  held : ∀ slot, d'.held? slot = if slot ∈ slots then none else d.held? slot
  told : ∀ {q t}, d'.store.told? q = some t → d.store.told? q = some t

theorem dropped_step (d : FailureDesk) (slot : Nat) :
    Dropped d (d.step (.drop slot)).1 [slot] := by
  cases hr : d.held? slot with
  | none =>
    have hstep : (d.step (.drop slot)).1 = d := by simp only [step, hr]
    rw [hstep]
    refine ⟨fun other => ?_, fun h => h⟩
    by_cases ho : other = slot <;> simp [ho, hr]
  | some r =>
    have hstep : (d.step (.drop slot)).1 = (d.vacate slot).discardAll [r] := by
      simp only [step, hr]
    rw [hstep]
    refine ⟨fun other => ?_, fun h => FailureStore.told?_of_release h⟩
    have hheld : ((d.vacate slot).discardAll [r]).held? other = (d.vacate slot).held? other := rfl
    simp only [hheld, held?_vacate, List.mem_singleton]

theorem dropped_after (d : FailureDesk) (slots : List Nat) :
    Dropped d (d.after (slots.map .drop)) slots := by
  induction slots generalizing d with
  | nil => exact ⟨fun slot => by simp [after], fun h => h⟩
  | cons slot rest ih =>
    have hfirst := dropped_step d slot
    have hrest := ih (d.step (.drop slot)).1
    refine ⟨fun other => ?_, fun h => hfirst.told (hrest.told h)⟩
    rw [List.map_cons, after, hrest.held, hfirst.held]
    by_cases ho : other = slot <;> by_cases hm : other ∈ rest <;> simp [ho, hm]

/-- With every other handle gone that led to a failure without a cause, nobody else holds it. -/
theorem Dropped.unshared {slots : List Nat} {kind : FailureKind} (h : Dropped d d' slots)
    (w : d.HeldWith []) (w' : d'.HeldWith []) (hi : d.held? i = some r)
    (htold : d.store.told? r = some (kind, none)) (hout : i ∉ slots)
    (hall : ∀ slot q, slot ≠ i → d.held? slot = some q →
      Relation.ReflTransGen d.store.CausedBy q r → slot ∈ slots) : d'.Unshared i r := by
  have hi' : d'.held? i = some r := by rw [h.held, if_neg hout, hi]
  have hlinks : ∀ {a b}, Relation.ReflTransGen d'.store.CausedBy a b →
      Relation.ReflTransGen d.store.CausedBy a b :=
    Relation.ReflTransGen.mono (fun _ _ ⟨kind, ht⟩ => ⟨kind, h.told ht⟩) _ _
  -- a handle that is left and leads to the failure is the one in its slot
  have honly : ∀ {slot q}, d'.held? slot = some q →
      Relation.ReflTransGen d.store.CausedBy q r → slot = i := by
    intro slot q hslot hway
    rw [h.held] at hslot
    split at hslot
    · cases hslot
    · rename_i hleft
      exact Classical.byContradiction fun hne => hleft (hall slot q hne hslot hway)
  refine ⟨⟨kind, ?_⟩, fun other ho => honly ho .refl, ?_⟩
  · obtain ⟨t, ht⟩ := Option.isSome_iff_exists.mp
      (FailureStore.isSome_told?.trans (w'.tells hi').isSome_node?)
    rw [ht, ← htold, h.told ht]
  · rintro q ⟨slot, p, hslot, hway⟩ ⟨k, hlink⟩
    have hcause : d.store.CausedBy q r := ⟨k, h.told hlink⟩
    have hslot' := honly hslot ((hlinks hway).tail hcause)
    subst hslot'
    rw [hi'] at hslot
    cases hslot
    exact w.acyclic r (.tail' (hlinks hway) hcause)

/-- The handles decide: what is there is what they lead to, all of it can be read, and who holds a
failure says whether it may be given a cause. -/
structure HandlesDecide (d : FailureDesk) : Prop where
  acyclic : Acyclic d.store.CausedBy
  /-- The nodes are those that handles lead to. -/
  kept_iff : ∀ q, (d.store.node? q).isSome ↔ d.Live q
  /-- Every handle that is alive can be read to the end. -/
  readable : ∀ slot r, d.held? slot = some r → ∃ clock,
    (d.store.writeWithin clock r "").isSome ∧ (d.store.describeWithin clock r).isSome
  /-- A text may be put in front of any failure. -/
  text : ∀ of base, d.held? of = some base →
    ∀ t, ∃ reply, (d.step (.context of (.text t))).2 = .ok reply
  /-- A failure may be put in front of another one exactly if it has no cause and no other
  holder. -/
  answered_iff : ∀ of base i r, d.held? of = some base → i ≠ of → d.held? i = some r →
    ((∃ reply, (d.step (.context of (.slot i))).2 = .ok reply) ↔ d.Unshared i r)
  refused_iff : ∀ of base i r, d.held? of = some base → i ≠ of → d.held? i = some r →
    ((d.step (.context of (.slot i))).2 = .error .notFresh ↔ ¬ d.Unshared i r)
  /-- It may not be put in front of a chain that it is part of. -/
  own_chain : ∀ of base i r, d.held? of = some base → i ≠ of → d.held? i = some r →
    Relation.ReflTransGen d.store.CausedBy base r →
    (d.step (.context of (.slot i))).2 = .error .notFresh
  /-- When the other handles that lead to a failure without a cause are dropped, in any order and
  whatever else is dropped with them, it may be put in front of all that is left. -/
  dropped : ∀ i r kind (slots : List Nat), d.held? i = some r →
    d.store.told? r = some (kind, none) → i ∉ slots →
    (∀ slot q, slot ≠ i → d.held? slot = some q →
      Relation.ReflTransGen d.store.CausedBy q r → slot ∈ slots) →
    ∀ of base, of ≠ i → (d.after (slots.map .drop)).held? of = some base →
      ∃ reply, ((d.after (slots.map .drop)).step (.context of (.slot i))).2 = .ok reply

theorem HeldWith.handlesDecide (w : d.HeldWith []) : d.HandlesDecide where
  acyclic := w.acyclic
  kept_iff _ := w.isSome_iff_live
  readable slot r hr := by
    have htells := w.tells hr
    refine ⟨(d.store.chain r).length, ?_, ?_⟩
    · rw [htells.writeWithin_eq (Nat.le_refl _)]
      rfl
    · rw [htells.describeWithin_eq (Nat.le_refl _)]
      rfl
  text _ _ hof := step_context_text hof
  answered_iff _ _ _ _ hof hne hi := (w.answers_iff_unshared hof hi hne).1
  refused_iff _ _ _ _ hof hne hi := (w.answers_iff_unshared hof hi hne).2
  own_chain _ _ _ _ hof hne hi hway :=
    (w.answers_iff_unshared hof hi hne).2.mpr (not_unshared_of_reach hof hne hway)
  dropped i r kind slots hi htold hout hall of base hne hof := by
    have w' : (d.after (slots.map .drop)).HeldWith [] := w.after (slots.map .drop)
    have hdropped : Dropped d (d.after (slots.map .drop)) slots := dropped_after d slots
    have hi' : (d.after (slots.map .drop)).held? i = some r := by
      rw [hdropped.held, if_neg hout, hi]
    have hu : (d.after (slots.map .drop)).Unshared i r :=
      hdropped.unshared w w' hi htold hout hall
    exact (w'.answers_iff_unshared hof hi' hne.symm).1.mpr hu

/-- After any steps, it is the handles that decide what may be put in front of what: a failure may
be given a cause exactly if it has none and nothing else holds it. -/
theorem context_iff_unshared (steps : List FailureStep) :
    (({} : FailureDesk).after steps).HandlesDecide :=
  (heldWith_empty.after steps).handlesDecide

/-- Two failures, the second one cloned. -/
def clonedFailure : List FailureStep :=
  [.create (.note "no connection"), .create (.note "not saved"), .clone 1]

/-- The second one can be put in front of the first one only when the clone is gone. -/
theorem context_iff_unshared_clonedFailure :
    let d := ({} : FailureDesk).after clonedFailure
    (d.step (.context 0 (.slot 1))).2 = .error .notFresh ∧
      ∃ reply, ((d.after [.drop 2]).step (.context 0 (.slot 1))).2 = .ok reply := by
  intro d
  have hold : d.held? 0 = some ⟨0⟩ := rfl
  have hnew : d.held? 1 = some ⟨1⟩ := rfl
  have hclone : d.held? 2 = some ⟨1⟩ := rfl
  have hdecide : d.HandlesDecide := context_iff_unshared clonedFailure
  refine ⟨?_, ?_⟩
  · refine (hdecide.refused_iff 0 ⟨0⟩ 1 ⟨1⟩ hold (by decide) hnew).mpr fun hu => ?_
    exact absurd (hu.handles 2 hclone) (by decide)
  · refine hdecide.dropped 1 ⟨1⟩ (.note "not saved") [2] hnew rfl (by decide) ?_
      0 ⟨0⟩ (by decide) rfl
    intro slot q hne hq hway
    match slot with
    | 0 =>
      cases hold.symm.trans hq
      cases FailureStore.eq_of_reach rfl hway
    | 1 => exact absurd rfl hne
    | 2 => exact List.mem_singleton_self 2
    | _ + 3 => cases hq

end RelationalMapping.FailureDesk
