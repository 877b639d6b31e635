import RelationalMapping.Proofs.FreeFailures

/-!
The text of a failure in contexts. It is written while the chain of causes is read, one failure
after the other, and whether a separator comes next is seen by reading one failure ahead
(`FailureStore.writeOut`).

* `Tells.writes`: so it comes to the texts of the chain with separators between them.
* `HeldWith.step_offered`: a context comes in front of what the failure was before.
* `InContexts.tells`: however many contexts a failure is put into, and whatever is done in between,
  its chain is that of the contexts, the newest first, and then its own.
* `contexts_read`: what is written then, and what kind of failure it is (`ReadAs`).
-/

namespace RelationalMapping

theorem FailureKind.text_note (t : String) : (note t).text = t := rfl

/-- An inconsistency says so before its text. -/
theorem FailureKind.text_inconsistency (t : String) :
    (inconsistency t).text = "internal consistency failure: " ++ t := rfl

/-! ## Writing while reading ahead -/

/-- Where the reading of a chain has got to. -/
structure ChainReader where
  /-- The failure that the chain begins with, until it was given out. -/
  first : Option FailureRef
  /-- The failure whose cause is given out next. -/
  current : FailureRef
  /-- What was read ahead, if something was: the next failure, or that there is none. -/
  peeked : Option (Option FailureRef) := none

/-- Before anything was read. -/
def ChainReader.start (r : FailureRef) : ChainReader := { first := some r, current := r }

namespace FailureStore

/-- The kind of the failure itself. -/
def newest? (s : FailureStore) (r : FailureRef) : Option FailureKind := (s.told? r).map Prod.fst

/-- The text of what the failure itself is made of. -/
def source? (s : FailureStore) (r : FailureRef) : Option String :=
  (s.newest? r).map FailureKind.text

/-- The first failure, and then one cause after the other. -/
def advance (s : FailureStore) (reader : ChainReader) : Option FailureRef × ChainReader :=
  match reader.first with
  | some r => (some r, { reader with first := none })
  | none =>
      match (s.told? reader.current).bind Prod.snd with
      | some c => (some c, { reader with current := c })
      | none => (none, reader)

/-- What was read ahead is given out first. -/
def next (s : FailureStore) (reader : ChainReader) : Option FailureRef × ChainReader :=
  match reader.peeked with
  | some found => (found, { reader with peeked := none })
  | none => s.advance reader

/-- Reads ahead, unless that was done already. -/
def peek (s : FailureStore) (reader : ChainReader) : Option FailureRef × ChainReader :=
  match reader.peeked with
  | some found => (found, reader)
  | none =>
      let (found, reader) := s.advance reader
      (found, { reader with peeked := some found })

/-- Writes what is still to be read after what is written already: the text of each failure, and a
separator if another one follows. The clock has to last until nothing is left to read. -/
def writeOut (s : FailureStore) : Nat → ChainReader → String → Option String
  | 0, _, _ => none
  | clock + 1, reader, written =>
      match s.next reader with
      | (none, _) => some written
      | (some r, reader) =>
          match s.newest? r with
          | none => none
          | some kind =>
              match s.peek reader with
              | (some _, reader) => s.writeOut clock reader (written ++ kind.text ++ ": ")
              | (none, reader) => s.writeOut clock reader (written ++ kind.text)

/-- Writing the failure ends, and comes to that text. -/
def Writes (s : FailureStore) (r : FailureRef) (text : String) : Prop :=
  ∃ enough, ∀ clock, enough ≤ clock → s.writeOut clock (.start r) "" = some text

variable {s : FailureStore} {r : FailureRef} {chain : FailureChain}

/-- One failure is written, and the one after it was read ahead. -/
theorem writeOut_succ {reader : ChainReader} {kind : FailureKind} {cause : Option FailureRef}
    (hnext : s.next reader = (some r, { first := none, current := r }))
    (ht : s.told? r = some (kind, cause)) (clock : Nat) (written : String) :
    s.writeOut (clock + 1) reader written =
      match cause with
      | some c =>
          s.writeOut clock { first := none, current := c, peeked := some (some c) }
            (written ++ kind.text ++ ": ")
      | none =>
          s.writeOut clock { first := none, current := r, peeked := some none }
            (written ++ kind.text) := by
  have hnewest : s.newest? r = some kind := by rw [newest?, ht, Option.map_some]
  rw [writeOut]
  cases cause <;> simp only [hnext, hnewest, peek, advance, ht, Option.bind_some]

/-- Whether the next failure comes from the start or was read ahead, the same is written from it
on. -/
theorem Tells.writeOut_eq (h : s.Tells r chain) {reader : ChainReader}
    (hnext : s.next reader = (some r, { first := none, current := r })) {clock : Nat}
    (hclock : chain.length < clock) (written : String) :
    s.writeOut clock reader written = some (written ++ chain.text) := by
  induction h generalizing reader clock written with
  | @first r kind ht =>
    obtain ⟨clock, rfl⟩ := Nat.exists_eq_add_of_lt hclock
    have hlast : FailureChain.text [kind] = kind.text := by simp [FailureChain.text]
    rw [writeOut_succ hnext ht, hlast]
    simp only [List.length_singleton, Nat.add_comm 1 clock, writeOut, next]
  | @caused r c kind chain ht hc ih =>
    obtain ⟨clock, rfl⟩ := Nat.exists_eq_add_of_lt hclock
    have hrest : chain.length < (kind :: chain).length + clock := by
      rw [List.length_cons]
      omega
    have hpeeked : s.next { first := none, current := c, peeked := some (some c) } =
        (some c, { first := none, current := c }) := rfl
    rw [writeOut_succ hnext ht, text_cons hc.ne_nil]
    simp only [ih hpeeked hrest, String.append_assoc]

theorem Tells.writes (h : s.Tells r chain) : s.Writes r chain.text := by
  refine ⟨chain.length + 1, fun clock hclock => ?_⟩
  rw [h.writeOut_eq rfl hclock, String.empty_append]

/-- Only the failure itself is looked at for its kind and its source. -/
theorem Tells.newest (h : s.Tells r chain) :
    ∃ kind, chain.head? = some kind ∧ s.isInconsistency r = kind.isInconsistency ∧
      s.source? r = some kind.text := by
  cases h with
  | @first _ kind ht | @caused _ _ kind _ ht _ =>
    exact ⟨kind, rfl, by simp [isInconsistency, ht], by simp [source?, newest?, ht]⟩

/-- The failure is read as that chain. -/
structure ReadAs (s : FailureStore) (r : FailureRef) (chain : FailureChain) : Prop where
  chain_eq : s.chain r = chain
  /-- What is written are the texts of the chain, with separators between them and nowhere else. -/
  writes : s.Writes r (": ".intercalate (chain.map FailureKind.text))
  /-- Whether it is an inconsistency, and what its source is, depends on the newest one only. -/
  newest : ∃ kind, chain.head? = some kind ∧ s.isInconsistency r = kind.isInconsistency ∧
    s.source? r = some kind.text

theorem Tells.readAs (h : s.Tells r chain) : s.ReadAs r chain :=
  ⟨h.chain_eq, h.writes, h.newest⟩

end FailureStore

namespace FailureValues

variable {v : FailureValues} {of i : Nat} {base : FailureChain} {kind : FailureKind}

theorem held?_keep_self (v : FailureValues) (chain : FailureChain) :
    (v.keep chain).1.held? v.slots.length = some chain := by
  simp [held?, keep]

/-- A text, and a single failure, come in front of the base. -/
theorem putInContext_text (hof : v.held? of = some base) (t : String) :
    v.putInContext true of (.text t) = (v.vacate of).keep (.note t :: base) := by
  simp only [putInContext, hof, combine]

theorem putInContext_slot (hof : v.held? of = some base) (hi : v.held? i = some [kind])
    (hne : i ≠ of) : v.putInContext true of (.slot i) =
      ((v.vacate of).vacate i).keep (kind :: base) := by
  simp only [putInContext, hof, held?_vacate_of_ne hne, hi, combine]

end FailureValues

namespace FailureDesk

/-! ## One context -/

/-- The failure in slot `of` may be put into that context, which is a failure of that kind: a text
always, and the failure in another slot if it has no cause and no other holder. -/
inductive Offers (d : FailureDesk) (of : Nat) : FailureContext → FailureKind → Prop
  | text (t : String) : Offers d of (.text t) (.note t)
  | failure {i : Nat} {r : FailureRef} {kind : FailureKind} (hi : d.held? i = some r)
      (hne : i ≠ of) (hfree : d.Unshared i r) (hkind : d.store.told? r = some (kind, none)) :
      Offers d of (.slot i) kind

variable {d d' : FailureDesk} {of slot : Nat} {base : FailureRef} {c : FailureContext}
  {kind : FailureKind} {kinds causes : FailureChain}

theorem HeldWith.values_held?_iff (w : d.HeldWith []) {chain : FailureChain} :
    d.values.held? slot = some chain ↔ ∃ r, d.held? slot = some r ∧ d.store.Tells r chain := by
  rw [values_held?, Option.map_eq_some_iff]
  constructor
  · rintro ⟨r, hr, rfl⟩
    exact ⟨r, hr, w.tells hr⟩
  · rintro ⟨r, hr, htells⟩
    exact ⟨r, hr, htells.chain_eq⟩

theorem HeldWith.answers_offered (w : d.HeldWith []) (hof : d.held? of = some base)
    (hc : d.Offers of c kind) : ∃ reply, (d.step (.context of c)).2 = .ok reply := by
  cases hc with
  | text t => exact step_context_text hof t
  | failure hi hne hfree hkind => exact (w.answers_iff_unshared hof hi hne).1.mpr hfree

/-- The context is answered, and its failure comes in front of the base's chain. -/
theorem HeldWith.step_offered (w : d.HeldWith []) (hof : d.held? of = some base)
    (hbase : d.store.Tells base causes) (hc : d.Offers of c kind) :
    (d.step (.context of c)).2 = .ok (.made d.slots.length (kind :: causes)) ∧
      (d.step (.context of c)).1.values.held? d.slots.length = some (kind :: causes) := by
  obtain ⟨reply, hreply⟩ := w.answers_offered hof hc
  obtain ⟨_, hvalues, hreplied⟩ := w.step_mirrors (.context of c)
  have hfree : FailureReply.free (d.step (.context of c)).2 = true := by rw [hreply]; rfl
  have hof' : d.values.held? of = some causes := w.values_held?_iff.mpr ⟨base, hof, hbase⟩
  -- the context is kept in the slot that comes next, whichever slots were emptied for it
  have hkept : ∃ v : FailureValues, v.slots.length = d.slots.length ∧
      d.values.step true (.context of c) = v.keep (kind :: causes) := by
    cases hc with
    | text t => exact ⟨d.values.vacate of, by simp [FailureValues.vacate, values],
        FailureValues.putInContext_text hof' t⟩
    | @failure i r _ hi hne _ hkind =>
      have hi' : d.values.held? i = some [kind] := w.values_held?_iff.mpr ⟨r, hi, .first hkind⟩
      exact ⟨(d.values.vacate of).vacate i, by simp [FailureValues.vacate, values],
        FailureValues.putInContext_slot hof' hi' hne⟩
  obtain ⟨v, hlength, hkept⟩ := hkept
  rw [hfree, hkept] at hvalues hreplied
  rw [hvalues, hreplied, ← hlength]
  exact ⟨rfl, FailureValues.held?_keep_self ..⟩

/-- A failure that was just made may be put in front of any other. -/
theorem HeldWith.offers_create (w : d.HeldWith []) (hof : d.held? of = some base)
    (kind : FailureKind) : (d.step (.create kind)).1.Offers of (.slot d.slots.length) kind := by
  have wmade : (d.step (.create kind)).1.HeldWith [] := (w.step_mirrors (.create kind)).1
  have hmade : (d.step (.create kind)).1.held? d.slots.length = some (d.store.create kind).2 := by
    simp [step, FailureDesk.keep, held?]
  have hne : d.slots.length ≠ of := by
    rintro rfl
    simp [held?] at hof
  have hattach : ((d.step (.create kind)).1.store.attach? base (d.store.create kind).2).isSome :=
    Option.isSome_of_eq_some (FailureStore.attach?_create d.store kind base)
  refine .failure hmade hne ((wmade.attach?_isSome_iff hmade base).mp hattach) ?_
  exact (FailureStore.told?_create d.store kind _).trans (if_pos rfl)

/-! ## Any number of contexts -/

/-- The failure in slot `of` was put into contexts of these kinds, the newest first, and lies in
that slot of `d'` now. In between other steps were taken that left it where it was. -/
inductive InContexts (d : FailureDesk) (of : Nat) : FailureChain → FailureDesk → Nat → Prop
  | none : InContexts d of [] d of
  | other {kinds : FailureChain} {d' : FailureDesk} {slot : Nat}
      (h : InContexts d of kinds d' slot) (s : FailureStep) (hs : slot ∉ s.takes) :
      InContexts d of kinds (d'.step s).1 slot
  | context {kinds : FailureChain} {d' : FailureDesk} {slot : Nat}
      (h : InContexts d of kinds d' slot) {c : FailureContext} {kind : FailureKind}
      (hc : d'.Offers slot c kind) :
      InContexts d of (kind :: kinds) (d'.step (.context slot c)).1 d'.slots.length

/-- The contexts come before the causes that the failure had at first. -/
theorem InContexts.tells (h : d.InContexts of kinds d' slot) (w : d.HeldWith [])
    (hof : d.held? of = some base) (hbase : d.store.Tells base causes) :
    d'.HeldWith [] ∧ ∃ r, d'.held? slot = some r ∧ d'.store.Tells r (kinds ++ causes) := by
  induction h with
  | none => exact ⟨w, base, hof, hbase⟩
  | other _ s hs ih =>
    obtain ⟨w', hheld⟩ := ih
    obtain ⟨wnext, hvalues, _⟩ := w'.step_mirrors s
    refine ⟨wnext, wnext.values_held?_iff.mp ?_⟩
    rw [hvalues]
    exact FailureValues.held?_step (w'.values_held?_iff.mpr hheld) hs
  | @context kinds d' slot _ c kind hc ih =>
    obtain ⟨w', r, hr, htells⟩ := ih
    have wnext := (w'.step_mirrors (.context slot c)).1
    exact ⟨wnext, wnext.values_held?_iff.mp (w'.step_offered hr htells hc).2⟩

/-- A failure may be put into contexts of any kinds, as many as one likes. -/
theorem HeldWith.exists_inContexts (w : d.HeldWith []) (hof : d.held? of = some base)
    (kinds : FailureChain) : ∃ d' slot, d.InContexts of kinds d' slot := by
  induction kinds with
  | nil => exact ⟨d, of, .none⟩
  | cons kind rest ih =>
    obtain ⟨d', slot, h⟩ := ih
    obtain ⟨w', r, hr, _⟩ := h.tells w hof (w.tells hof)
    have hmade : d.InContexts of rest (d'.step (.create kind)).1 slot :=
      h.other (.create kind) (by simp [FailureStep.takes])
    exact ⟨_, _, hmade.context (w'.offers_create hr kind)⟩

/-- What becomes of the text of `base`, the failure in slot `of`, as it is put into contexts. -/
structure ReadsContexts (d : FailureDesk) (of : Nat) (base : FailureRef) : Prop where
  before : d.store.ReadAs base (d.store.chain base)
  /-- A context that is offered is answered, and its text, a separator and the text of the failure
  before are what is written then. -/
  one : ∀ c kind, d.Offers of c kind → ∃ reply r, (d.step (.context of c)).2 = .ok reply ∧
    (d.step (.context of c)).1.held? d.slots.length = some r ∧
    (d.step (.context of c)).1.store.Writes r (kind.text ++ ": " ++ (d.store.chain base).text)
  /-- A failure that is offered as a context is written as its own kind. -/
  offered : ∀ i kind, d.Offers of (.slot i) kind →
    ∃ r, d.held? i = some r ∧ d.store.Writes r kind.text
  /-- In however many contexts, of whatever kinds and with whatever steps in between, it is read as
  the contexts, from the newest on, and then what it was before. -/
  contexts : ∀ kinds d' slot, d.InContexts of kinds d' slot →
    ∃ r, d'.held? slot = some r ∧ d'.store.ReadAs r (kinds ++ d.store.chain base)
  /-- Contexts of any kinds can be given. -/
  exists_contexts : ∀ kinds, ∃ d' slot, d.InContexts of kinds d' slot

theorem HeldWith.readsContexts (w : d.HeldWith []) (hof : d.held? of = some base) :
    d.ReadsContexts of base where
  before := (w.tells hof).readAs
  one c kind hc := by
    obtain ⟨hreply, hheld⟩ := w.step_offered hof (w.tells hof) hc
    obtain ⟨r, hr, htells⟩ := (w.step_mirrors (.context of c)).1.values_held?_iff.mp hheld
    refine ⟨_, r, hreply, hr, ?_⟩
    rw [← FailureStore.text_cons (w.tells hof).ne_nil]
    exact htells.writes
  offered i kind hc := by
    cases hc with
    | @failure _ r _ hi _ _ hkind =>
      refine ⟨r, hi, ?_⟩
      have htext : kind.text = FailureChain.text [kind] := by simp [FailureChain.text]
      rw [htext]
      exact (FailureStore.Tells.first hkind).writes
  contexts kinds d' slot h := by
    obtain ⟨_, r, hr, htells⟩ := h.tells w hof (w.tells hof)
    exact ⟨r, hr, htells.readAs⟩
  exists_contexts := w.exists_inContexts hof

/-- After any steps a failure that is held can be put into contexts of any kinds, and is read as
these and what it was before, the newest first. An inconsistency among them says so before its own
text. -/
theorem contexts_read (steps : List FailureStep) (of : Nat) {base : FailureRef}
    (hof : (({} : FailureDesk).after steps).held? of = some base) :
    (({} : FailureDesk).after steps).ReadsContexts of base ∧
      ∀ t, (FailureKind.note t).text = t ∧
        (FailureKind.inconsistency t).text = "internal consistency failure: " ++ t :=
  ⟨(heldWith_empty.after steps).readsContexts hof,
    fun t => ⟨FailureKind.text_note t, FailureKind.text_inconsistency t⟩⟩

/-- An inconsistency with a clone. -/
def sharedInconsistency : List FailureStep := [.create (.inconsistency "no table"), .clone 0]

/-- A text and then a second inconsistency come before the first one. -/
theorem contexts_read_sharedInconsistency :
    ∃ (d' : FailureDesk) (slot : Nat) (r : FailureRef), d'.held? slot = some r ∧
      d'.store.chain r = [.inconsistency "no id", .note "reading", .inconsistency "no table"] ∧
      d'.store.Writes r
        "internal consistency failure: no id: reading: internal consistency failure: no table" ∧
      d'.store.isInconsistency r = true := by
  have hof : (({} : FailureDesk).after sharedInconsistency).held? 0 = some ⟨0⟩ := rfl
  obtain ⟨hreads, -⟩ := contexts_read sharedInconsistency 0 hof
  have hcauses : (({} : FailureDesk).after sharedInconsistency).store.chain ⟨0⟩ =
      [.inconsistency "no table"] := FailureStore.Tells.chain_eq (.first rfl)
  obtain ⟨d', slot, h⟩ := hreads.exists_contexts [.inconsistency "no id", .note "reading"]
  obtain ⟨r, hr, hread⟩ := hreads.contexts _ d' slot h
  rw [hcauses] at hread
  obtain ⟨newest, hnewest, hkind, -⟩ := hread.newest
  cases hnewest
  have htext : ": ".intercalate (([.inconsistency "no id", .note "reading"] ++
      [.inconsistency "no table"] : FailureChain).map FailureKind.text) =
        "internal consistency failure: no id: reading: internal consistency failure: no table" := by
    simp only [List.cons_append, List.nil_append, List.map_cons, List.map_nil,
      FailureKind.text_note, FailureKind.text_inconsistency, String.intercalate_cons_cons,
      String.intercalate_singleton, String.reduceAppend]
  exact ⟨d', slot, r, hr, hread.chain_eq, htext ▸ hread.writes, hkind⟩

end FailureDesk

end RelationalMapping
