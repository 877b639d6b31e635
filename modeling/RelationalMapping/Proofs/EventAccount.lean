import RelationalMapping.Proofs.PartOrder
import RelationalMapping.Proofs.Refusal

/-!
The events of a run as an account of what it did. Whether an attribute takes another one over is
said before it is stored, by a look at the names of its scope. What becomes of the scope is decided
afterwards, on an entity by its declared names and in a composite by the positions of its parts.

* `account_after`: the registrations that are reported for an entity are its store.
* `Step.events_eq_nil`, `events_of_not_mapped`: what fails reports nothing, and only what registers
  an attribute reports a registration.
* `Reseats`: one position of a list of ids leads to another id.
* `events_account`: what a run reports is what it did (`Accounted`), and a replacement is reported
  just where the enumeration of the scope was changed in its place, and not made longer
  (`ShowsRegistration`).
-/

namespace RelationalMapping

namespace Event

/-- The name and the kind of the attribute that was stored on `x`, if the event reports one. -/
def storedOn? (x : EntityId) : Event → Option (String × AttributeKind)
  | .attributeAdded entity name kind => if entity = x then some (name, kind) else none
  | _ => none

/-- The event reports an attribute, or what one takes over. -/
def isRegistration : Event → Bool
  | .attributeAdded .. | .attributeReplaced .. => true
  | _ => false

theorem filterMap_storedOn?_eq_nil {events : List Event} (x : EntityId)
    (h : ∀ event ∈ events, event.isRegistration = false) :
    events.filterMap (storedOn? x) = [] := by
  refine List.filterMap_eq_nil_iff.mpr fun event hevent => ?_
  have hnone := h event hevent
  cases event <;> simp_all [storedOn?, isRegistration]

end Event

/-! ## What is stored -/

/-- The name and the kind, which an attribute keeps for good. -/
def AttributeMapping.entry (a : AttributeMapping) : String × AttributeKind := (a.name, a.kind)

theorem AttributeMapping.entry_withPart (a : AttributeMapping) (name : String)
    (part : AttributeId) : (a.withPart name part).entry = a.entry :=
  Prod.ext (a.name_withPart name part) (kind_eq_of_content_eq (a.content_withPart name part))

namespace EntityMapping

/-- The store, with the name and the kind of each attribute. -/
def account (e : EntityMapping) : List (String × AttributeKind) :=
  e.store.map AttributeMapping.entry

theorem account_withAttribute (e : EntityMapping) (scope : Scope) (a : AttributeMapping) :
    (e.withAttribute scope a).account = e.account ++ [a.entry] := by
  have hmap : (e.withAttribute scope a).account =
      (e.store ++ [a]).map AttributeMapping.entry := by
    refine List.ext_getElem? fun i => ?_
    rw [account, List.getElem?_map, store_withAttribute, List.getElem?_map, Option.map_map]
    congr 1
    funext b
    simp only [Function.comp]
    split
    · exact b.entry_withPart a.name a.id
    · rfl
  rw [hmap, List.map_append, List.map_singleton]
  rfl

end EntityMapping

namespace Model

variable {m m' : Model} {c : Command} {x : EntityId} {fault : Fault}

/-- The account of the entity at that position, empty where no entity stands. -/
def account (m : Model) (x : EntityId) : List (String × AttributeKind) :=
  (m.entity? x).elim [] EntityMapping.account

theorem SameStores.account_eq (h : SameStores m m') (x : EntityId) :
    m'.account x = m.account x := by
  unfold account
  cases he' : m'.entity? x with
  | some e' =>
    rcases h.back he' with ⟨e, he, hsame⟩ | ⟨hnone, hstore, _⟩
    · simp only [he, Option.elim_some, EntityMapping.account, hsame.store]
    · simp only [hnone, Option.elim_some, Option.elim_none, EntityMapping.account, hstore,
        List.map_nil]
  | none =>
    cases he : m.entity? x with
    | none => rfl
    | some e =>
      obtain ⟨e', hfound, _⟩ := h.forth he
      rw [he'] at hfound
      cases hfound

/-! ## What is reported -/

/-- What gives no answer reports nothing. -/
theorem Step.events_eq_nil {given : AttributeMapping → Prop} {o : Outcome Model Reply}
    (h : m.Step given o) (hfault : o.answer = .error fault) : o.events = [] := by
  cases h with
  | refused fault => rfl
  | root inheritance mode => cases hfault
  | child parent k hparent =>
    simp only [addChild, hparent] at hfault
    cases hfault
  | settings events hentity hplace hstore hdeclared hcollisions => cases hfault
  | hierarchy hhierarchy change => rfl
  | binding hentity hbound =>
    cases hbound with
    | refused fault => rfl
    | enrolled scope replaced hid hmade htaken => cases hfault

/-- Settings do not report a registration. -/
theorem events_onEntity {α : Type} {f : EntityMapping → Outcome EntityMapping α}
    {tell : α → Reply} (hf : ∀ e, ∀ event ∈ (f e).events, event.isRegistration = false) :
    ∀ event ∈ ((m.onEntity x f).map tell).events, event.isRegistration = false := by
  unfold onEntity
  cases m.entity? x with
  | none => exact fun event hevent => absurd hevent List.not_mem_nil
  | some e => exact hf e

theorem answer_mapped_ne_done (o : Outcome Model AttributeId) :
    (o.map Reply.mapped).answer ≠ .ok .done := by
  rw [Outcome.answer_map]
  cases o.answer <;> simp [Except.map]

theorem events_of_done (h : (m.apply c).answer = .ok .done) :
    ∀ event ∈ (m.apply c).events, event.isRegistration = false := by
  cases c with
  | addRoot _ _ => cases h
  | addChild parent =>
    simp only [apply, addChild] at h
    split at h <;> cases h
  | setType _ _ | setPrimaryTable _ _ | setPrimaryTableName _ _ | addFilter _ _
  | addSynchronizedTables _ _ | configureEntity _ _ =>
    exact events_onEntity fun e event hevent => absurd hevent List.not_mem_nil
  | addSecondaryTable _ _ =>
    exact events_onEntity fun e event hevent => by rw [List.mem_singleton.mp hevent]; rfl
  | configureHierarchy k change =>
    simp only [apply, changeHierarchy]
    cases m.hierarchy? k <;> exact fun event hevent => absurd hevent List.not_mem_nil
  | bindBasic _ _ _ _ _ | bindComponent _ _ _ _ | bindReference _ _ _ _ _ _
  | bindCollection _ _ _ _ _ _ | bindVirtual _ _ _ _ | bindInverse _ _ _ | register _ _ =>
    exact absurd h (answer_mapped_ne_done _)

/-- Only what registers an attribute reports a registration. -/
theorem events_of_not_mapped (h : ∀ id, (m.apply c).answer ≠ .ok (.mapped id)) :
    ∀ event ∈ (m.apply c).events, event.isRegistration = false := by
  have hdone := events_of_done (m := m) (c := c)
  have hstep := step_apply m c
  generalize m.apply c = o at h hdone hstep
  cases hstep with
  | refused fault => exact fun event hevent => absurd hevent List.not_mem_nil
  | root inheritance mode => exact fun event hevent => by rw [List.mem_singleton.mp hevent]; rfl
  | child parent k hparent =>
    simp only [addChild, hparent]
    exact fun event hevent => by rw [List.mem_singleton.mp hevent]; rfl
  | settings events hentity hplace hstore hdeclared hcollisions => exact hdone rfl
  | hierarchy hhierarchy change => exact fun event hevent => absurd hevent List.not_mem_nil
  | binding hentity hbound =>
    cases hbound with
    | refused fault => exact fun event hevent => absurd hevent List.not_mem_nil
    | enrolled scope replaced hid hmade htaken => exact absurd rfl (h _)

/-- What is stored is reported last, and before it what it takes over. -/
theorem Registers.events {p : Place} {e : EntityMapping} {scope : Scope} {a : AttributeMapping}
    (f : Forest m) (h : m.Registers c p e scope a) :
    ∃ replaced, e.takenOver scope a.name = .ok replaced ∧
      (m.apply c).events = (replaced.map (Event.attributeReplaced p.entity)).toList ++
        [.attributeAdded p.entity a.name a.kind] := by
  obtain ⟨replaced, htaken, houtcome⟩ := h.outcome
  refine ⟨replaced, htaken, ?_⟩
  rw [houtcome, Outcome.events_map, Outcome.events_within, EntityMapping.enrol,
    f.entity_id h.entity]

/-- What a command adds to the stores is what it reports. -/
theorem account_apply (f : Forest m) (c : Command) (x : EntityId) :
    (m.apply c).state.account x =
      m.account x ++ (m.apply c).events.filterMap (Event.storedOn? x) := by
  cases step_stores (step_apply m c) with
  | kept hsame hanswer =>
    rw [hsame.account_eq, Event.filterMap_storedOn?_eq_nil x (events_of_not_mapped hanswer),
      List.append_nil]
  | enrolled _ _ _ _ _ hanswer =>
    obtain ⟨p, e, scope, a, _, h⟩ := registers_of_mapped hanswer
    obtain ⟨replaced, _, hevents⟩ := h.events f
    have hbefore : (replaced.map (Event.attributeReplaced p.entity)).toList.filterMap
        (Event.storedOn? x) = [] := by cases replaced <;> rfl
    rw [hevents, List.filterMap_append, hbefore, List.nil_append, account, h.state,
      entity?_putEntity h.entity]
    by_cases hx : x = p.entity
    · subst hx
      simp [account, h.entity, EntityMapping.account_withAttribute, Event.storedOn?,
        AttributeMapping.entry]
    · simp [account, hx, Ne.symm hx, Event.storedOn?]

/-- The registrations that a run reports for an entity are what it adds to its store, in order. -/
theorem account_after (f : Forest m) (commands : List Command) (x : EntityId) :
    (m.after commands).account x =
      m.account x ++ (m.eventsOf commands).filterMap (Event.storedOn? x) := by
  induction commands generalizing m with
  | nil => simp [eventsOf, outcomes]
  | cons c rest ih =>
    have hevents : m.eventsOf (c :: rest) =
        (m.apply c).events ++ (m.apply c).state.eventsOf rest := List.flatMap_cons ..
    have hnext : Forest (m.apply c).state := forest_after f [c]
    rw [after_cons, ih hnext, account_apply f, hevents, List.filterMap_append,
      List.append_assoc]

end Model

/-! ## What becomes of the scope -/

/-- One position that led to another id leads to this one. -/
def Reseats (before after : List AttributeId) (id : AttributeId) : Prop :=
  ∃ (k : Nat) (old : AttributeId), before[k]? = some old ∧ old ≠ id ∧ after = before.set k id

theorem not_reseats_concat (ids : List AttributeId) (id : AttributeId) :
    ¬ Reseats ids (ids ++ [id]) id := by
  rintro ⟨k, old, _, _, hset⟩
  have hlength := congrArg List.length hset
  simp at hlength

/-- An id that is not among them comes in the place of another one, or else at the end. -/
theorem reseats_putAt {ids : List AttributeId} {place : Option Nat} {id : AttributeId}
    (hplace : ∀ k, place = some k → k < ids.length) (hnew : id ∉ ids) :
    (place.isSome = true ↔ Reseats ids (Roster.putAt place id ids) id) ∧
      (place = none ↔ Roster.putAt place id ids = ids ++ [id]) := by
  cases place with
  | none =>
    exact ⟨⟨fun h => (by cases h), fun h => absurd h (not_reseats_concat ids id)⟩,
      fun _ => rfl, fun _ => rfl⟩
  | some k =>
    have hk : k < ids.length := hplace k rfl
    have hreseats : Reseats ids (ids.set k id) id := by
      refine ⟨k, ids[k], List.getElem?_eq_getElem hk, ?_, rfl⟩
      rintro rfl
      exact hnew (List.getElem_mem hk)
    refine ⟨⟨fun _ => hreseats, fun _ => rfl⟩, fun h => (by cases h), fun happended => ?_⟩
    have hset : ids.set k id = ids ++ [id] := happended
    rw [hset] at hreseats
    exact absurd hreseats (not_reseats_concat ids id)

namespace EntityMapping

variable {e e' : EntityMapping} {scope : Scope} {a : AttributeMapping} {ids : List AttributeId}
  {replaced : Option String}

/-- A scope keeps ids of attributes that are stored. -/
theorem WellStored.not_mem_idsIn (w : WellStored e) (hs : e.Opens scope)
    (hids : e.idsIn scope = .ok ids) : e.nextId ∉ ids := by
  intro hmem
  cases scope with
  | entity =>
    cases hids
    obtain ⟨i, hi, heq⟩ := List.mem_map.mp hmem
    obtain ⟨b, hb⟩ := w.indexed.storedAt_declared hi
    obtain ⟨hlt, _⟩ := List.getElem?_eq_some_iff.mp (Answer.atIndex_eq_ok_iff.mp hb)
    exact Nat.ne_of_lt hlt (congrArg AttributeId.index heq)
  | composite i =>
    obtain ⟨b, c, hb, hc⟩ := hs
    simp only [idsIn, compositeAt_stored hb hc, Except.map] at hids
    cases hids
    exact Nat.lt_irrefl _ ((w.fits hb c hc).parts e.nextId hmem).2

/-- Something is taken over just where a position of the scope comes to lead to another id. -/
theorem PartsCatalogued.taken_iff_reseats (h : e.PartsCatalogued) (w : WellStored e)
    (hs : e.Opens scope) (hid : a.id = e.nextId)
    (htaken : e.takenOver scope a.name = .ok replaced) :
    ∃ before after, e.idsIn scope = .ok before ∧
      (e.withAttribute scope a).idsIn scope = .ok after ∧
      (replaced.isSome = true ↔ Reseats before after a.id) ∧
      (replaced = none ↔ after = before ++ [a.id]) := by
  obtain ⟨l, hl⟩ := h.exists_catalogue hs
  have hbefore : e.idsIn scope = .ok (l.map Prod.snd) := hl.idsIn_eq
  have hafter := (hl.withAttribute hid).idsIn_eq
  rw [Roster.map_snd_enterInto] at hafter
  have hplace : replaced.isSome = ((l.map Prod.fst).idxOf? a.name).isSome :=
    Except.ok.inj ((lists_of_takenOver htaken).1.symm.trans (hl.lists_eq a.name))
  have hnone : replaced = none ↔ (l.map Prod.fst).idxOf? a.name = none := by
    rw [← Option.not_isSome_iff_eq_none, hplace, Option.not_isSome_iff_eq_none]
  have hwithin : ∀ k, (l.map Prod.fst).idxOf? a.name = some k → k < (l.map Prod.snd).length := by
    intro k hk
    simpa using (List.idxOf?_eq_some_iff.mp hk).1
  have hnew : a.id ∉ l.map Prod.snd := hid ▸ w.not_mem_idsIn hs hbefore
  obtain ⟨hreseats, happended⟩ := reseats_putAt hwithin hnew
  exact ⟨_, _, hbefore, hafter, hplace ▸ hreseats, hnone.trans happended⟩

end EntityMapping

/-- The ids of the attributes that a scope lists. -/
def EntityMapping.enumerates (e : EntityMapping) (scope : Scope) : Answer (List AttributeId) :=
  (e.listing scope).map (List.map AttributeMapping.id)

/-- What the command hands in ready made has its parts among what its own entity stored before it,
and names lead to them as in the composites of the binding operations, which hand in nothing. -/
def Command.GivesFitting (c : Command) : Prop :=
  ∀ a, c.Gives a → a.Fits a.id.entity a.id.index ∧
    ∀ b, a.composite? = some b → ∃ l, b.Catalogued l

namespace Model

/-- What is seen of a registration: the attribute that was asked for is stored in the scope, which
enumerated the ids `before` and enumerates `after` now, and it took over what `replaced` says. -/
structure ShowsRegistration (m : Model) (c : Command) (id : AttributeId) (p : Place)
    (e e' : EntityMapping) (scope : Scope) (a : AttributeMapping) (before after : List AttributeId)
    (replaced : Option String) : Prop where
  request : c.request? = some (p, a.content)
  made : a.id = id
  opened : m.openPlace p = .ok (e, scope)
  opened_after : (m.apply c).state.openPlace p = .ok (e', scope)
  enumerated : e.enumerates scope = .ok before
  enumerated_after : e'.enumerates scope = .ok after
  /-- The attribute is reported last, and right before it what it takes over. -/
  events : (m.apply c).events = (replaced.map (Event.attributeReplaced p.entity)).toList ++
    [.attributeAdded p.entity a.name a.kind]
  /-- It takes something over just where a position of the scope comes to lead to another id. -/
  replaced_iff : replaced.isSome = true ↔ Reseats before after id
  /-- Otherwise the scope enumerates one id more, at its end. -/
  appended_iff : replaced = none ↔ after = before ++ [id]

theorem Registers.showsRegistration {p : Place} {e : EntityMapping} {scope : Scope}
    {a : AttributeMapping} (h : m.Registers c p e scope a) (f : Forest m)
    (hcat : e.PartsCatalogued) (w : e.WellStored) (w' : (e.withAttribute scope a).WellStored) :
    ∃ before after replaced, m.ShowsRegistration c a.id p e (e.withAttribute scope a) scope a
      before after replaced := by
  have hs : e.Opens scope := EntityMapping.opens_of_openScope h.opened
  obtain ⟨replaced, htaken, hevents⟩ := h.events f
  obtain ⟨before, after, hbefore, hafter, hreseats, happended⟩ :=
    hcat.taken_iff_reseats w hs h.id htaken
  exact ⟨before, after, replaced, {
    request := h.asked.request
    made := rfl
    opened := h.openPlace
    opened_after := h.openPlace_after
    enumerated := (w.map_id_listing hs).trans hbefore
    enumerated_after := (w'.map_id_listing (hs.withAttribute scope a)).trans hafter
    events := hevents
    replaced_iff := hreseats
    appended_iff := happended }⟩

/-- What was reported over a run, and what the next command reports, accounts for what was done. -/
structure Accounted (start : Model) (commands : List Command) : Prop where
  /-- The registrations that were reported for an entity are its store, in order and with the
  kinds. -/
  stored : ∀ x, (start.eventsOf commands).filterMap (Event.storedOn? x) =
    (start.after commands).account x
  /-- A command that fails reports nothing. -/
  failed : ∀ c fault, ((start.after commands).apply c).answer = .error fault →
    ((start.after commands).apply c).events = []
  /-- A command that registers nothing reports no registration. -/
  unregistered : ∀ c, (∀ id, ((start.after commands).apply c).answer ≠ .ok (.mapped id)) →
    ∀ event ∈ ((start.after commands).apply c).events, event.isRegistration = false
  /-- A command that registers an attribute reports this, and what it takes over. -/
  registered : ∀ c id, (∀ d ∈ commands ++ [c], d.GivesFitting) →
    ((start.after commands).apply c).answer = .ok (.mapped id) →
      ∃ p e e' scope a before after replaced,
        (start.after commands).ShowsRegistration c id p e e' scope a before after replaced

/-- After every run, under either policy, what was reported accounts for what was done. -/
theorem events_account (collisions : NameCollision) (verifying : Bool) (commands : List Command) :
    (fresh collisions verifying).Accounted commands where
  stored x := (account_after (forest_fresh collisions verifying) commands x).symm
  failed c _ hfault := (step_apply _ c).events_eq_nil hfault
  unregistered _ hnone := events_of_not_mapped hnone
  registered c id hfits hanswer := by
    have f : Forest ((fresh collisions verifying).after commands) :=
      forest_after (forest_fresh collisions verifying) commands
    obtain ⟨p, e, scope, a, rfl, h⟩ := registers_of_mapped hanswer
    have hcat : e.PartsCatalogued := partsCatalogued_after collisions verifying
      (fun d hd b hb => (hfits d (List.mem_append_left _ hd) b hb).2) _ e h.entity
    have w : e.WellStored := wellStored_after_fitting collisions verifying
      (fun d hd b hb => (hfits d (List.mem_append_left _ hd) b hb).1) _ e h.entity
    have w' : (e.withAttribute scope a).WellStored := by
      refine wellStored_after_fitting collisions verifying
        (fun d hd b hb => (hfits d hd b hb).1) p.entity _ ?_
      rw [after_concat]
      exact h.entity?_after
    obtain ⟨before, after, replaced, hshows⟩ := h.showsRegistration f hcat w w'
    exact ⟨p, e, _, scope, a, before, after, replaced, hshows⟩

/-- One more street in the virtual composite that has three of them is reported as a replacement,
and another id comes in the place of one of the parts. -/
theorem events_account_streetsRun :
    let m := (fresh .replace true).after streetsRun
    let street : Command := .bindBasic { entity := ⟨0⟩, composite := some ⟨⟨0⟩, 4⟩ }
      ⟨"street", false⟩ [] {} .never
    (∀ d ∈ streetsRun ++ [street], d.GivesFitting) ∧
      (m.apply street).answer = .ok (.mapped ⟨⟨0⟩, 5⟩) ∧
      ((fresh .replace true).eventsOf streetsRun).filterMap (Event.storedOn? ⟨0⟩) = m.account ⟨0⟩ ∧
      ∃ path before after, (m.apply street).events =
          [.attributeReplaced ⟨0⟩ path, .attributeAdded ⟨0⟩ "street" .basic] ∧
        Reseats before after ⟨⟨0⟩, 5⟩ := by
  intro m street
  have hfits : ∀ d ∈ streetsRun ++ [street], d.GivesFitting := by
    rintro d hd a ⟨place, rfl⟩
    simp [streetsRun, street] at hd
  have haccounted : (fresh .replace true).Accounted streetsRun :=
    events_account .replace true streetsRun
  obtain ⟨p, e, e', scope, a, before, after, replaced, hshows⟩ :=
    haccounted.registered street ⟨⟨0⟩, 5⟩ hfits rfl
  have hevents := hshows.events
  have hlength : (m.apply street).events.length = 2 := rfl
  have hlast : (m.apply street).events.getLast? =
      some (.attributeAdded ⟨0⟩ "street" .basic) := rfl
  cases replaced with
  | none =>
    rw [hevents] at hlength
    cases hlength
  | some path =>
    obtain ⟨hentity, hname, hkind⟩ : p.entity = ⟨0⟩ ∧ a.name = "street" ∧ a.kind = .basic := by
      rw [hevents, List.getLast?_concat] at hlast
      simpa using hlast
    rw [hentity, hname, hkind] at hevents
    exact ⟨hfits, rfl, haccounted.stored ⟨0⟩, path, before, after, hevents,
      hshows.replaced_iff.mp rfl⟩

end Model

end RelationalMapping
