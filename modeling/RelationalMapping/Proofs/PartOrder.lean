import RelationalMapping.Proofs.Footprint
import RelationalMapping.Proofs.ScopeNames

/-!
The parts of a composite, in their order. Parts of a virtual composite may share a name, so that
there are more parts than names, and each name stands for the first part that bears it, however many
parts came in or were replaced since.

* `FindsParts`: what a composite finds by name, told by its parts alone.
* `Registers.partIds`: what a registration in the scope of a composite does to the parts.
* `parts_in_order`: so it is with all composites of every run.
-/

namespace RelationalMapping

namespace EntityMapping

variable {e : EntityMapping} {i : Nat} {a : AttributeMapping} {c : CompositeBody}

/-! ## Finding a part -/

/-- The place of the first part of that name. -/
def firstPlace (e : EntityMapping) (c : CompositeBody) (name : String) : Option Nat :=
  c.partIds.findIdx? fun id => e.nameOf id == some name

/-- The composite that `e` stores at `i` finds the first part of each name. -/
structure FindsParts (e : EntityMapping) (i : Nat) (c : CompositeBody) : Prop where
  /-- The parts are attributes of the entity, which the scope lists in the order of the parts. -/
  listing : ∃ as, e.listing (.composite i) = .ok as ∧ as.map AttributeMapping.id = c.partIds
  span : e.scopeSpan (.composite i) = .ok c.partIds.length
  first : ∀ name id, c.part? name = .ok (some id) ↔
    ∃ before later, c.partIds = before ++ id :: later ∧ e.nameOf id = some name ∧
      ∀ other ∈ before, e.nameOf other ≠ some name
  missing : ∀ name, c.part? name = .ok none ↔ ∀ id ∈ c.partIds, e.nameOf id ≠ some name

theorem WellStored.findsParts (w : WellStored e) (h : PartsNamed e) (ha : e.store[i]? = some a)
    (hc : a.composite? = some c) : e.FindsParts i c := by
  obtain ⟨names, hn⟩ := h i a c ha hc
  have hopens : e.Opens (.composite i) := ⟨a, c, ha, hc⟩
  constructor
  case listing =>
    have hids := w.map_id_listing hopens
    obtain ⟨as, has⟩ := w.indexed.listing_eq_ok hopens
    rw [has] at hids
    simp only [idsIn, compositeAt_stored ha hc, Except.map] at hids
    exact ⟨as, has, Except.ok.inj hids⟩
  case span => simp only [scopeSpan, compositeAt_stored ha hc, Except.map]
  case first =>
    intro name id
    rw [hn.part?_eq, Except.ok.injEq, List.find?_eq_some_iff_append]
    constructor
    · rintro ⟨hid, before, later, hparts, hbefore⟩
      exact ⟨before, later, hparts, by simpa using hid, fun other ho => by
        simpa using hbefore other ho⟩
    · rintro ⟨before, later, hparts, hid, hbefore⟩
      exact ⟨by simpa using hid, before, later, hparts, fun other ho => by
        simpa using hbefore other ho⟩
  case missing =>
    intro name
    rw [hn.part?_eq, Except.ok.injEq, List.find?_eq_none]
    simp

/-! ## One more part -/

/-- A part comes in the place of the first part of its name, or else at the end. -/
theorem PartsNamed.partIds_enterPart (h : PartsNamed e) (ha : e.store[i]? = some a)
    (hc : a.composite? = some c) (name : String) (id : AttributeId) :
    (c.enterPart name id).partIds = Roster.putAt (e.firstPlace c name) id c.partIds := by
  obtain ⟨names, hn⟩ := h i a c ha hc
  obtain ⟨l, hl, _, hnamed⟩ := hn.exists_catalogued
  rw [(hl.enterPart name id).parts, Roster.map_snd_enterInto, Roster.idxOf?_eq_findIdx? hnamed,
    firstPlace, hl.parts]

/-- A virtual composite has the parts that it was made to group, and no more. -/
theorem partIds_virtualBody {composite : String} {parts : List AttributeId}
    {named : List (String × AttributeId)} (h : e.namedParts composite parts = .ok named)
    (remarks : Option Remarks) :
    (virtualBody named remarks).isVirtual = true ∧ (virtualBody named remarks).partIds = parts := by
  constructor
  · exact congrArg CompositeBody.isVirtual (CompositeBody.bare_foldl_appendPart named _)
  · rw [(catalogued_virtualBody named remarks).parts, (namedParts_eq_ok h).1]

end EntityMapping

namespace Model

variable {m : Model} {x : EntityId} {e : EntityMapping} {i : Nat} {a : AttributeMapping}
  {c : CompositeBody} {id : AttributeId}

/-- A registration in the scope of a composite is one more part of it. -/
theorem partIds_of_mapped {command : Command} {content : Content} (he : m.entity? x = some e)
    (h : e.PartsNamed) (ha : e.store[i]? = some a) (hc : a.composite? = some c)
    (hrequest : command.request? = some ({ entity := x, composite := some ⟨x, i⟩ }, content))
    (hanswer : (m.apply command).answer = .ok (.mapped id)) :
    ∃ e' a' c', (m.apply command).state.entity? x = some e' ∧ e'.store[i]? = some a' ∧
      a'.composite? = some c' ∧
      c'.partIds = Roster.putAt (e.firstPlace c content.name) id c.partIds := by
  obtain ⟨p, owner, scope, new, rfl, hreg⟩ := registers_of_mapped hanswer
  have hasked := hrequest.symm.trans hreg.asked.request
  cases hasked
  cases he.symm.trans hreg.entity
  obtain ⟨_, _, _, _, rfl⟩ := EntityMapping.openComposite_eq_ok_iff.mp hreg.opened
  refine ⟨e.withAttribute (.composite i) new, a.withPart new.name new.id,
    c.enterPart new.name new.id, ?_, ?_, ?_, h.partIds_enterPart ha hc new.name new.id⟩
  · rw [hreg.state, entity?_putEntity hreg.entity, if_pos rfl]
  · rw [EntityMapping.store_withAttribute_of_stored ha, if_pos rfl]
  · rw [AttributeMapping.composite?_withPart, hc, Option.map_some]

/-- What groups attributes begins with just those. -/
theorem partIds_of_bindVirtual {attr : SingleAttribute} {parts : List AttributeId}
    {remarks : Option Remarks}
    (hanswer : (m.apply (.bindVirtual x attr parts remarks)).answer = .ok (.mapped id)) :
    ∃ e a c, (m.apply (.bindVirtual x attr parts remarks)).state.entity? x = some e ∧
      e.store[id.index]? = some a ∧ a.composite? = some c ∧ c.isVirtual = true ∧
      c.partIds = parts := by
  obtain ⟨e, scope, a, ⟨named, hnamed, hbody⟩, rfl, he, hs, hnext, replaced, _,
      houtcome⟩ :=
    enrolled_onPlace (p := { entity := x }) (f := fun e _ => e.bindVirtual attr parts remarks)
      (P := fun e a => ∃ named, e.namedParts attr.name parts = .ok named ∧
        a.body = .composite (EntityMapping.virtualBody named remarks))
      rfl (fun e scope hs => by
        cases hs
        exact EntityMapping.enrols_bindVirtual fun named hn => ⟨named, hn, rfl⟩) hanswer
  have hindex : a.id.index = e.store.length := by rw [hnext]; rfl
  obtain ⟨hvirtual, hparts⟩ := EntityMapping.partIds_virtualBody hnamed remarks
  refine ⟨e.withAttribute scope a, a, _, ?_, ?_,
    AttributeMapping.composite?_eq_some_iff.mpr hbody, hvirtual, hparts⟩
  · rw [houtcome, Outcome.state_map, Outcome.state_within, entity?_putEntity he, if_pos rfl]
    rfl
  · rw [hindex]
    exact EntityMapping.store_withAttribute_last (EntityMapping.opens_of_openScope hs).ne_next

/-! ## Every run -/

/-- After every run in which no composite is handed in ready made, each composite, whether of its
own or virtual, finds the first part of each name and none under a name that no part has, and counts
all parts. A registration in its scope puts the new part in the place of the first part of that
name, and at the end if there is none. A virtual composite begins with the parts that it was made
to group, in the given order and as often as they were given. -/
theorem parts_in_order (collisions : NameCollision) (verifying : Bool) (commands : List Command)
    (hgiven : ∀ c ∈ commands, ∀ a, c.Gives a → a.composite? = none) :
    let m := (fresh collisions verifying).after commands
    (∀ x e i a c, m.entity? x = some e → e.store[i]? = some a → a.composite? = some c →
      e.FindsParts i c ∧
      ∀ command content id,
        command.request? = some ({ entity := x, composite := some ⟨x, i⟩ }, content) →
        (m.apply command).answer = .ok (.mapped id) →
        ∃ e' a' c', (m.apply command).state.entity? x = some e' ∧ e'.store[i]? = some a' ∧
          a'.composite? = some c' ∧
          c'.partIds = Roster.putAt (e.firstPlace c content.name) id c.partIds) ∧
    ∀ x attr parts remarks id,
      (m.apply (.bindVirtual x attr parts remarks)).answer = .ok (.mapped id) →
      ∃ e a c, (m.apply (.bindVirtual x attr parts remarks)).state.entity? x = some e ∧
        e.store[id.index]? = some a ∧ a.composite? = some c ∧ c.isVirtual = true ∧
        c.partIds = parts := by
  intro m
  refine ⟨fun x e i a c he ha hc => ?_, fun x attr parts remarks id => partIds_of_bindVirtual⟩
  have w : e.WellStored :=
    wellStored_after (wellStored_fresh collisions verifying) hgiven x e he
  have hnamed : e.PartsNamed := partsNamed_after collisions verifying hgiven x e he
  exact ⟨w.findsParts hnamed ha hc, fun command content id =>
    partIds_of_mapped he hnamed ha hc⟩

/-- Two components have a street each, and a virtual composite groups both streets and the first
one once more. -/
def streetsRun : List Command :=
  [.addRoot .none .object,
    .bindComponent { entity := ⟨0⟩ } ⟨"home", false⟩ none {},
    .bindComponent { entity := ⟨0⟩ } ⟨"work", false⟩ none {},
    .bindBasic { entity := ⟨0⟩, composite := some ⟨⟨0⟩, 0⟩ } ⟨"street", false⟩ [] {} .never,
    .bindBasic { entity := ⟨0⟩, composite := some ⟨⟨0⟩, 1⟩ } ⟨"street", false⟩ [] {} .never,
    .bindVirtual ⟨0⟩ ⟨"key", true⟩ [⟨⟨0⟩, 2⟩, ⟨⟨0⟩, 3⟩, ⟨⟨0⟩, 2⟩] none]

/-- One more street comes in the place of the first one alone. -/
theorem parts_in_order_streetsRun :
    let m := (fresh .replace true).after streetsRun
    let street : Command := .bindBasic { entity := ⟨0⟩, composite := some ⟨⟨0⟩, 4⟩ }
      ⟨"street", false⟩ [] {} .never
    (∀ c ∈ streetsRun, ∀ a, c.Gives a → a.composite? = none) ∧
      (m.apply street).answer = .ok (.mapped ⟨⟨0⟩, 5⟩) ∧
      ∃ e a c e' a' c', m.entity? ⟨0⟩ = some e ∧ e.store[4]? = some a ∧ a.composite? = some c ∧
        c.partIds = [⟨⟨0⟩, 2⟩, ⟨⟨0⟩, 3⟩, ⟨⟨0⟩, 2⟩] ∧ e.FindsParts 4 c ∧
        (m.apply street).state.entity? ⟨0⟩ = some e' ∧ e'.store[4]? = some a' ∧
        a'.composite? = some c' ∧ c'.partIds = [⟨⟨0⟩, 5⟩, ⟨⟨0⟩, 3⟩, ⟨⟨0⟩, 2⟩] := by
  intro m street
  have hgiven : ∀ c ∈ streetsRun, ∀ a, c.Gives a → a.composite? = none := by
    rintro c hc a ⟨place, rfl⟩
    simp [streetsRun] at hc
  obtain ⟨hfinds, hregistered⟩ :=
    (parts_in_order .replace true streetsRun hgiven).1 ⟨0⟩ _ 4 _ _ rfl rfl rfl
  obtain ⟨e', a', c', he', ha', hc', hparts⟩ := hregistered street _ ⟨⟨0⟩, 5⟩ rfl rfl
  exact ⟨hgiven, rfl, _, _, _, e', a', c', rfl, rfl, rfl, rfl, hfinds, he', ha', hc', hparts⟩

end Model

end RelationalMapping
