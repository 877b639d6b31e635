import RelationalMapping.Proofs.OrderedScopes

/-!
Ids stand for what they were given out for. An attribute that was registered is found under its id
after any further commands, also when another one has taken its name or that of the composite around
it: all that may change is the parts of a composite, and these grow by just what is registered in
its own scope (`attribute?_after`). An entity keeps its place in its tree (`stays_after`).
-/

namespace RelationalMapping

/-- The scope of the composite with that id. -/
def AttributeId.place (id : AttributeId) : Place := { entity := id.entity, composite := some id }

namespace AttributeMapping

/-- The attribute after registrations in its scope; without parts there is no such scope. -/
def withParts (a : AttributeMapping) (h : List Registration) : AttributeMapping :=
  h.foldl (fun a r => a.withPart r.name r.id) a

variable {a : AttributeMapping} (h : List Registration)

@[simp] theorem withParts_nil (a : AttributeMapping) : a.withParts [] = a := rfl

theorem withParts_append (a : AttributeMapping) (first second : List Registration) :
    a.withParts (first ++ second) = (a.withParts first).withParts second :=
  List.foldl_append

@[simp] theorem id_withParts (a : AttributeMapping) : (a.withParts h).id = a.id := by
  induction h generalizing a with
  | nil => rfl
  | cons r rest ih => exact (ih (a.withPart r.name r.id)).trans (a.id_withPart r.name r.id)

/-- The parts are no content of the composite. -/
@[simp] theorem content_withParts (a : AttributeMapping) : (a.withParts h).content = a.content := by
  induction h generalizing a with
  | nil => rfl
  | cons r rest ih => exact (ih (a.withPart r.name r.id)).trans (a.content_withPart r.name r.id)

theorem withParts_of_not_composite (ha : a.composite? = none) : a.withParts h = a := by
  induction h with
  | nil => rfl
  | cons r rest ih =>
    have hr : a.withPart r.name r.id = a := by
      obtain ⟨id, name, body⟩ := a
      cases body with
      | composite c => cases ha
      | _ => rfl
    rw [withParts, List.foldl_cons, hr]
    exact ih

end AttributeMapping

theorem history_append (first second : List (Command × AttributeId)) (p : Place) :
    history (first ++ second) p = history first p ++ history second p :=
  List.filterMap_append

/-- The entity that a command makes the parent of the one that it adds. -/
def Command.parent? : Command → Option EntityId
  | .addChild parent => some parent
  | _ => none

/-- The same entity later on has the same place in its tree. -/
structure EntityMapping.Stays (e e' : EntityMapping) : Prop where
  id : e'.id = e.id
  parent : e'.parent = e.parent
  hierarchy : e'.hierarchy = e.hierarchy

theorem EntityMapping.Stays.refl (e : EntityMapping) : e.Stays e := ⟨rfl, rfl, rfl⟩

theorem EntityMapping.Stays.trans {e e' e'' : EntityMapping} (h : e.Stays e')
    (h' : e'.Stays e'') : e.Stays e'' :=
  ⟨h'.id.trans h.id, h'.parent.trans h.parent, h'.hierarchy.trans h.hierarchy⟩

theorem EntityMapping.SamePlace.stays {e e' : EntityMapping} (h : e.SamePlace e') : e.Stays e' :=
  ⟨h.id, h.parent, h.hierarchy⟩

namespace Model

variable {m : Model} {c : Command} {id : AttributeId} {a b : AttributeMapping} {x : EntityId}
  {e : EntityMapping} {scope : Scope} {p : Place}

/-! ## Attributes -/

/-- In a forest an attribute is asked for by its id just where it is stored. -/
theorem Forest.getAttribute_eq_ok_iff (f : Forest m) :
    m.getAttribute id = .ok a ↔ m.attribute? id = some a := by
  simp only [getAttribute, getEntity, Answer.bind_eq_ok_iff, Answer.ofOption_eq_ok_iff,
    EntityMapping.getAttribute_eq_ok_iff, attribute?_eq_some_iff]
  constructor
  · rintro ⟨e, he, _, ha⟩
    exact ⟨e, he, ha⟩
  · rintro ⟨e, he, ha⟩
    exact ⟨e, he, (f.entity_id he).symm, ha⟩

/-- A composite gets a part from what is registered at its own place, and from nothing else. -/
theorem Registers.attribute?_of_stored (f : Forest m) (h : m.Registers c p e scope b)
    (ha : m.attribute? id = some a) :
    (m.apply c).state.attribute? id =
      some (a.withParts (if p = id.place then [b.registration] else [])) := by
  obtain ⟨e₁, he₁, hstored⟩ := attribute?_eq_some_iff.mp ha
  by_cases hx : id.entity = p.entity
  · rw [hx, h.entity] at he₁
    cases he₁
    have hp : p = id.place ↔ scope = .composite id.index := by
      constructor
      · intro hp
        have hopened : e.openScope (some id) = .ok scope := by
          have hcomposite : p.composite = some id := by rw [hp]; rfl
          exact hcomposite ▸ h.opened
        obtain ⟨_, _, _, _, hscope⟩ := EntityMapping.openComposite_eq_ok_iff.mp hopened
        exact hscope.symm
      · rintro rfl
        obtain ⟨y, composite⟩ := p
        obtain ⟨z, i⟩ := id
        cases hx
        have hcomposite : composite = some ⟨e.id, i⟩ :=
          EntityMapping.composite_of_openScope h.opened
        rw [hcomposite, f.entity_id h.entity]
        rfl
    have hafter := EntityMapping.store_withAttribute_of_stored hstored scope b
    rw [h.state, attribute?, entity?_putEntity h.entity, if_pos hx, Option.bind_some, hafter]
    by_cases hscope : scope = .composite id.index
    · rw [if_pos hscope, if_pos (hp.mpr hscope)]
      rfl
    · rw [if_neg hscope, if_neg (fun heq => hscope (hp.mp heq)), AttributeMapping.withParts_nil]
  · have hp : p ≠ id.place := fun heq => hx (by rw [heq]; rfl)
    rw [if_neg hp, AttributeMapping.withParts_nil, h.state, attribute?, entity?_putEntity h.entity,
      if_neg hx]
    exact ha

/-- The new attribute is found under its id as it was made. -/
theorem Registers.attribute?_new (f : Forest m) (h : m.Registers c p e scope b) :
    (m.apply c).state.attribute? b.id = some b := by
  have hid : b.id = ⟨p.entity, e.store.length⟩ := id_eq_of_nextId (f.entity_id h.entity) h.id
  have hscope : scope ≠ .composite e.store.length :=
    (EntityMapping.opens_of_openScope h.opened).ne_next
  have hlast : (e.withAttribute scope b).store[e.store.length]? = some b :=
    EntityMapping.store_withAttribute_last hscope
  rw [h.state, hid, attribute?, entity?_putEntity h.entity, if_pos rfl, Option.bind_some, hlast]

theorem attribute?_step (f : Forest m) (c : Command) (ha : m.attribute? id = some a) :
    (m.apply c).state.attribute? id =
      some (a.withParts (history (m.log [c]) id.place)) := by
  rw [log_cons, log_nil, List.append_nil]
  cases hid : (m.apply c).answer.mapped? with
  | some made =>
    obtain ⟨p, e, scope, b, rfl, h⟩ := registers_of_mapped (Answer.mapped?_eq_some_iff.mp hid)
    have hhistory : history ([] ++ [(c, b.id)]) id.place =
        if p = id.place then [b.registration] else [] :=
      history_registers h id.place
    rw [Option.map_some, Option.toList_some, ← List.nil_append [(c, b.id)], hhistory]
    exact h.attribute?_of_stored f ha
  | none =>
    rw [Option.map_none, Option.toList_none]
    cases step_stores (step_apply m c) with
    | kept hsame _ => exact (hsame.attribute?_eq id).trans ha
    | enrolled _ _ _ _ _ hanswer =>
      rw [Answer.mapped?_eq_some_iff.mpr hanswer] at hid
      cases hid

/-- An attribute stays where it is, with the parts that were registered in its own scope since. -/
theorem attribute?_after (f : Forest m) (later : List Command) (ha : m.attribute? id = some a) :
    (m.after later).attribute? id = some (a.withParts (history (m.log later) id.place)) := by
  induction later generalizing m a with
  | nil => exact ha
  | cons c rest ih =>
    have hlog : m.log (c :: rest) = m.log [c] ++ (m.apply c).state.log rest :=
      log_append m [c] rest
    rw [hlog, history_append, AttributeMapping.withParts_append]
    exact ih (forest_step f (step_apply m c)) (attribute?_step f c ha)

/-! ## Entities -/

theorem stays_step {given : AttributeMapping → Prop} {o : Outcome Model Reply}
    (h : m.Step given o) (he : m.entity? x = some e) :
    ∃ e', o.state.entity? x = some e' ∧ e.Stays e' := by
  have hput : ∀ {y : EntityId} {d d' : EntityMapping}, m.entity? y = some d → d.SamePlace d' →
      ∃ e', (m.putEntity y d').entity? x = some e' ∧ e.Stays e' := by
    intro y d d' hd hplace
    obtain ⟨e', he', hsame⟩ := (alike_putEntity hd hplace).entity_forth he
    exact ⟨e', he', hsame.stays⟩
  cases h with
  | refused fault => exact ⟨e, he, .refl e⟩
  | root inheritance mode => exact ⟨e, entity?_addRoot_iff.mpr (.inl he), .refl e⟩
  | child parent k hparent =>
    refine ⟨_, (entity?_addChild_iff hparent).mpr (.inl ⟨e, he, rfl⟩), ?_⟩
    unfold afterChild
    split <;> exact ⟨rfl, rfl, rfl⟩
  | settings events hentity hplace hstore hdeclared => exact hput hentity hplace
  | hierarchy hhierarchy change => exact ⟨e, he, .refl e⟩
  | binding hentity hbound => exact hput hentity hbound.samePlace

theorem stays_after (commands : List Command) (he : m.entity? x = some e) :
    ∃ e', (m.after commands).entity? x = some e' ∧ e.Stays e' := by
  refine after_induction (P := fun n => ∃ e', n.entity? x = some e' ∧ e.Stays e')
    ⟨e, he, .refl e⟩ fun _ _ n o ⟨e', he', hstays⟩ hstep => ?_
  obtain ⟨e'', he'', hstays'⟩ := stays_step hstep he'
  exact ⟨e'', he'', hstays.trans hstays'⟩

/-- What answers an entity has added it, below the parent that the command names. -/
theorem added_of_answer (h : (m.apply c).answer = .ok (.entity x)) :
    m.entity? x = none ∧ ∃ e, (m.apply c).state.entity? x = some e ∧ e.parent = c.parent? := by
  have hnone : ∀ {α : Type} {o : Outcome Model α} {reply : α → Reply},
      (∀ r, reply r ≠ .entity x) → (o.map reply).answer ≠ .ok (.entity x) := by
    intro α o reply hreply hanswer
    rw [Outcome.answer_map] at hanswer
    cases ho : o.answer with
    | error fault => rw [ho] at hanswer; cases hanswer
    | ok r => rw [ho] at hanswer; exact hreply r (Except.ok.inj hanswer)
  cases c with
  | addRoot inheritance mode =>
    cases h
    exact ⟨entity?_nextEntity m, m.newRoot, entity?_addRoot_iff.mpr (.inr ⟨rfl, rfl⟩), rfl⟩
  | addChild parent =>
    cases hp : m.checkParent parent with
    | error fault =>
      simp only [apply, addChild, hp] at h
      cases h
    | ok k =>
      simp only [apply, addChild, hp] at h
      cases h
      exact ⟨entity?_nextEntity m, m.newChild parent k,
        (entity?_addChild_iff hp).mpr (.inr ⟨rfl, rfl⟩), rfl⟩
  | _ => exact absurd h (hnone (by simp))

/-! ## Every run -/

/-- An id that a command of a run answers was not given out before, and whatever the run goes on
with, it still leads to what was made then. An attribute is the one that the command asked for, and
it never changes but for the parts of a composite, which are those that were registered in its own
scope since. An entity is where it was put in its tree. -/
theorem ids_permanent (collisions : NameCollision) (verifying : Bool) (before : List Command)
    (c : Command) (later : List Command) :
    let m := (fresh collisions verifying).after before
    let made := (m.apply c).state
    let last := made.after later
    (∀ id, (m.apply c).answer = .ok (.mapped id) →
      id ∉ ((fresh collisions verifying).log before).map Prod.snd ∧
      ∃ p a b, Asked c p a ∧ id.entity = p.entity ∧ made.getAttribute id = .ok a ∧
        last.getAttribute id = .ok b ∧ b = a.withParts (history (made.log later) id.place) ∧
        b.id = id ∧ b.content = a.content ∧ (a.composite? = none → b = a)) ∧
    ∀ x, (m.apply c).answer = .ok (.entity x) →
      m.entity? x = none ∧
      ∃ e e', made.getEntity x = .ok e ∧ last.getEntity x = .ok e' ∧ e.parent = c.parent? ∧
        e'.id = x ∧ e.Stays e' := by
  intro m made last
  have f : Forest m := forest_after (forest_fresh collisions verifying) before
  have fmade : Forest made := forest_step f (step_apply m c)
  have flast : Forest last := forest_after fmade later
  refine ⟨fun id hid => ?_, fun x hx => ?_⟩
  · obtain ⟨p, e, scope, a, rfl, h⟩ := registers_of_mapped hid
    have ha : made.attribute? a.id = some a := h.attribute?_new f
    refine ⟨fun hmem => ?_, p, a, _, h.asked, ?_, fmade.getAttribute_eq_ok_iff.mpr ha,
      flast.getAttribute_eq_ok_iff.mpr (attribute?_after fmade later ha), rfl, by simp, by simp,
      fun hbare => a.withParts_of_not_composite _ hbare⟩
    · -- what was given out before is stored, and there is nothing under the next id
      obtain ⟨entry, hentry, heq⟩ := List.mem_map.mp hmem
      have hsome := (recorded_after collisions verifying before).stored entry hentry
      rw [heq, attribute?_nextId h.entity (f.entity_id h.entity) h.id] at hsome
      cases hsome
    · rw [id_eq_of_nextId (f.entity_id h.entity) h.id]
  · obtain ⟨hnone, e, he, hparent⟩ := added_of_answer hx
    obtain ⟨e', he', hstays⟩ := stays_after later he
    exact ⟨hnone, e, e', Answer.ofOption_eq_ok_iff.mpr he, Answer.ofOption_eq_ok_iff.mpr he',
      hparent, flast.entity_id he', hstays⟩

/-- A composite loses its name to another attribute between the registrations of its parts. -/
theorem ids_permanent_renamedComposite :
    let m := (fresh .replace true).after [.addRoot .none .object]
    let bindName : Command := .bindComponent { entity := ⟨0⟩ } ⟨"name", false⟩ none {}
    let inside : Place := { entity := ⟨0⟩, composite := some ⟨⟨0⟩, 0⟩ }
    (m.apply bindName).answer = .ok (.mapped ⟨⟨0⟩, 0⟩) ∧
      ∃ b, (m.after [bindName, .bindBasic inside ⟨"first", false⟩ [] {} .never,
          .bindBasic { entity := ⟨0⟩ } ⟨"name", false⟩ [] {} .never,
          .bindBasic inside ⟨"last", false⟩ [] {} .never]).getAttribute ⟨⟨0⟩, 0⟩ = .ok b ∧
        b.name = "name" ∧ b.partIds = [⟨⟨0⟩, 1⟩, ⟨⟨0⟩, 3⟩] := by
  intro m bindName inside
  have hanswer : (m.apply bindName).answer = .ok (.mapped ⟨⟨0⟩, 0⟩) := by rfl
  refine ⟨hanswer, ?_⟩
  obtain ⟨_, p, a, b, hasked, _, hmade, hlast, hparts, _, hcontent, _⟩ :=
    (ids_permanent .replace true [.addRoot .none .object] bindName
      [.bindBasic inside ⟨"first", false⟩ [] {} .never,
        .bindBasic { entity := ⟨0⟩ } ⟨"name", false⟩ [] {} .never,
        .bindBasic inside ⟨"last", false⟩ [] {} .never]).1 ⟨⟨0⟩, 0⟩ hanswer
  refine ⟨b, hlast, ?_, ?_⟩
  · have hname : a.name = "name" := by
      cases hmade
      rfl
    rw [← hname]
    exact congrArg Content.name hcontent
  · cases hmade
    rw [hparts]
    rfl

end Model

end RelationalMapping
