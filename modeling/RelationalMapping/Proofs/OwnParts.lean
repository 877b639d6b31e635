import RelationalMapping.Proofs.Permanence
import RelationalMapping.Proofs.Verified

/-!
A part of a composite is looked up in two ways. The model follows the whole id, to the entity that
it names; the scope of the composite takes the position alone and looks in its own entity. A part of
another entity, which only a ready-made composite can have, is one attribute to the model and
another one, or none, to the scope. Verification asks the model.

* `readAlike_iff`: the two ways agree where all parts belong to the entity, and only there.
* `verified_readAlike_iff`: so it is in every verified model that commands have built, and no part
  is a stranger unless it was handed in as one.
* `misread_borrowedAddress`: a verified model in which the two ways lead to different attributes.
-/

namespace RelationalMapping

/-! ## The parts of one entity -/

namespace EntityMapping

variable {e : EntityMapping} {scope : Scope} {a : AttributeMapping}

/-- The parts of all that the entity stores are attributes of its own. -/
def OwnParts (e : EntityMapping) : Prop :=
  ∀ (i : Nat) (a : AttributeMapping), e.store[i]? = some a → ∀ id ∈ a.partIds, id.entity = e.id

theorem OwnParts.of_empty (hs : e.store = []) : OwnParts e := by
  intro i a ha
  simp [hs] at ha

theorem OwnParts.congr (o : OwnParts e) {e' : EntityMapping} (h : e.SameStore e') :
    OwnParts e' := by
  intro i a ha
  rw [h.id]
  exact o i a (h.store ▸ ha)

/-- What the binding operations build groups attributes of the entity, if it groups any. -/
theorem Builds.own_parts (h : e.Builds scope a) : ∀ id ∈ a.partIds, id.entity = e.id := by
  intro id hid
  obtain ⟨c, hc⟩ := AttributeMapping.composite_of_mem_partIds hid
  rw [AttributeMapping.partIds_eq_of_composite? hc] at hid
  exact ((h.fits c hc).parts id hid).1

theorem OwnParts.withAttribute (o : OwnParts e) (hid : a.id = e.nextId)
    (hown : ∀ id ∈ a.partIds, id.entity = e.id) : OwnParts (e.withAttribute scope a) := by
  intro i b hb id hmem
  rw [id_withAttribute]
  obtain ⟨before, hbefore, hpart⟩ := stored_withAttribute hb
  have hold : ∀ id ∈ before.partIds, id.entity = e.id := by
    rcases hbefore with hbefore | ⟨_, rfl⟩
    · exact o i before hbefore
    · exact hown
  rcases hpart with rfl | ⟨_, rfl⟩
  · exact hold id hmem
  · rcases AttributeMapping.mem_partIds_withPart hmem with hmem | rfl
    · exact hold id hmem
    · rw [hid]
      rfl

end EntityMapping

/-- Where every result leads back to its item, the results lead back to the list. -/
theorem Answer.map_of_mapM_eq_ok {α β : Type} {f : α → Answer β} {g : β → α}
    (h : ∀ a b, f a = .ok b → g b = a) {as : List α} {bs : List β} (hall : as.mapM f = .ok bs) :
    bs.map g = as := by
  induction as generalizing bs with
  | nil =>
    cases hall
    rfl
  | cons a rest ih =>
    rw [List.mapM_cons] at hall
    obtain ⟨b, hb, hrest⟩ := Answer.bind_eq_ok_iff.mp hall
    obtain ⟨more, hmore, hcons⟩ := Answer.bind_eq_ok_iff.mp hrest
    cases hcons
    rw [List.map_cons, h a b hb, ih hmore]

namespace Model

variable {m : Model} {x : EntityId} {e : EntityMapping} {i : Nat} {a : AttributeMapping}
  {c : CompositeBody}

/-! ## Two ways to a part -/

/-- The part of that name, where its id leads. -/
def partNamed (m : Model) (c : CompositeBody) (name : String) :
    Answer (Option AttributeMapping) := do
  match ← c.part? name with
  | none => return none
  | some id => return some (← m.getAttribute id)

/-- The scope of the composite that `e` stores at `i` lists and finds the attributes that the ids of
the parts lead to. -/
structure ReadAlike (m : Model) (e : EntityMapping) (i : Nat) (c : CompositeBody) : Prop where
  listing : ∃ parts, c.partIds.mapM m.getAttribute = .ok parts ∧
    e.listing (.composite i) = .ok parts
  locate : ∀ name, e.locate (.composite i) name = m.partNamed c name

theorem Indexed.id_of_attribute? (w : Indexed m) (f : Forest m) {id : AttributeId}
    (ha : m.attribute? id = some a) : a.id = id := by
  obtain ⟨e, he, hstored⟩ := attribute?_eq_some_iff.mp ha
  rw [(w id.entity e he).id_eq hstored, f.entity_id he]

/-- Where the ids of the parts lead somewhere, the scope leads there too if all of them are
attributes of its entity, and only then. -/
theorem readAlike_iff (f : Forest m) (w : Indexed m) (he : m.entity? x = some e)
    (ha : e.store[i]? = some a) (hc : a.composite? = some c)
    (hfound : ∀ id ∈ c.partIds, (m.attribute? id).isSome) :
    m.ReadAlike e i c ↔ ∀ id ∈ c.partIds, id.entity = x := by
  constructor
  · rintro ⟨⟨parts, hparts, hlisting⟩, _⟩ id hid
    have hids : parts.map AttributeMapping.id = c.partIds :=
      Answer.map_of_mapM_eq_ok (fun _ _ h => w.id_of_attribute? f (f.getAttribute_eq_ok_iff.mp h))
        hparts
    rw [← hids] at hid
    obtain ⟨b, hb, rfl⟩ := List.mem_map.mp hid
    -- what the scope lists is stored by its entity
    rw [EntityMapping.listing_composite ha hc] at hlisting
    rw [← Except.ok.inj hlisting] at hb
    obtain ⟨id, _, hstored⟩ := List.mem_filterMap.mp hb
    rw [(w x e he).id_eq hstored, f.entity_id he]
  · intro hown
    have hsame : ∀ id ∈ c.partIds, ∃ b, m.getAttribute id = .ok b ∧
        e.store[id.index]? = some b := by
      intro id hid
      obtain ⟨b, hb⟩ := Option.isSome_iff_exists.mp (hfound id hid)
      refine ⟨b, f.getAttribute_eq_ok_iff.mpr hb, ?_⟩
      obtain ⟨owner, howner, hstored⟩ := attribute?_eq_some_iff.mp hb
      rw [hown id hid, he] at howner
      cases howner
      exact hstored
    refine ⟨⟨_, ?_, EntityMapping.listing_composite ha hc⟩, fun name => ?_⟩
    · rw [← Answer.mapM_eq_ok_filterMap (k := fun id => id) hsame, List.map_id']
    · rw [EntityMapping.locate_composite ha hc, partNamed]
      cases hpart : c.part? name with
      | error fault => rfl
      | ok part =>
        cases part with
        | none => rfl
        | some id =>
          obtain ⟨b, hb, hstored⟩ := hsame id (CompositeBody.mem_partIds_of_part? hpart)
          simp only [Except.map, Option.bind_some, hstored, bind, Except.bind, hb]
          rfl

/-! ## Every run -/

theorem ownParts_after (collisions : NameCollision) (verifying : Bool) {commands : List Command}
    (hown : ∀ command ∈ commands, ∀ a, command.Gives a → ∀ id ∈ a.partIds,
      id.entity = a.id.entity) :
    ∀ x e, ((fresh collisions verifying).after commands).entity? x = some e → e.OwnParts := by
  refine forall_entities_after (fun _ _ h o => o.congr h) (fun _ hs _ _ => .of_empty hs) ?_
    (by simp [fresh, entity?])
  intro command hc e scope a _ o hid hmade _
  refine o.withAttribute hid ?_
  rcases hmade with hmade | hgiven
  · exact hmade.own_parts
  · intro id hmem
    rw [hown command hc a hgiven id hmem, hid]
    rfl

/-- In every verified model that commands have built, a composite that is reached is read alike in
its scope and in the model exactly if all of its parts are attributes of its own entity. So it is
with every one of them if no ready-made composite came in with a part of another entity. -/
theorem verified_readAlike_iff (collisions : NameCollision) (verifying : Bool)
    (commands : List Command)
    (hv : ((fresh collisions verifying).after commands).verify = .ok ()) :
    let m := (fresh collisions verifying).after commands
    (∀ x e i a c, m.entity? x = some e → m.Reaches e a → e.store[i]? = some a →
      a.composite? = some c → (m.ReadAlike e i c ↔ ∀ id ∈ c.partIds, id.entity = x)) ∧
    ((∀ command ∈ commands, ∀ a, command.Gives a → ∀ id ∈ a.partIds, id.entity = a.id.entity) →
      ∀ x e i a c, m.entity? x = some e → m.Reaches e a → e.store[i]? = some a →
        a.composite? = some c → m.ReadAlike e i c) := by
  intro m
  have f : Forest m := forest_after (forest_fresh collisions verifying) commands
  have w : Indexed m := indexed_after collisions verifying commands
  have hiff : ∀ x e i a c, m.entity? x = some e → m.Reaches e a → e.store[i]? = some a →
      a.composite? = some c → (m.ReadAlike e i c ↔ ∀ id ∈ c.partIds, id.entity = x) := by
    intro x e i a c he hr ha hc
    have hholds : m.Holds a := (Coherent.of_verifyWithin hv).attributes e (mem_of_entity? he) a hr
    rw [holds_composite_iff hc, AttributeMapping.partIds_eq_of_composite? hc] at hholds
    exact readAlike_iff f w he ha hc hholds
  refine ⟨hiff, fun hown x e i a c he hr ha hc => (hiff x e i a c he hr ha hc).mpr ?_⟩
  intro id hid
  rw [← AttributeMapping.partIds_eq_of_composite? hc] at hid
  rw [ownParts_after collisions verifying hown x e he i a ha id hid, f.entity_id he]

/-- The address of the first entity, handed in under another id. -/
def copiedAddress (id : AttributeId) : AttributeMapping :=
  { id
    name := "address"
    body := .composite (CompositeBody.enterPart
      { synthetic := false, options := {}, parentReference := none, isVirtual := false }
      "street" ⟨⟨0⟩, 1⟩) }

/-- An entity gets an address with a street. A copy of the address comes in ready made, to that
entity or to the other one, which then gets a note. -/
def copiedAddressRun (id : AttributeId) : List Command :=
  [.addRoot .joined .object, .addRoot .joined .object,
    .bindComponent { entity := ⟨0⟩ } ⟨"address", false⟩ none {},
    .bindBasic { entity := ⟨0⟩, composite := some ⟨⟨0⟩, 0⟩ } ⟨"street", false⟩ [] {} .never,
    .register { entity := id.entity } (copiedAddress id),
    .bindBasic { entity := ⟨1⟩ } ⟨"note", false⟩ [] {} .never]

/-- A copy on the entity itself is read alike. -/
theorem verified_readAlike_iff_ownAddress :
    let m := (fresh .replace true).after (copiedAddressRun ⟨⟨0⟩, 2⟩)
    m.verify = .ok () ∧ ∃ e a c, m.entity? ⟨0⟩ = some e ∧ m.Reaches e a ∧
      e.store[2]? = some a ∧ a.composite? = some c ∧ m.ReadAlike e 2 c := by
  intro m
  have hown : ∀ command ∈ copiedAddressRun ⟨⟨0⟩, 2⟩, ∀ a, command.Gives a →
      ∀ id ∈ a.partIds, id.entity = a.id.entity := by
    intro command hc a ⟨place, hgives⟩
    subst hgives
    simp only [copiedAddressRun, List.mem_cons, reduceCtorEq, Command.register.injEq,
      List.not_mem_nil, or_false, false_or] at hc
    obtain ⟨_, rfl⟩ := hc
    decide
  obtain ⟨_, halike⟩ := verified_readAlike_iff .replace true (copiedAddressRun ⟨⟨0⟩, 2⟩) rfl
  refine ⟨rfl, _, copiedAddress ⟨⟨0⟩, 2⟩, _, rfl, ?_, rfl, rfl,
    halike hown ⟨0⟩ _ 2 _ _ rfl ?_ rfl rfl⟩
  all_goals exact .declared (i := 2) (by decide) rfl

/-- A copy on the other entity is verified, and the scope takes its note for the street. -/
theorem misread_borrowedAddress :
    let m := (fresh .replace true).after (copiedAddressRun ⟨⟨1⟩, 0⟩)
    (m.attribute? ⟨⟨0⟩, 0⟩).map (fun a => { a with id := ⟨⟨1⟩, 0⟩ }) =
        some (copiedAddress ⟨⟨1⟩, 0⟩) ∧
      m.verify = .ok () ∧ ∃ e a c, m.entity? ⟨1⟩ = some e ∧ m.Reaches e a ∧
        e.store[0]? = some a ∧ a.composite? = some c ∧
        (c.partIds.mapM m.getAttribute).map (List.map AttributeMapping.name) = .ok ["street"] ∧
        (e.listing (.composite 0)).map (List.map AttributeMapping.name) = .ok ["note"] ∧
        ¬ m.ReadAlike e 0 c := by
  intro m
  refine ⟨rfl, rfl, _, copiedAddress ⟨⟨1⟩, 0⟩, _, rfl, .declared (i := 0) (by decide) rfl, rfl, rfl,
    rfl, rfl, fun h => ?_⟩
  obtain ⟨parts, hparts, hlisting⟩ := h.listing
  have hnames : Except.ok ["street"] = (Except.ok ["note"] : Answer (List String)) :=
    calc (Except.ok ["street"] : Answer (List String))
        = (Except.ok parts).map (List.map AttributeMapping.name) := by rw [← hparts]; rfl
      _ = .ok ["note"] := by rw [← hlisting]; rfl
  exact absurd (Except.ok.inj hnames) (by decide)

end Model

end RelationalMapping
