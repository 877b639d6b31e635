import RelationalMapping.Proofs.Access

/-!
A command that gives no answer leaves no trace: the model is what it was, and a run comes to the
same as the commands of it that were carried out (`after_carriedOut`). What a refusal leaves alone
is gathered in `RefusesCleanly`.

Registering an attribute and adding a child each take two writes. `registerInTurn` and
`addChildInTurn` make them one after the other, and where the second fails what the first one wrote
stays. It never does: all that the second relies on was looked at before the first
(`registerInTurn_eq`, `addChildInTurn_eq`).
-/

namespace RelationalMapping

/-- Enters a part at the position that the name has, which is taken to be among the parts. -/
def CompositeBody.enterPartAt (c : CompositeBody) (name : String) (id : AttributeId) :
    Answer CompositeBody :=
  match c.positions.find? name with
  | some i => do
      let _ ← Answer.atIndex c.partIds i
      return { c with partIds := c.partIds.set i id }
  | none =>
      return { c with
        partIds := c.partIds ++ [id]
        positions := c.positions.enter name c.partIds.length }

/-- Where the name leads to a part, or to none, there is a position to enter the next one at. -/
theorem CompositeBody.enterPartAt_eq {c : CompositeBody} {name : String} {part : Option AttributeId}
    (h : c.part? name = .ok part) (id : AttributeId) :
    c.enterPartAt name id = .ok (c.enterPart name id) := by
  unfold enterPartAt enterPart
  cases hi : c.positions.find? name with
  | none => rfl
  | some i =>
    simp only [part?, hi] at h
    cases hat : Answer.atIndex c.partIds i with
    | error fault =>
      rw [hat] at h
      cases h
    | ok found =>
      simp only [hat]
      rfl

namespace EntityMapping

variable {e : EntityMapping} {scope : Scope} {a : AttributeMapping}

/-- The scope gets to know an attribute that is stored already. -/
def list (e : EntityMapping) (scope : Scope) (a : AttributeMapping) : Answer EntityMapping :=
  match scope with
  | .entity => return { e with declared := e.declared.enter a.name a.id.index }
  | .composite i => do
      let b ← e.storedAt i
      match b.body with
      | .composite c =>
          let c ← c.enterPartAt a.name a.id
          return { e with store := e.store.set i { b with body := .composite c } }
      | _ => return e

/-- Registers an attribute in two writes, first in the store and then in the scope. -/
def registerInTurn (e : EntityMapping) (scope : Scope) (a : AttributeMapping) :
    Outcome EntityMapping AttributeId :=
  if a.id ≠ e.nextId then .refuse e (.breach (.misplacedAttribute a.id e.nextId))
  else
    match e.takenOver scope a.name with
    | .error fault => .refuse e fault
    | .ok replaced =>
        let stored := { e with store := e.store ++ [a] }
        let events := (replaced.map (Event.attributeReplaced e.id)).toList ++
          [.attributeAdded e.id a.name a.kind]
        match stored.list scope a with
        | .error fault => { state := stored, events, answer := .error fault }
        | .ok listed => { state := listed, events, answer := .ok a.id }

/-- A scope in which the name could be looked up gets to know what is stored. -/
theorem list_stored {replaced : Option String} (h : e.takenOver scope a.name = .ok replaced) :
    ({ e with store := e.store ++ [a] } : EntityMapping).list scope a =
      .ok (e.withAttribute scope a) := by
  cases scope with
  | entity => rfl
  | composite i =>
    obtain ⟨taken, hlists, _⟩ := Answer.bind_eq_ok_iff.mp h
    obtain ⟨b, hb, hbody⟩ := Answer.bind_eq_ok_iff.mp hlists
    obtain ⟨c, hc, hpart⟩ := Answer.bind_eq_ok_iff.mp hbody
    obtain ⟨part, hpart, _⟩ := Answer.bind_eq_ok_iff.mp hpart
    have hstored : (e.store ++ [a])[i]? = some b :=
      Model.getElem?_concat_eq_some_iff.mpr (.inl (Answer.atIndex_eq_ok_iff.mp hb))
    have hcomposite : b.body = .composite c :=
      AttributeMapping.composite?_eq_some_iff.mp (Answer.ofOption_eq_ok_iff.mp hc)
    have hat : (({ e with store := e.store ++ [a] } : EntityMapping).storedAt i) = .ok b :=
      Answer.atIndex_eq_ok_iff.mpr hstored
    have hmodify : (e.store ++ [a]).modify i (fun d => d.withPart a.name a.id) =
        (e.store ++ [a]).set i { b with body := .composite (c.enterPart a.name a.id) } := by
      rw [List.modify_eq_set_getElem?, hstored]
      simp [AttributeMapping.withPart, hcomposite]
    simp only [list, hat, withAttribute, hmodify]
    simp only [bind, Except.bind, hcomposite, CompositeBody.enterPartAt_eq hpart]
    rfl

/-- No failure comes between the two writes of a registration. -/
theorem registerInTurn_eq (e : EntityMapping) (scope : Scope) (a : AttributeMapping) :
    e.registerInTurn scope a = e.register scope a := by
  unfold registerInTurn register
  split
  · rfl
  · cases ht : e.takenOver scope a.name with
    | error fault => rfl
    | ok replaced =>
      simp only [list_stored ht]
      rfl

end EntityMapping

namespace Model

variable {m : Model} {c : Command} {fault : Fault}

/-- Adds a child in two writes, first the child itself and then its parent's list of children. -/
def addChildInTurn (m : Model) (parent : EntityId) : Outcome Model EntityId :=
  match m.checkParent parent with
  | .error fault => .refuse m fault
  | .ok hierarchy =>
      let wider := { m with entities := m.entities ++ [m.newChild parent hierarchy] }
      match wider.entity? parent with
      | none => { state := wider, events := [], answer := .error (.breach .unknownEntity) }
      | some e =>
          { state := wider.putEntity parent { e with children := e.children ++ [m.nextEntity] }
            events := [.childAdded m.nextEntity parent hierarchy]
            answer := .ok m.nextEntity }

/-- No failure comes between the child and its parent's list. -/
theorem addChildInTurn_eq (m : Model) (parent : EntityId) :
    m.addChildInTurn parent = m.addChild parent := by
  unfold addChildInTurn addChild
  cases hc : m.checkParent parent with
  | error fault => rfl
  | ok hierarchy =>
    obtain ⟨e, _, he, _⟩ := checkParent_eq_ok_iff.mp hc
    have hlt : parent.index < m.entities.length := index_lt_of_entity? (by simp [he])
    have hfound : ({ m with entities := m.entities ++ [m.newChild parent hierarchy] }
        : Model).entity? parent = some e :=
      getElem?_concat_eq_some_iff.mpr (.inl he)
    have hlisted : ∀ f : EntityMapping → EntityMapping,
        m.entities.modify parent.index f = m.entities.set parent.index (f e) := by
      intro f
      have hentity : m.entities[parent.index]? = some e := he
      rw [List.modify_eq_set_getElem?, hentity]
      rfl
    simp only [hfound, putEntity, hlisted, List.set_append_left _ _ hlt]
    rfl

theorem putEntity_self {x : EntityId} {e : EntityMapping} (he : m.entity? x = some e) :
    m.putEntity x e = m := by
  have hset : m.entities.set x.index e = m.entities := by
    obtain ⟨hlt, rfl⟩ := List.getElem?_eq_some_iff.mp he
    exact List.set_getElem_self hlt
  simp only [putEntity, hset]

theorem Step.state_eq {given : AttributeMapping → Prop} {o : Outcome Model Reply}
    (h : m.Step given o) (hfault : o.answer = .error fault) : o.state = m := by
  cases h with
  | refused fault => rfl
  | root inheritance mode => cases hfault
  | child parent k hparent =>
    simp only [addChild, hparent] at hfault
    cases hfault
  | settings events hentity hplace hstore hdeclared hcollisions => cases hfault
  | hierarchy hhierarchy change => cases hfault
  | binding hentity hbound =>
    cases hbound with
    | refused fault => exact putEntity_self hentity
    | enrolled scope replaced hid hmade htaken => cases hfault

/-- The commands that were carried out. -/
def carriedOut (m : Model) : List Command → List Command
  | [] => []
  | c :: rest =>
      match (m.apply c).answer with
      | .ok _ => c :: (m.apply c).state.carriedOut rest
      | .error _ => (m.apply c).state.carriedOut rest

theorem after_carriedOut (m : Model) (commands : List Command) :
    m.after (m.carriedOut commands) = m.after commands := by
  induction commands generalizing m with
  | nil => rfl
  | cons c rest ih =>
    rw [carriedOut]
    split
    · exact ih _
    · rename_i fault hfault
      have hstate : (m.apply c).state = m := (step_apply m c).state_eq hfault
      rw [after_cons, hstate]
      exact ih m

/-- What was carried out is carried out again when nothing else is asked for. -/
theorem answer_of_carriedOut {commands : List Command} {o : Outcome Model Reply}
    (ho : o ∈ m.outcomes (m.carriedOut commands)) : ∃ reply, o.answer = .ok reply := by
  induction commands generalizing m with
  | nil => cases ho
  | cons c rest ih =>
    rw [carriedOut] at ho
    split at ho
    · rename_i reply hreply
      rcases List.mem_cons.mp ho with rfl | ho
      · exact ⟨reply, hreply⟩
      · exact ih ho
    · rename_i fault hfault
      rw [(step_apply m c).state_eq hfault] at ho
      exact ih ho

/-- An operation at a place that does not open is refused for the reason that the place gives. -/
theorem onPlace_of_openPlace_error {α : Type} {p : Place}
    {f : EntityMapping → Scope → Outcome EntityMapping α} (h : m.openPlace p = .error fault) :
    m.onPlace p f = .refuse m fault := by
  unfold openPlace getEntity at h
  unfold onPlace onEntity
  cases he : m.entity? p.entity with
  | none =>
    rw [he] at h
    cases h
    rfl
  | some e =>
    rw [he] at h
    cases hs : e.openScope p.composite with
    | ok scope =>
      simp only [Answer.ofOption, bind, Except.bind, hs, pure, Except.pure] at h
      cases h
    | error reason =>
      simp only [Answer.ofOption, bind, Except.bind, hs] at h
      cases h
      simp only [hs, Outcome.refuse, Outcome.within, putEntity_self he]

/-- What is refused leaves no trace in the model. -/
structure RefusesCleanly (m : Model) : Prop where
  /-- A command that reports an inconsistency or breaks the terms leaves the model as it was, with
  all that it stores, lists and gives out next. -/
  command : ∀ c fault, (m.apply c).answer = .error fault → (m.apply c).state = m
  /-- So does a scope that does not open, whatever it was to be opened for. -/
  place : ∀ (α : Type) (p : Place) (f : EntityMapping → Scope → Outcome EntityMapping α) fault,
    m.openPlace p = .error fault → m.onPlace p f = .refuse m fault
  /-- No failure comes between the two writes of a registration. -/
  registration : ∀ (e : EntityMapping) scope a, e.registerInTurn scope a = e.register scope a
  /-- No failure comes between the two writes that add a child. -/
  child : ∀ parent, m.addChildInTurn parent = m.addChild parent
  /-- A run comes to the same without the commands that it refuses. -/
  run : ∀ commands, m.after (m.carriedOut commands) = m.after commands
  /-- A run of the others refuses none. -/
  carried : ∀ commands, ∀ o ∈ m.outcomes (m.carriedOut commands), ∃ reply, o.answer = .ok reply

/-- Whatever the model holds and whatever is asked of it, what is refused leaves no trace. -/
theorem refused_unchanged (m : Model) : m.RefusesCleanly where
  command c _ hfault := (step_apply m c).state_eq hfault
  place _ _ _ _ hfault := onPlace_of_openPlace_error hfault
  registration := EntityMapping.registerInTurn_eq
  child := m.addChildInTurn_eq
  run := after_carriedOut m
  carried _ _ ho := answer_of_carriedOut ho

/-- A name that is taken and a child of what is not there are refused. The model is what it was, and
a run that goes on to add a child comes to the same without them. -/
theorem refused_unchanged_takenName :
    let m := (fresh .reject true).after
      [.addRoot .none .object, .bindBasic { entity := ⟨0⟩ } ⟨"name", false⟩ [] {} .never]
    let again : Command := .bindBasic { entity := ⟨0⟩ } ⟨"name", false⟩ [] {} .never
    (∃ path, (m.apply again).answer = .error (.inconsistent (.nameTaken path))) ∧
      (m.apply again).state = m ∧
      (m.apply (.addChild ⟨7⟩)).answer = .error (.breach .unknownEntity) ∧
      (m.apply (.addChild ⟨7⟩)).state = m ∧
      m.after [.addChild ⟨7⟩, again, .addChild ⟨0⟩] = m.after [.addChild ⟨0⟩] := by
  intro m again
  have hclean : m.RefusesCleanly := refused_unchanged m
  have htaken : (m.apply again).answer = .error (.inconsistent (.nameTaken _)) := rfl
  have hmissing : (m.apply (.addChild ⟨7⟩)).answer = .error (.breach .unknownEntity) := rfl
  have hcarried : m.carriedOut [.addChild ⟨7⟩, again, .addChild ⟨0⟩] = [.addChild ⟨0⟩] := rfl
  exact ⟨⟨_, htaken⟩, hclean.command _ _ htaken, hmissing, hclean.command _ _ hmissing,
    hcarried ▸ (hclean.run _).symm⟩

end Model

end RelationalMapping
