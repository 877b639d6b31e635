import RelationalMapping.Proofs.Refusal

/-!
Operations on different entities do not get in each other's way. A command on an entity is a
function of that entity alone (`Command.localTo`): it reads nothing of any other, whatever ids it
names, and it writes nothing else. So two commands on different entities may change places
(`state_apply_comm`), and neither can tell whether the other came first (`replies_apply`).

* `Interleaves`: one list is made of two others, each in its own order.
* `interleavings_agree`: however the commands on two entities are interleaved, each of them reports
  and answers what it does among those on its own entity, and the same model is left.
-/

namespace RelationalMapping

/-- The entity that a command works on, unless it changes the trees or a hierarchy. -/
def Command.entity? : Command → Option EntityId
  | .addRoot .. | .addChild .. | .configureHierarchy .. => none
  | .setType id _ | .setPrimaryTable id _ | .setPrimaryTableName id _ | .addSecondaryTable id _
  | .addFilter id _ | .addSynchronizedTables id _ | .configureEntity id _ => some id
  | .bindBasic place .. | .bindComponent place .. | .bindReference place ..
  | .bindCollection place .. | .register place _ => some place.entity
  | .bindVirtual id .. | .bindInverse id .. => some id

/-! ## One entity -/

/-- The command is an operation on the entity at `x` alone. -/
def Command.LocalTo (c : Command) (x : EntityId) : Prop :=
  ∃ f : EntityMapping → Outcome EntityMapping Reply, ∀ m : Model, m.apply c = m.onEntity x f

namespace Command

variable {c : Command} {x : EntityId}

theorem LocalTo.onEntity {α : Type} {f : EntityMapping → Outcome EntityMapping α}
    {reply : α → Reply} (hc : ∀ m : Model, m.apply c = (m.onEntity x f).map reply) :
    c.LocalTo x := by
  refine ⟨fun e => (f e).map reply, fun m => ?_⟩
  rw [hc m]
  unfold Model.onEntity
  cases m.entity? x <;> rfl

/-- Every command that works on an entity is local to it. -/
theorem localTo (h : c.entity? = some x) : c.LocalTo x := by
  cases c with
  | addRoot _ _ | addChild _ | configureHierarchy _ _ => cases h
  | setType _ _ | setPrimaryTable _ _ | setPrimaryTableName _ _ | addSecondaryTable _ _
  | addFilter _ _ | addSynchronizedTables _ _ | configureEntity _ _ | bindBasic _ _ _ _ _
  | bindComponent _ _ _ _ | bindReference _ _ _ _ _ _ | bindCollection _ _ _ _ _ _
  | bindVirtual _ _ _ _ | bindInverse _ _ _ | register _ _ =>
    cases h
    exact .onEntity fun _ => rfl

end Command

/-! ## Two entities -/

namespace Model

variable {m m' : Model} {x y : EntityId} {c d : Command}

theorem putEntity_comm (m : Model) (hne : x ≠ y) (e f : EntityMapping) :
    (m.putEntity x e).putEntity y f = (m.putEntity y f).putEntity x e := by
  simp only [putEntity, List.set_comm e f (EntityId.index_ne hne)]

section

variable {α β : Type} {f : EntityMapping → Outcome EntityMapping α}
  {g : EntityMapping → Outcome EntityMapping β}

theorem entity?_onEntity_of_ne (hne : x ≠ y) : (m.onEntity x f).state.entity? y = m.entity? y := by
  unfold onEntity
  cases m.entity? x with
  | none => rfl
  | some e => exact entity?_putEntity_of_ne _ hne.symm

/-- An operation on an entity shows nothing of the rest of the model. -/
theorem onEntity_congr (h : m'.entity? x = m.entity? x) :
    (m'.onEntity x f).answer = (m.onEntity x f).answer ∧
      (m'.onEntity x f).events = (m.onEntity x f).events := by
  unfold onEntity
  rw [h]
  cases m.entity? x <;> exact ⟨rfl, rfl⟩

theorem state_onEntity_of_none (h : m.entity? x = none) : (m.onEntity x f).state = m := by
  simp only [onEntity, h, Outcome.state_refuse]

theorem state_onEntity_of_some {e : EntityMapping} (h : m.entity? x = some e) :
    (m.onEntity x f).state = m.putEntity x (f e).state := by
  simp only [onEntity, h, Outcome.state_within]

theorem state_onEntity_comm (m : Model) (hne : x ≠ y) :
    ((m.onEntity x f).state.onEntity y g).state = ((m.onEntity y g).state.onEntity x f).state := by
  have hx : (m.onEntity y g).state.entity? x = m.entity? x := entity?_onEntity_of_ne hne.symm
  have hy : (m.onEntity x f).state.entity? y = m.entity? y := entity?_onEntity_of_ne hne
  cases hex : m.entity? x with
  | none => rw [state_onEntity_of_none hex, state_onEntity_of_none (hx.trans hex)]
  | some e =>
    rw [state_onEntity_of_some (hx.trans hex)]
    cases hey : m.entity? y with
    | none => rw [state_onEntity_of_none (hy.trans hey), state_onEntity_of_none hey,
        state_onEntity_of_some hex]
    | some k => rw [state_onEntity_of_some (hy.trans hey), state_onEntity_of_some hey,
        state_onEntity_of_some hex, putEntity_comm m hne]

end

theorem state_apply_comm (m : Model) (hne : x ≠ y) (hc : c.entity? = some x)
    (hd : d.entity? = some y) :
    ((m.apply c).state.apply d).state = ((m.apply d).state.apply c).state := by
  obtain ⟨f, hf⟩ := Command.localTo hc
  obtain ⟨g, hg⟩ := Command.localTo hd
  simp only [hf, hg]
  exact state_onEntity_comm m hne

/-- A command on one entity shows nothing of what another did elsewhere. -/
theorem apply_congr (hne : x ≠ y) (hc : c.entity? = some x) (hd : d.entity? = some y) :
    ((m.apply c).state.apply d).answer = (m.apply d).answer ∧
      ((m.apply c).state.apply d).events = (m.apply d).events := by
  obtain ⟨f, hf⟩ := Command.localTo hc
  obtain ⟨g, hg⟩ := Command.localTo hd
  simp only [hf, hg]
  exact onEntity_congr (entity?_onEntity_of_ne hne)

/-! ## Two runs -/

/-- What each of the commands reported and answered. -/
def transcript (m : Model) : List Command → List (Command × List Event × Answer Reply)
  | [] => []
  | c :: rest =>
      (c, (m.apply c).events, (m.apply c).answer) :: (m.apply c).state.transcript rest

theorem transcript_apply {second : List Command} (hne : x ≠ y) (hc : c.entity? = some x)
    (hsecond : ∀ d ∈ second, d.entity? = some y) :
    (m.apply c).state.transcript second = m.transcript second := by
  induction second generalizing m with
  | nil => rfl
  | cons d rest ih =>
    have hd : d.entity? = some y := hsecond d (List.mem_cons_self ..)
    obtain ⟨hanswer, hevents⟩ := apply_congr (m := m) hne hc hd
    rw [transcript, transcript, hanswer, hevents, state_apply_comm m hne hc hd,
      ih fun d hd => hsecond d (List.mem_cons_of_mem _ hd)]

theorem after_apply {first : List Command} (hne : x ≠ y)
    (hfirst : ∀ c ∈ first, c.entity? = some x) (hd : d.entity? = some y) :
    (m.apply d).state.after first = ((m.after first).apply d).state := by
  induction first generalizing m with
  | nil => rfl
  | cons c rest ih =>
    have hc : c.entity? = some x := hfirst c (List.mem_cons_self ..)
    rw [after_cons, after_cons, ← state_apply_comm m hne hc hd,
      ih fun c hc => hfirst c (List.mem_cons_of_mem _ hc)]

end Model

/-- `merged` is made of the two lists, each in its own order. -/
inductive Interleaves {α : Type} : List α → List α → List α → Prop
  | nil : Interleaves [] [] []
  | left {a : α} {first second merged : List α} (h : Interleaves first second merged) :
      Interleaves (a :: first) second (a :: merged)
  | right {a : α} {first second merged : List α} (h : Interleaves first second merged) :
      Interleaves first (a :: second) (a :: merged)

namespace Model

variable {x y : EntityId}

/-- However the commands on two entities are interleaved, each of them reports and answers what it
does where only those on its own entity are carried out, and the model that is left is the one that
the first and then the second leave. -/
theorem interleavings_agree (m : Model) {first second run : List Command} (hne : x ≠ y)
    (hfirst : ∀ c ∈ first, c.entity? = some x) (hsecond : ∀ d ∈ second, d.entity? = some y)
    (h : Interleaves first second run) :
    m.after run = m.after (first ++ second) ∧
      Interleaves (m.transcript first) (m.transcript second) (m.transcript run) := by
  induction h generalizing m with
  | nil => exact ⟨rfl, .nil⟩
  | @left c first second run h ih =>
    have hc : c.entity? = some x := hfirst c (List.mem_cons_self ..)
    obtain ⟨hafter, hparts⟩ :=
      ih (m.apply c).state (fun c hc => hfirst c (List.mem_cons_of_mem _ hc)) hsecond
    rw [transcript_apply hne hc hsecond] at hparts
    exact ⟨hafter, .left hparts⟩
  | @right d first second run h ih =>
    have hd : d.entity? = some y := hsecond d (List.mem_cons_self ..)
    obtain ⟨hafter, hparts⟩ :=
      ih (m.apply d).state hfirst fun d hd => hsecond d (List.mem_cons_of_mem _ hd)
    rw [transcript_apply hne.symm hd hfirst] at hparts
    refine ⟨?_, .right hparts⟩
    calc m.after (d :: run)
        = ((m.apply d).state.after first).after second := by rw [after_cons, hafter, after_append]
      _ = ((m.after first).apply d).state.after second := by rw [after_apply hne hfirst hd]
      _ = m.after (first ++ d :: second) := by rw [after_append, after_cons]

/-- A name taken twice in a component of one entity, which is refused, and an attribute of the other
that is the target of a reference from the first. -/
theorem interleavings_agree_rejected :
    let m := (fresh .reject true).after [.addRoot .joined .object, .addRoot .joined .object]
    let street := Command.bindBasic { entity := ⟨0⟩, composite := some ⟨⟨0⟩, 0⟩ }
      ⟨"street", false⟩ [] {} .never
    let first := [.bindComponent { entity := ⟨0⟩ } ⟨"address", false⟩ none {}, street, street,
      .bindReference { entity := ⟨0⟩ } ⟨"owner", false⟩ {} ⟨1⟩ ⟨⟨1⟩, 0⟩ []]
    let second := [Command.bindBasic { entity := ⟨1⟩ } ⟨"name", false⟩ [] {} .never]
    let run := first ++ second
    ∃ fault, (m.transcript first).map (fun entry => entry.2.2) =
        [.ok (.mapped ⟨⟨0⟩, 0⟩), .ok (.mapped ⟨⟨0⟩, 1⟩), .error fault, .ok (.mapped ⟨⟨0⟩, 2⟩)] ∧
      m.after (second ++ first) = m.after run ∧
      Interleaves (m.transcript first) (m.transcript second) (m.transcript (second ++ first)) := by
  intro m street first second run
  have hrun : Interleaves first second (second ++ first) :=
    .right (.left (.left (.left (.left .nil))))
  refine ⟨_, rfl, interleavings_agree m (x := ⟨0⟩) (y := ⟨1⟩) (by decide) ?_ ?_ hrun⟩
  · simp [first, street, Command.entity?]
  · simp [second, Command.entity?]

end Model

end RelationalMapping
