import Mathlib.Data.List.Induction
import RelationalMapping.Proofs.Representation

/-!
Every scope that begins empty is an ordered map of what was registered in it, whether it is an
entity or a component, and whatever goes on around it.

* `Recorded`: the invariant of a run and its log.
* `scopes_are_ordered_maps`: what such a scope lists, locates and counts depends on its history
  alone, and so does what any two of them have in common.
-/

namespace RelationalMapping

namespace Registration

variable {h : List Registration}

/-- What is left is the last registration under each name. -/
theorem mem_latest_iff {r : Registration} :
    r ∈ latest h ↔ (h.reverse.find? fun s => s.name == r.name) = some r := by
  constructor
  · intro hr
    obtain ⟨n, _, hfind⟩ := List.mem_filterMap.mp hr
    have hname : r.name = n := by simpa using List.find?_some hfind
    rw [hname, hfind]
  · intro hr
    have hmem : r ∈ h := List.mem_reverse.mp (List.mem_of_find?_eq_some hr)
    refine List.mem_filterMap.mpr ⟨r.name, ?_, hr⟩
    exact List.mem_eraseDups.mpr (List.mem_map.mpr ⟨r, hmem, rfl⟩)

/-- What is left has contents that depend on those registered, and not on their ids. -/
theorem map_content_latest (h : List Registration) :
    (latest h).map content = ((h.map content).map Content.name).eraseDups.filterMap fun n =>
      (h.map content).reverse.find? fun c => c.name == n := by
  have hfind : ∀ n : String, ((h.map content).reverse.find? fun c => c.name == n) =
      (h.reverse.find? fun r => r.name == n).map content := by
    intro n
    rw [← List.map_reverse, List.find?_map]
    rfl
  rw [latest, List.map_filterMap, List.map_map]
  simp only [hfind]
  rfl

end Registration

theorem Command.requestAt?_eq_some_iff {c : Command} {p : Place} {content : Content} :
    c.requestAt? p = some content ↔ c.request? = some (p, content) := by
  unfold requestAt?
  cases c.request? with
  | none => simp
  | some request =>
    obtain ⟨q, asked⟩ := request
    by_cases hq : q = p <;> simp [hq]

theorem mem_history_iff {log : List (Command × AttributeId)} {p : Place} {r : Registration} :
    r ∈ history log p ↔ ∃ c, (c, r.id) ∈ log ∧ c.request? = some (p, r.content) := by
  simp only [history, List.mem_filterMap, Option.map_eq_some_iff, Command.requestAt?_eq_some_iff]
  constructor
  · rintro ⟨entry, hentry, content, hrequest, rfl⟩
    exact ⟨entry.1, hentry, hrequest⟩
  · rintro ⟨c, hentry, hrequest⟩
    exact ⟨(c, r.id), hentry, r.content, hrequest, rfl⟩

namespace EntityMapping

variable {e : EntityMapping} {scope : Scope} {composite other : Option AttributeId}

/-- The scope of the entity itself opens where no composite is named. -/
theorem eq_entity_iff_of_openScope (h : e.openScope composite = .ok scope) :
    scope = .entity ↔ composite = none := by
  cases composite with
  | none =>
    cases h
    exact ⟨fun _ => rfl, fun _ => rfl⟩
  | some id =>
    obtain ⟨_, _, _, _, rfl⟩ := openComposite_eq_ok_iff.mp h
    simp

/-- Different places of an entity are different scopes. -/
theorem composite_eq_of_openScope (h : e.openScope composite = .ok scope)
    (h' : e.openScope other = .ok scope) : composite = other := by
  cases scope with
  | composite i => rw [composite_of_openScope h, composite_of_openScope h']
  | entity =>
    rw [(eq_entity_iff_of_openScope h).mp rfl, (eq_entity_iff_of_openScope h').mp rfl]

/-- What the scope answers is what an ordered map answers in which the registrations were entered
one after the other. -/
structure OrderedMap (e : EntityMapping) (scope : Scope) (h : List Registration) : Prop where
  /-- For each name that was ever registered the last registration, in the order of the first. -/
  listing : ∃ as, e.listing scope = .ok as ∧
    as.map AttributeMapping.registration = Registration.latest h ∧
    as.map AttributeMapping.name = (h.map Registration.name).eraseDups
  /-- The last registration under the name, if there ever was one. -/
  locate : ∀ n, ∃ found, e.locate scope n = .ok found ∧
    found.map AttributeMapping.registration = (h.reverse.find? fun r => r.name == n) ∧
    (found = none ↔ n ∉ h.map Registration.name)
  /-- The number of different names. -/
  span : e.scopeSpan scope = .ok (h.map Registration.name).eraseDups.length

theorem Represents.orderedMap {h : List Registration}
    (hr : e.Represents scope (Registration.latest h)) : e.OrderedMap scope h where
  listing := by
    refine ⟨_, hr.listing_eq, hr.map_registration, ?_⟩
    rw [← Registration.map_name_registration, hr.map_registration, Registration.map_name_latest]
  locate := by
    intro n
    by_cases hn : n ∈ h.map Registration.name
    · obtain ⟨r, hfind, rfl⟩ := Registration.find?_reverse_of_mem hn
      have hlast : r ∈ Registration.latest h := Registration.mem_latest_iff.mpr hfind
      obtain ⟨a, ha, hreg⟩ := hr.stored r hlast
      refine ⟨some a, ha ▸ hr.locate_of_mem hlast, ?_, by simp [hn]⟩
      rw [hfind, Option.map_some, hreg]
    · have hnone : (h.reverse.find? fun r => r.name == n) = none := by
        refine List.find?_eq_none.mpr fun r hr => ?_
        have hne : r.name ≠ n := fun heq =>
          hn (List.mem_map.mpr ⟨r, List.mem_reverse.mp hr, heq⟩)
        simpa using hne
      have hout : n ∉ (Registration.latest h).map Registration.name := fun hmem =>
        hn (Registration.mem_names_latest.mp hmem)
      exact ⟨none, hr.locate_of_not_mem hout, by rw [hnone]; rfl, by simp [hn]⟩
  span := by
    rw [hr.scopeSpan_eq, ← Registration.map_name_latest, List.length_map]

end EntityMapping

namespace Model

variable {m m' : Model} {log : List (Command × AttributeId)} {c : Command} {p q : Place}
  {e : EntityMapping} {scope : Scope} {a : AttributeMapping}

theorem openPlace_eq_ok_iff : m.openPlace p = .ok (e, scope) ↔
    m.entity? p.entity = some e ∧ e.openScope p.composite = .ok scope := by
  simp [openPlace, getEntity, Answer.bind_eq_ok_iff, pure, Except.pure]

theorem openPlace_entity {x : EntityId} (he : m.entity? x = some e) :
    m.openPlace { entity := x } = .ok (e, .entity) :=
  openPlace_eq_ok_iff.mpr ⟨he, rfl⟩

/-- A scope that has opened opens again later on. -/
theorem Grown.openPlace (g : Grown m m') (h : m.openPlace p = .ok (e, scope)) :
    ∃ e', m'.openPlace p = .ok (e', scope) := by
  obtain ⟨he, hs⟩ := openPlace_eq_ok_iff.mp h
  obtain ⟨e', he', hg⟩ := g _ e he
  exact ⟨e', openPlace_eq_ok_iff.mpr ⟨he', hg.openScope hs⟩⟩

/-! ## The invariant -/

/-- The scope at that place represents what the log has registered there. -/
def RepresentsAt (m : Model) (log : List (Command × AttributeId)) (p : Place) : Prop :=
  ∃ e scope, m.openPlace p = .ok (e, scope) ∧
    e.Represents scope (Registration.latest (history log p))

/-- What a run leaves goes by what it registered. -/
structure Recorded (m : Model) (log : List (Command × AttributeId)) : Prop where
  /-- Where something was registered, there is a scope. -/
  opened : ∀ entry ∈ log, ∀ p content, entry.1.request? = some (p, content) →
    ∃ e scope, m.openPlace p = .ok (e, scope)
  /-- What was registered is stored. -/
  stored : ∀ entry ∈ log, (m.attribute? entry.2).isSome
  /-- No id was given out twice. -/
  ids : (log.map Prod.snd).Nodup
  entities : ∀ x, (m.entity? x).isSome → m.RepresentsAt log { entity := x }
  components : ∀ entry ∈ log, entry.1.bindsComponent = true →
    m.RepresentsAt log ⟨entry.2.entity, some entry.2⟩

/-- What is registered at a place that is not there: nothing. -/
theorem Recorded.history_eq_nil (r : Recorded m log)
    (hp : ∀ e scope, m.openPlace p ≠ .ok (e, scope)) : history log p = [] := by
  refine List.filterMap_eq_nil_iff.mpr fun entry hentry => ?_
  cases ha : entry.1.requestAt? p with
  | none => rfl
  | some content =>
    obtain ⟨e, scope, hopen⟩ :=
      r.opened entry hentry p content (Command.requestAt?_eq_some_iff.mp ha)
    exact absurd hopen (hp e scope)

/-! ## One command -/

/-- Nothing is registered anywhere, and new entities have nothing declared. -/
theorem Recorded.kept (r : Recorded m log) (hsame : SameStores m m') (g : Grown m m') :
    Recorded m' log := by
  have hat : ∀ p, m.RepresentsAt log p → m'.RepresentsAt log p := by
    rintro p ⟨e, scope, hopen, hrepresents⟩
    obtain ⟨he, hs⟩ := openPlace_eq_ok_iff.mp hopen
    obtain ⟨e', he', hstore⟩ := hsame.forth he
    obtain ⟨f, hf⟩ := g.openPlace hopen
    obtain ⟨hf', hsf⟩ := openPlace_eq_ok_iff.mp hf
    rw [he'] at hf'
    cases hf'
    exact ⟨e', scope, hf, hrepresents.congr hstore⟩
  constructor
  case opened =>
    intro entry hentry p content hrequest
    obtain ⟨e, scope, hopen⟩ := r.opened entry hentry p content hrequest
    obtain ⟨e', he'⟩ := g.openPlace hopen
    exact ⟨e', scope, he'⟩
  case stored => exact fun entry hentry => g.isSome_attribute? (r.stored entry hentry)
  case ids => exact r.ids
  case components => exact fun entry hentry hc => hat _ (r.components entry hentry hc)
  case entities =>
    intro x hx
    obtain ⟨e', he'⟩ := Option.isSome_iff_exists.mp hx
    rcases hsame.back he' with ⟨e, he, _⟩ | ⟨hnone, _, hdeclared, _⟩
    · exact hat _ (r.entities x (by simp [he]))
    · have hnil : history log { entity := x } = [] := by
        refine r.history_eq_nil fun e scope hopen => ?_
        have he : m.entity? x = some e := (openPlace_eq_ok_iff.mp hopen).1
        rw [hnone] at he
        cases he
      refine ⟨e', .entity, openPlace_entity he', ?_⟩
      rw [hnil]
      exact ⟨by simp [EntityMapping.Arranges, Registration.latest, hdeclared],
        by simp [Registration.latest]⟩

theorem history_registers (h : m.Registers c p e scope a) (q : Place) :
    history (log ++ [(c, a.id)]) q =
      history log q ++ if p = q then [a.registration] else [] := by
  have hlast : history [(c, a.id)] q = if p = q then [a.registration] else [] := by
    by_cases hq : p = q <;>
      simp [history, Command.requestAt?, h.asked.request, hq, AttributeMapping.registration]
  rw [← hlast]
  exact List.filterMap_append

theorem Registers.grown (h : m.Registers c p e scope a) : Grown m (m.apply c).state := by
  rw [h.state]
  exact grown_putEntity h.entity (e.grown_withAttribute scope a)

theorem Registers.openPlace (h : m.Registers c p e scope a) : m.openPlace p = .ok (e, scope) :=
  openPlace_eq_ok_iff.mpr ⟨h.entity, h.opened⟩

/-- The place where it was bound still opens. -/
theorem Registers.openPlace_after (h : m.Registers c p e scope a) :
    (m.apply c).state.openPlace p = .ok (e.withAttribute scope a, scope) := by
  obtain ⟨e', hopen'⟩ := h.grown.openPlace h.openPlace
  have hlater : e' = e.withAttribute scope a :=
    Option.some.inj ((openPlace_eq_ok_iff.mp hopen').1.symm.trans h.entity?_after)
  rw [hopen', hlater]

/-- One more attribute updates what is represented at its own place, and at no other. -/
theorem Registers.representsAt (h : m.Registers c p e scope a)
    (hq : m.RepresentsAt log q) :
    (m.apply c).state.RepresentsAt (log ++ [(c, a.id)]) q := by
  obtain ⟨eq, sq, hopen, hrepresents⟩ := hq
  obtain ⟨heq, hsq⟩ := openPlace_eq_ok_iff.mp hopen
  obtain ⟨e', hopen'⟩ := h.grown.openPlace hopen
  refine ⟨e', sq, hopen', ?_⟩
  obtain ⟨he', _⟩ := openPlace_eq_ok_iff.mp hopen'
  rw [history_registers h q]
  rw [h.state, entity?_putEntity h.entity] at he'
  by_cases hentity : q.entity = p.entity
  · rw [if_pos hentity] at he'
    rw [hentity, h.entity] at heq
    cases he'
    cases heq
    by_cases hscope : scope = sq
    · have hpq : p = q := by
        have hcomposite : p.composite = q.composite :=
          EntityMapping.composite_eq_of_openScope h.opened (hscope ▸ hsq)
        obtain ⟨x, o⟩ := p
        obtain ⟨y, o'⟩ := q
        simp_all
      rw [if_pos hpq, Registration.latest_concat, ← hscope]
      exact (hscope ▸ hrepresents).enrol h.id
    · have hpq : p ≠ q := by
        rintro rfl
        rw [h.opened] at hsq
        exact hscope (Except.ok.inj hsq)
      rw [if_neg hpq, List.append_nil]
      exact hrepresents.enrol_elsewhere hscope
  · rw [if_neg hentity, heq] at he'
    cases he'
    have hpq : p ≠ q := fun heq => hentity (by rw [heq])
    rw [if_neg hpq, List.append_nil]
    exact hrepresents

/-- The place of a new attribute is not there before. -/
theorem Registers.closed (f : Forest m) (h : m.Registers c p e scope a) :
    ∀ e' s, m.openPlace ⟨a.id.entity, some a.id⟩ ≠ .ok (e', s) := by
  intro e' s hopen
  have hid : a.id = ⟨p.entity, e.store.length⟩ := id_eq_of_nextId (f.entity_id h.entity) h.id
  rw [hid] at hopen
  obtain ⟨he', hs⟩ := openPlace_eq_ok_iff.mp hopen
  have heq : e = e' := Option.some.inj (h.entity.symm.trans he')
  obtain ⟨b, _, hb, _⟩ := EntityMapping.openComposite_eq_ok_iff.mp hs
  obtain ⟨_, hstored⟩ := EntityMapping.stored?_eq_some_iff.mp hb
  rw [← heq, List.getElem?_length] at hstored
  cases hstored

/-- A component begins as an empty scope. -/
theorem Registers.component (f : Forest m) (r : Recorded m log) (h : m.Registers c p e scope a)
    (hc : c.bindsComponent = true) :
    (m.apply c).state.RepresentsAt (log ++ [(c, a.id)]) ⟨a.id.entity, some a.id⟩ := by
  obtain ⟨b, hb, hparts, hpositions⟩ := h.asked.component hc
  have hclosed := h.closed f
  have hx : e.id = p.entity := f.entity_id h.entity
  have hid : a.id = ⟨p.entity, e.store.length⟩ := id_eq_of_nextId hx h.id
  have hscope : scope ≠ .composite e.store.length :=
    (EntityMapping.opens_of_openScope h.opened).ne_next
  have hstored : (e.withAttribute scope a).store[e.store.length]? = some a :=
    EntityMapping.store_withAttribute_last hscope
  have hnil : history (log ++ [(c, a.id)]) ⟨a.id.entity, some a.id⟩ = [] := by
    have hpq : p ≠ ⟨a.id.entity, some a.id⟩ := by
      intro heq
      exact hclosed e scope (heq ▸ h.openPlace)
    rw [history_registers h, r.history_eq_nil hclosed, if_neg hpq, List.append_nil]
  refine ⟨e.withAttribute scope a, .composite e.store.length, ?_, ?_⟩
  · refine openPlace_eq_ok_iff.mpr ⟨?_, ?_⟩
    · rw [hid]
      exact h.entity?_after
    · refine EntityMapping.openComposite_eq_ok_iff.mpr ⟨a, b, ?_, hb, by rw [hid]⟩
      rw [EntityMapping.stored?_eq_some_iff, EntityMapping.id_withAttribute, hid]
      exact ⟨hx.symm, hstored⟩
  · rw [hnil]
    exact EntityMapping.represents_nil hscope hb hparts hpositions

theorem Recorded.registers (f : Forest m) (r : Recorded m log) (h : m.Registers c p e scope a) :
    Recorded (m.apply c).state (log ++ [(c, a.id)]) where
  opened := by
    intro entry hentry q content hrequest
    have hopen : ∃ e scope, m.openPlace q = .ok (e, scope) := by
      rcases List.mem_append.mp hentry with hentry | hentry
      · exact r.opened entry hentry q content hrequest
      · rw [List.mem_singleton.mp hentry, h.asked.request] at hrequest
        cases hrequest
        exact ⟨e, scope, h.openPlace⟩
    obtain ⟨e, scope, hopen⟩ := hopen
    obtain ⟨e', he'⟩ := h.grown.openPlace hopen
    exact ⟨e', scope, he'⟩
  stored := by
    intro entry hentry
    rcases List.mem_append.mp hentry with hentry | hentry
    · exact h.grown.isSome_attribute? (r.stored entry hentry)
    · rw [List.mem_singleton.mp hentry, h.state]
      exact isSome_attribute?_withAttribute h.entity (f.entity_id h.entity) h.id
  ids := by
    rw [List.map_append, List.map_singleton, List.nodup_append]
    refine ⟨r.ids, by simp, fun id hid other hother heq => ?_⟩
    obtain ⟨entry, hentry, rfl⟩ := List.mem_map.mp hid
    have hsome := r.stored entry hentry
    rw [heq, List.mem_singleton.mp hother,
      attribute?_nextId h.entity (f.entity_id h.entity) h.id] at hsome
    cases hsome
  entities := by
    intro x hx
    refine h.representsAt (r.entities x ?_)
    obtain ⟨e', he'⟩ := Option.isSome_iff_exists.mp hx
    rw [h.state, entity?_putEntity h.entity] at he'
    split at he'
    · rename_i hxp
      rw [hxp, h.entity]
      rfl
    · rw [he']
      rfl
  components := by
    intro entry hentry hc
    rcases List.mem_append.mp hentry with hentry | hentry
    · exact h.representsAt (r.components entry hentry hc)
    · rw [List.mem_singleton.mp hentry] at hc ⊢
      exact h.component f r hc

/-! ## The whole run -/

theorem Recorded.step (f : Forest m) (r : Recorded m log) (c : Command) :
    Recorded (m.apply c).state (log ++ m.log [c]) := by
  rw [log_cons, log_nil, List.append_nil]
  cases hid : (m.apply c).answer.mapped? with
  | some id =>
    obtain ⟨p, e, scope, a, rfl, h⟩ := registers_of_mapped (Answer.mapped?_eq_some_iff.mp hid)
    exact r.registers f h
  | none =>
    rw [Option.map_none, Option.toList_none, List.append_nil]
    cases step_stores (step_apply m c) with
    | kept hsame _ => exact r.kept hsame (grown_step (step_apply m c))
    | enrolled _ _ _ _ _ hanswer =>
      rw [Answer.mapped?_eq_some_iff.mpr hanswer] at hid
      cases hid

theorem recorded_after (collisions : NameCollision) (verifying : Bool) (commands : List Command) :
    Recorded ((fresh collisions verifying).after commands)
      ((fresh collisions verifying).log commands) := by
  induction commands using List.reverseRecOn with
  | nil => exact ⟨by simp, by simp, by simp, by simp [fresh, entity?], by simp⟩
  | append_singleton before c ih =>
    rw [after_append, log_append]
    exact ih.step (forest_after (forest_fresh collisions verifying) before) c

/-- The places of a run where scopes begin empty: its entities, and the components that it bound. -/
inductive Container (m : Model) (commands : List Command) : Place → Prop
  | entity {x : EntityId} (hx : ((m.after commands).entity? x).isSome) :
      Container m commands { entity := x }
  | component {c : Command} {id : AttributeId} (hc : c.bindsComponent = true)
      (hlog : (c, id) ∈ m.log commands) :
      Container m commands { entity := id.entity, composite := some id }

theorem Container.representsAt {collisions : NameCollision} {verifying : Bool}
    {commands : List Command} (hp : Container (fresh collisions verifying) commands p) :
    ((fresh collisions verifying).after commands).RepresentsAt
      ((fresh collisions verifying).log commands) p := by
  have r := recorded_after collisions verifying commands
  cases hp with
  | entity hx => exact r.entities _ hx
  | component hc hlog => exact r.components _ hlog hc

/-- After every run, each entity and each component that the run bound is an ordered map of what
was registered there, whatever was registered elsewhere in between and under either policy. It
lists one attribute for each name, the last one registered under it, in the order in which the names
first came; it locates just these, and counts the names. So wherever the same contents were
registered in the same order, on an entity or in a component, of this run or of another one, the
same contents are listed, and attributes of the same kinds. -/
theorem scopes_are_ordered_maps (collisions : NameCollision) (verifying : Bool)
    (commands : List Command) (p : Place)
    (hp : Container (fresh collisions verifying) commands p) :
    let m := fresh collisions verifying
    let h := history (m.log commands) p
    ∃ e scope, (m.after commands).openPlace p = .ok (e, scope) ∧ e.OrderedMap scope h ∧
      ∀ (collisions' : NameCollision) (verifying' : Bool) (commands' : List Command) (p' : Place),
        let m' := fresh collisions' verifying'
        Container m' commands' p' →
        (history (m'.log commands') p').map Registration.content =
          h.map Registration.content →
        ∃ e' scope' as as', (m'.after commands').openPlace p' = .ok (e', scope') ∧
          e.listing scope = .ok as ∧ e'.listing scope' = .ok as' ∧
          as'.map AttributeMapping.content = as.map AttributeMapping.content ∧
          as'.map AttributeMapping.kind = as.map AttributeMapping.kind := by
  intro m h
  obtain ⟨e, scope, hopen, hrepresents⟩ := hp.representsAt
  refine ⟨e, scope, hopen, hrepresents.orderedMap, ?_⟩
  intro collisions' verifying' commands' p' m' hp' hsame
  obtain ⟨e', scope', hopen', hrepresents'⟩ := hp'.representsAt
  obtain ⟨as, has, hlist, _⟩ := hrepresents.orderedMap.listing
  obtain ⟨as', has', hlist', _⟩ := hrepresents'.orderedMap.listing
  have hcontents : as'.map AttributeMapping.content = as.map AttributeMapping.content := by
    rw [AttributeMapping.map_content_eq, AttributeMapping.map_content_eq, hlist, hlist',
      Registration.map_content_latest, Registration.map_content_latest, hsame]
  refine ⟨e', scope', as, as', hopen', has, has', hcontents, ?_⟩
  exact AttributeMapping.map_kind_eq_of_map_content_eq hcontents

/-- The same is registered on an entity and in a component of another one, taking turns: a name, a
second name, and the first name once more. What the entity has under it gets a part of its own. -/
def addressRun : List Command :=
  [.addRoot .none .object,
    .addRoot .none .object,
    .bindComponent { entity := ⟨1⟩ } ⟨"home", false⟩ none {},
    .bindBasic { entity := ⟨0⟩ } ⟨"street", false⟩ [] {} .never,
    .bindBasic { entity := ⟨1⟩, composite := some ⟨⟨1⟩, 0⟩ } ⟨"street", false⟩ [] {} .never,
    .bindBasic { entity := ⟨0⟩ } ⟨"city", false⟩ [] {} .never,
    .bindComponent { entity := ⟨0⟩ } ⟨"street", false⟩ none {},
    .bindBasic { entity := ⟨1⟩, composite := some ⟨⟨1⟩, 0⟩ } ⟨"city", false⟩ [] {} .never,
    .bindBasic { entity := ⟨0⟩, composite := some ⟨⟨0⟩, 2⟩ } ⟨"number", false⟩ [] {} .never,
    .bindComponent { entity := ⟨1⟩, composite := some ⟨⟨1⟩, 0⟩ } ⟨"street", false⟩ none {}]

/-- What is registered in both scopes. -/
def addressContents : List Content :=
  [⟨"street", .basic { synthetic := false, options := {}, values := [], generation := .never }⟩,
    ⟨"city", .basic { synthetic := false, options := {}, values := [], generation := .never }⟩,
    ⟨"street", .composite
      { synthetic := false, options := {}, parentReference := none, isVirtual := false }⟩]

theorem history_addressRun :
    (history ((fresh .replace true).log addressRun) { entity := ⟨0⟩ }).map Registration.content =
        addressContents ∧
      (history ((fresh .replace true).log addressRun)
        { entity := ⟨1⟩, composite := some ⟨⟨1⟩, 0⟩ }).map Registration.content =
        addressContents :=
  ⟨rfl, rfl⟩

theorem scopes_are_ordered_maps_addressRun :
    Container (fresh .replace true) addressRun { entity := ⟨0⟩ } ∧
      Container (fresh .replace true) addressRun
        { entity := ⟨1⟩, composite := some ⟨⟨1⟩, 0⟩ } ∧
      ∃ e scope as, ((fresh .replace true).after addressRun).openPlace
          { entity := ⟨1⟩, composite := some ⟨⟨1⟩, 0⟩ } = .ok (e, scope) ∧
        e.listing scope = .ok as ∧
        as.map AttributeMapping.content =
          [⟨"street", .composite
              { synthetic := false, options := {}, parentReference := none, isVirtual := false }⟩,
            ⟨"city", .basic
              { synthetic := false, options := {}, values := [], generation := .never }⟩] := by
  have hentity : Container (fresh .replace true) addressRun { entity := ⟨0⟩ } :=
    .entity (by decide)
  have hbound : (.bindComponent { entity := ⟨1⟩ } ⟨"home", false⟩ none {}, ⟨⟨1⟩, 0⟩) ∈
      (fresh .replace true).log addressRun := List.mem_of_getElem? (i := 0) rfl
  have hhome : Container (fresh .replace true) addressRun
      { entity := ⟨1⟩, composite := some ⟨⟨1⟩, 0⟩ } :=
    Container.component (by rfl) hbound
  obtain ⟨hhere, hthere⟩ := history_addressRun
  obtain ⟨e, scope, hopen, hmap, hsame⟩ :=
    scopes_are_ordered_maps .replace true addressRun { entity := ⟨0⟩ } hentity
  obtain ⟨e', scope', as, as', hopen', has, has', hcontent, _⟩ :=
    hsame .replace true addressRun _ hhome (hthere.trans hhere.symm)
  obtain ⟨listed, hlisted, hlatest, _⟩ := hmap.listing
  rw [has] at hlisted
  cases hlisted
  refine ⟨hentity, hhome, e', scope', as', hopen', has', ?_⟩
  rw [hcontent, AttributeMapping.map_content_eq, hlatest, Registration.map_content_latest, hhere]
  rfl

end Model

end RelationalMapping
