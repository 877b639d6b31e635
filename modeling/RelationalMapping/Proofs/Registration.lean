import RelationalMapping.Proofs.Enrolment
import RelationalMapping.Proofs.LastEntries

/-!
Registrations, seen from outside: what a run registered in which scope, in order. A command says
by itself where it registers an attribute and with what content (`Command.request?`), and its answer
says under which id; the entities and their stores do not come into it.

* `Registration.latest`: what an ordered map is left with, one registration for each name.
* `Model.log`, `Model.history`: what a run registered, and what of it in one scope.
* `registers_of_mapped`: a command that answers an id has enrolled what it asked for.
-/

namespace RelationalMapping

/-! ## Contents -/

namespace CompositeBody

/-- A composite without the parts that it groups or is given later. -/
def bare (c : CompositeBody) : CompositeBody := { c with partIds := [], positions := .empty }

theorem bare_enterPart (c : CompositeBody) (name : String) (part : AttributeId) :
    (c.enterPart name part).bare = c.bare := by
  unfold enterPart
  split <;> rfl

theorem bare_foldl_appendPart (named : List (String × AttributeId)) (c : CompositeBody) :
    (named.foldl (fun c part => c.appendPart part.1 part.2) c).bare = c.bare := by
  induction named generalizing c with
  | nil => rfl
  | cons p rest ih => exact ih (c.appendPart p.1 p.2)

end CompositeBody

def AttributeBody.bare : AttributeBody → AttributeBody
  | .composite c => .composite c.bare
  | b => b

/-- What an attribute is registered with, whatever id it gets and wherever that is. -/
structure Content where
  name : String
  body : AttributeBody

namespace AttributeMapping

def content (a : AttributeMapping) : Content := ⟨a.name, a.body.bare⟩

/-- The kind is part of the content. -/
theorem kind_eq_of_content_eq {a b : AttributeMapping} (h : a.content = b.content) :
    a.kind = b.kind := by
  have hkind : ∀ a : AttributeMapping, a.kind = ({ a with body := a.content.body }).kind := by
    intro a
    obtain ⟨id, name, body⟩ := a
    cases body <;> rfl
  rw [hkind a, hkind b, h]
  rfl

theorem map_kind_eq_of_map_content_eq {as bs : List AttributeMapping}
    (h : as.map content = bs.map content) : as.map kind = bs.map kind := by
  induction as generalizing bs with
  | nil =>
    rw [List.map_nil, eq_comm, List.map_eq_nil_iff] at h
    rw [h]
  | cons a rest ih =>
    cases bs with
    | nil => cases h
    | cons b rest' =>
      obtain ⟨ha, hrest⟩ := List.cons.inj h
      rw [List.map_cons, List.map_cons, kind_eq_of_content_eq ha, ih hrest]

theorem content_withPart (a : AttributeMapping) (name : String) (part : AttributeId) :
    (a.withPart name part).content = a.content := by
  obtain ⟨id, own, body⟩ := a
  cases body with
  | composite c => simp only [content, withPart, AttributeBody.bare, c.bare_enterPart]
  | _ => rfl

end AttributeMapping

/-! ## The last registration under each name -/

structure Registration where
  id : AttributeId
  content : Content

def AttributeMapping.registration (a : AttributeMapping) : Registration := ⟨a.id, a.content⟩

/-- Contents are read off the registrations. -/
theorem AttributeMapping.map_content_eq (as : List AttributeMapping) :
    as.map content = (as.map registration).map Registration.content := by
  rw [List.map_map]
  rfl

namespace Registration

def name (r : Registration) : String := r.content.name

theorem map_id_registration (as : List AttributeMapping) :
    (as.map AttributeMapping.registration).map id = as.map AttributeMapping.id := by
  rw [List.map_map]
  rfl

theorem map_name_registration (as : List AttributeMapping) :
    (as.map AttributeMapping.registration).map name = as.map AttributeMapping.name := by
  rw [List.map_map]
  rfl

/-- For each name the last registration under it, in the order in which the names first came. -/
def latest (h : List Registration) : List Registration :=
  (h.map name).eraseDups.filterMap fun n => h.reverse.find? fun r => r.name == n

/-- One more registration takes the place of the one under its name, or else comes last. -/
def update (l : List Registration) (r : Registration) : List Registration :=
  if r.name ∈ l.map name then l.map fun s => if s.name = r.name then r else s else l ++ [r]

variable {h l : List Registration} {r : Registration}

theorem find?_reverse_concat (h : List Registration) (r : Registration) (n : String) :
    ((h ++ [r]).reverse.find? fun s => s.name == n) =
      if r.name = n then some r else h.reverse.find? fun s => s.name == n := by
  by_cases hn : r.name = n <;> simp [hn]

/-- A name that was ever registered has a last registration. -/
theorem find?_reverse_of_mem {n : String} (hn : n ∈ h.map name) :
    ∃ r, (h.reverse.find? fun s => s.name == n) = some r ∧ r.name = n := by
  obtain ⟨s, hs, hsn⟩ := List.mem_map.mp hn
  have hfound : (h.reverse.find? fun s => s.name == n).isSome := by
    rw [List.find?_isSome]
    exact ⟨s, List.mem_reverse.mpr hs, by simp [hsn]⟩
  obtain ⟨r, hr⟩ := Option.isSome_iff_exists.mp hfound
  exact ⟨r, hr, by simpa using List.find?_some hr⟩

/-- Every name that was ever registered is there once, in the order of the first registrations. -/
theorem map_name_latest (h : List Registration) :
    (latest h).map name = (h.map name).eraseDups := by
  have hname : ∀ n ∈ (h.map name).eraseDups,
      ((h.reverse.find? fun r => r.name == n).map name) = some n := by
    intro n hn
    obtain ⟨r, hr, hrn⟩ := find?_reverse_of_mem (List.mem_eraseDups.mp hn)
    rw [hr, Option.map_some, hrn]
  rw [latest, List.map_filterMap, List.filterMap_congr hname, List.filterMap_some]

theorem mem_names_latest {n : String} : n ∈ (latest h).map name ↔ n ∈ h.map name := by
  rw [map_name_latest, List.mem_eraseDups]

theorem eraseDups_names_concat (h : List Registration) (r : Registration) :
    ((h ++ [r]).map name).eraseDups =
      if r.name ∈ h.map name then (h.map name).eraseDups
      else (h.map name).eraseDups ++ [r.name] := by
  rw [List.map_append, List.map_singleton, eraseDups_concat]

theorem latest_concat (h : List Registration) (r : Registration) :
    latest (h ++ [r]) = update (latest h) r := by
  rw [update]
  by_cases hr : r.name ∈ h.map name
  · rw [if_pos (mem_names_latest.mpr hr), latest, latest, List.map_filterMap]
    rw [eraseDups_names_concat, if_pos hr]
    refine List.filterMap_congr fun n hn => ?_
    obtain ⟨s, hs, rfl⟩ := find?_reverse_of_mem (List.mem_eraseDups.mp hn)
    rw [find?_reverse_concat, hs]
    by_cases hsr : r.name = s.name <;> simp [hsr, eq_comm]
  · rw [if_neg (fun hmem => hr (mem_names_latest.mp hmem)), latest, latest]
    rw [eraseDups_names_concat, if_neg hr, List.filterMap_append]
    congr 1
    · refine List.filterMap_congr fun n hn => ?_
      have hne : r.name ≠ n := fun heq => hr (heq ▸ List.mem_eraseDups.mp hn)
      rw [find?_reverse_concat, if_neg hne]
    · simp

end Registration

/-! ## What a run registered -/

namespace Command

/-- What a command that binds an attribute asks for: in which scope, and with what content. -/
def request? : Command → Option (Place × Content)
  | .bindBasic place attr values options generation =>
      some (place, ⟨attr.name,
        .basic { synthetic := attr.synthetic, options, values, generation }⟩)
  | .bindComponent place attr parentReference options =>
      some (place, ⟨attr.name,
        .composite { synthetic := attr.synthetic, options, parentReference, isVirtual := false }⟩)
  | .bindReference place attr options target targetAttribute values =>
      some (place, ⟨attr.name,
        .reference { synthetic := attr.synthetic, options, target, targetAttribute, values }⟩)
  | .bindCollection place attr element referenced options shape =>
      some (place, ⟨attr.name,
        .collection { nature := attr.nature, element, referenced, options, shape }⟩)
  | .bindVirtual id attr _ remarks =>
      some ({ entity := id }, ⟨attr.name, .composite (EntityMapping.virtualBody [] remarks)⟩)
  | .bindInverse id attr collection =>
      some ({ entity := id }, ⟨attr.name, .inverse { synthetic := true, collection }⟩)
  | .register place mapping => some (place, mapping.content)
  | _ => none

/-- What the command asks for in that scope. -/
def requestAt? (c : Command) (p : Place) : Option Content :=
  c.request?.bind fun request => if request.1 = p then some request.2 else none

/-- Whether the command binds a composite of its own, not one that groups what is there. -/
def bindsComponent : Command → Bool
  | .bindComponent .. => true
  | _ => false

end Command

/-- The id of the attribute that was registered, if one was. -/
def Answer.mapped? : Answer Reply → Option AttributeId
  | .ok (.mapped id) => some id
  | _ => none

theorem Answer.mapped?_eq_some_iff {x : Answer Reply} {id : AttributeId} :
    x.mapped? = some id ↔ x = .ok (.mapped id) := by
  unfold mapped?
  split <;> simp_all

namespace Model

/-- The commands that registered an attribute, each with the id that it answered. -/
def log (m : Model) : List Command → List (Command × AttributeId)
  | [] => []
  | c :: rest =>
      ((m.apply c).answer.mapped?.map fun id => (c, id)).toList ++ (m.apply c).state.log rest

@[simp] theorem log_nil (m : Model) : m.log [] = [] := rfl

@[simp] theorem log_cons (m : Model) (c : Command) (rest : List Command) :
    m.log (c :: rest) =
      ((m.apply c).answer.mapped?.map fun id => (c, id)).toList ++ (m.apply c).state.log rest :=
  rfl

theorem log_append (m : Model) (first second : List Command) :
    m.log (first ++ second) = m.log first ++ (m.after first).log second := by
  induction first generalizing m with
  | nil => rfl
  | cons c rest ih => rw [List.cons_append, log_cons, ih, log_cons, List.append_assoc, after_cons]

end Model

/-- What the commands registered in one scope, in order. -/
def history (log : List (Command × AttributeId)) (p : Place) : List Registration :=
  log.filterMap fun entry => (entry.1.requestAt? p).map fun content => ⟨entry.2, content⟩

namespace EntityMapping

variable {P : AttributeMapping → Prop} {e : EntityMapping} {scope : Scope}

theorem Enrols.of_answer {o : Outcome EntityMapping AttributeId} (h : e.Enrols P scope o)
    {id : AttributeId} (ha : o.answer = .ok id) :
    ∃ a replaced, P a ∧ a.id = e.nextId ∧ a.id = id ∧
      e.takenOver scope a.name = .ok replaced ∧ o = e.enrol scope a replaced := by
  cases h with
  | refused fault => cases ha
  | enrolled replaced hid hp htaken =>
    cases ha
    exact ⟨_, replaced, hp, hid, rfl, htaken, rfl⟩

end EntityMapping

namespace Model

variable {m : Model} {c : Command} {id : AttributeId} {p : Place}

/-- The attribute is what the command asks for in that scope. -/
structure Asked (c : Command) (p : Place) (a : AttributeMapping) : Prop where
  request : c.request? = some (p, a.content)
  /-- A component begins without parts. -/
  component : c.bindsComponent = true →
    ∃ b, a.composite? = some b ∧ b.partIds = [] ∧ b.positions = .empty

/-- The command enrols the attribute, which is what it asks for, in the scope that it names. -/
structure Registers (m : Model) (c : Command) (p : Place) (e : EntityMapping) (scope : Scope)
    (a : AttributeMapping) : Prop where
  asked : Asked c p a
  entity : m.entity? p.entity = some e
  opened : e.openScope p.composite = .ok scope
  id : a.id = e.nextId
  /-- What is reported is the attribute, and before it what it takes over in the scope. -/
  outcome : ∃ replaced, e.takenOver scope a.name = .ok replaced ∧
    m.apply c = ((e.enrol scope a replaced).within (m.putEntity p.entity)).map .mapped

theorem Registers.state {e : EntityMapping} {scope : Scope} {a : AttributeMapping}
    (h : m.Registers c p e scope a) :
    (m.apply c).state = m.putEntity p.entity (e.withAttribute scope a) := by
  obtain ⟨replaced, _, houtcome⟩ := h.outcome
  rw [houtcome]
  rfl

theorem Registers.entity?_after {e : EntityMapping} {scope : Scope} {a : AttributeMapping}
    (h : m.Registers c p e scope a) :
    (m.apply c).state.entity? p.entity = some (e.withAttribute scope a) := by
  rw [h.state, entity?_putEntity h.entity, if_pos rfl]

/-- An operation at a place that answers an id has enrolled an attribute of which all is known that
is known of those that it enrols. -/
theorem enrolled_onPlace {P : EntityMapping → AttributeMapping → Prop}
    {f : EntityMapping → Scope → Outcome EntityMapping AttributeId}
    (hc : m.apply c = (m.onPlace p f).map .mapped)
    (hf : ∀ (e : EntityMapping) scope, e.openScope p.composite = .ok scope →
      e.Enrols (P e) scope (f e scope))
    (h : (m.apply c).answer = .ok (.mapped id)) :
    ∃ e scope a, P e a ∧ a.id = id ∧ m.entity? p.entity = some e ∧
      e.openScope p.composite = .ok scope ∧ a.id = e.nextId ∧
      ∃ replaced, e.takenOver scope a.name = .ok replaced ∧
        m.apply c = ((e.enrol scope a replaced).within (m.putEntity p.entity)).map .mapped := by
  simp only [hc, onPlace, onEntity] at h
  cases he : m.entity? p.entity with
  | none =>
    rw [he] at h
    cases h
  | some e =>
    cases hs : e.openScope p.composite with
    | error fault =>
      simp only [he, hs] at h
      cases h
    | ok scope =>
      cases ha : (f e scope).answer with
      | error fault =>
        simp only [he, hs, Outcome.answer_map, Outcome.answer_within, ha] at h
        cases h
      | ok found =>
        simp only [he, hs, Outcome.answer_map, Outcome.answer_within, ha] at h
        cases h
        obtain ⟨a, replaced, hp, hid, hfound, htaken, houtcome⟩ := (hf e scope hs).of_answer ha
        refine ⟨e, scope, a, hp, hfound, rfl, hs, hid, replaced, htaken, ?_⟩
        simp only [hc, onPlace, onEntity, he, hs, houtcome]

theorem registers_onPlace {f : EntityMapping → Scope → Outcome EntityMapping AttributeId}
    (hc : m.apply c = (m.onPlace p f).map .mapped)
    (hf : ∀ (e : EntityMapping) scope, e.openScope p.composite = .ok scope →
      e.Enrols (Asked c p) scope (f e scope))
    (h : (m.apply c).answer = .ok (.mapped id)) :
    ∃ e scope a, a.id = id ∧ m.Registers c p e scope a := by
  obtain ⟨e, scope, a, hasked, hid, he, hs, hnext, houtcome⟩ :=
    enrolled_onPlace (P := fun _ => Asked c p) hc hf h
  exact ⟨e, scope, a, hid, hasked, he, hs, hnext, houtcome⟩

/-- Only a command that binds an attribute answers the id of one. -/
theorem ne_mapped_onEntity {α : Type} {x : EntityId}
    {f : EntityMapping → Outcome EntityMapping α} {reply : α → Reply}
    (hreply : ∀ r, reply r ≠ .mapped id) :
    ((m.onEntity x f).map reply).answer ≠ .ok (.mapped id) := by
  intro h
  cases ha : (m.onEntity x f).answer with
  | error fault =>
    rw [Outcome.answer_map, ha] at h
    cases h
  | ok r =>
    rw [Outcome.answer_map, ha] at h
    exact hreply r (Except.ok.inj h)

/-- A command that answers an id has enrolled what it asked for. -/
theorem registers_of_mapped (h : (m.apply c).answer = .ok (.mapped id)) :
    ∃ p e scope a, a.id = id ∧ m.Registers c p e scope a := by
  cases c with
  | addRoot inheritance mode => cases h
  | addChild parent =>
    simp only [apply, addChild] at h
    split at h <;> cases h
  | configureHierarchy k change =>
    simp only [apply, changeHierarchy] at h
    split at h <;> cases h
  | bindBasic place attr values options generation =>
    exact ⟨place, registers_onPlace rfl (fun e scope _ =>
      EntityMapping.enrols_register ⟨rfl, by simp [Command.bindsComponent]⟩) h⟩
  | bindComponent place attr parentReference options =>
    exact ⟨place, registers_onPlace rfl (fun e scope _ =>
      EntityMapping.enrols_register ⟨rfl, fun _ => ⟨_, rfl, rfl, rfl⟩⟩) h⟩
  | bindReference place attr options target targetAttribute values =>
    exact ⟨place, registers_onPlace rfl (fun e scope _ =>
      EntityMapping.enrols_register ⟨rfl, by simp [Command.bindsComponent]⟩) h⟩
  | bindCollection place attr element referenced options shape =>
    exact ⟨place, registers_onPlace rfl (fun e scope _ =>
      EntityMapping.enrols_bindCollection ⟨rfl, by simp [Command.bindsComponent]⟩) h⟩
  | bindVirtual x attr parts remarks =>
    refine ⟨{ entity := x }, registers_onPlace (f := fun e _ => e.bindVirtual attr parts remarks)
      rfl (fun e scope hs => ?_) h⟩
    cases hs
    refine EntityMapping.enrols_bindVirtual fun named _ => ⟨?_, by simp [Command.bindsComponent]⟩
    simp only [Command.request?, AttributeMapping.content, AttributeBody.bare,
      EntityMapping.virtualBody, CompositeBody.bare_foldl_appendPart]
    rfl
  | bindInverse x attr collection =>
    refine ⟨{ entity := x }, registers_onPlace (f := fun e _ => e.bindInverse attr collection)
      rfl (fun e scope hs => ?_) h⟩
    cases hs
    exact EntityMapping.enrols_bindInverse ⟨rfl, by simp [Command.bindsComponent]⟩
  | register place a =>
    exact ⟨place, registers_onPlace rfl (fun e scope _ =>
      EntityMapping.enrols_register ⟨rfl, by simp [Command.bindsComponent]⟩) h⟩
  | _ => exact absurd h (ne_mapped_onEntity (by simp))

end Model

end RelationalMapping
