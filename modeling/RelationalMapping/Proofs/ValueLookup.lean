import RelationalMapping.Proofs.OrderedScopes

/-!
Looking attributes up by their values. A scope goes through the attributes that it lists and takes
the first basic one with just the given values. Each lists them in a way of its own, and looks them
up in its listing (`locateByValues_eq`).

* `BoundTo`, `FirstBoundTo`: the basic attributes with given values, and the first of a list.
* `CurrentAt`: what is listed on an entity or in a component was registered last under its name, and
  registered there alone.
* `values_locate_first`: so it is with what is found by values, in every scope of every run.
-/

namespace RelationalMapping

namespace AttributeMapping

/-- The attribute is a basic one, bound to just these values in this order. -/
def BoundTo (a : AttributeMapping) (values : List RelationalValue) : Prop :=
  ∃ b, a.body = .basic b ∧ b.values.map BoundValue.value = values

variable {a : AttributeMapping} {as : List AttributeMapping} {values : List RelationalValue}

theorem any_holds_iff : (a.basic?.any fun b => b.holds values) = true ↔ a.BoundTo values := by
  obtain ⟨id, name, body⟩ := a
  cases body <;> simp [basic?, BoundTo, BasicBody.holds_iff]

theorem BoundTo.kind_eq (h : a.BoundTo values) : a.kind = .basic := by
  obtain ⟨b, hb, _⟩ := h
  rw [kind, hb]

/-- The first attribute of the list that is bound to these values. -/
def FirstBoundTo (as : List AttributeMapping) (values : List RelationalValue)
    (a : AttributeMapping) : Prop :=
  a.BoundTo values ∧
    ∃ before later, as = before ++ a :: later ∧ ∀ b ∈ before, ¬ b.BoundTo values

theorem find?_holds_eq_some_iff :
    (as.find? fun a => a.basic?.any fun b => b.holds values) = some a ↔
      FirstBoundTo as values a := by
  have hnot : ∀ b : AttributeMapping,
      (!(b.basic?.any fun b => b.holds values)) = true ↔ ¬ b.BoundTo values := by
    intro b
    rw [← any_holds_iff, Bool.not_eq_true', Bool.not_eq_true]
  simp only [List.find?_eq_some_iff_append, any_holds_iff, hnot, FirstBoundTo]

theorem find?_holds_eq_none_iff :
    (as.find? fun a => a.basic?.any fun b => b.holds values) = none ↔
      ∀ a ∈ as, ¬ a.BoundTo values := by
  simp only [List.find?_eq_none, any_holds_iff]

end AttributeMapping

namespace Model

variable {m : Model} {log : List (Command × AttributeId)} {p : Place} {e : EntityMapping}
  {scope : Scope} {as : List AttributeMapping} {a : AttributeMapping}

/-- The attribute is the last one that was registered under its name at that place, and it was
registered nowhere else. -/
structure CurrentAt (log : List (Command × AttributeId)) (p : Place) (a : AttributeMapping) :
    Prop where
  entity : a.id.entity = p.entity
  last : ((history log p).reverse.find? fun r => r.name == a.name) = some a.registration
  only : ∀ c q content, (c, a.id) ∈ log → c.request? = some (q, content) → q = p

theorem RepresentsAt.currentAt (f : Forest m) (r : Recorded m log) (h : m.RepresentsAt log p)
    (hopen : m.openPlace p = .ok (e, scope)) (has : e.listing scope = .ok as) (ha : a ∈ as) :
    CurrentAt log p a := by
  obtain ⟨e', scope', hopen', hrepresents⟩ := h
  cases hopen.symm.trans hopen'
  cases has.symm.trans hrepresents.listing_eq
  obtain ⟨s, hs, hstored⟩ := List.mem_filterMap.mp ha
  obtain ⟨b, hb, hreg⟩ := hrepresents.stored s hs
  cases hstored.symm.trans hb
  have hlast : ((history log p).reverse.find? fun r => r.name == a.name) = some a.registration := by
    rw [← hreg] at hs
    exact Registration.mem_latest_iff.mp hs
  have hx : e.id = p.entity := f.entity_id (openPlace_eq_ok_iff.mp hopen).1
  have hid : s.id = a.id := by rw [← hreg]; rfl
  refine ⟨?_, hlast, fun c q content hlog hrequest => ?_⟩
  · rw [← hid, (EntityMapping.stored?_eq_some_iff.mp hstored).1, hx]
  · have hmem : a.registration ∈ history log p :=
      List.mem_reverse.mp (List.mem_of_find?_eq_some hlast)
    obtain ⟨d, hentry, hasked⟩ := mem_history_iff.mp hmem
    -- no id was given out twice, so this is the same command
    have hsame : (c, a.id) = (d, a.id) :=
      List.inj_on_of_nodup_map r.ids hlog hentry rfl
    cases hsame
    rw [hrequest] at hasked
    exact congrArg Prod.fst (Option.some.inj hasked)

/-- After every run and in every scope, looking attributes up by values finds the first attribute of
the listing that is a basic one with just these values, and none exactly if there is none. On an
entity, and in a component that the run bound, what is found is the last that was registered under
its name, and was registered there alone. -/
theorem values_locate_first (collisions : NameCollision) (verifying : Bool)
    (commands : List Command) (p : Place) (e : EntityMapping) (scope : Scope)
    (hopen : ((fresh collisions verifying).after commands).openPlace p = .ok (e, scope))
    (values : List RelationalValue) :
    ∃ as found, e.listing scope = .ok as ∧ e.locateByValues scope values = .ok found ∧
      (∀ a, found = some a ↔ AttributeMapping.FirstBoundTo as values a) ∧
      (found = none ↔ ∀ a ∈ as, ¬ a.BoundTo values) ∧
      (Container (fresh collisions verifying) commands p → ∀ a, found = some a →
        a.kind = .basic ∧ CurrentAt ((fresh collisions verifying).log commands) p a) := by
  obtain ⟨he, hs⟩ := openPlace_eq_ok_iff.mp hopen
  have w : e.Indexed := indexed_after collisions verifying commands p.entity e he
  obtain ⟨as, has⟩ := w.listing_eq_ok (EntityMapping.opens_of_openScope hs)
  refine ⟨as, _, has, EntityMapping.locateByValues_eq has values,
    fun a => AttributeMapping.find?_holds_eq_some_iff, AttributeMapping.find?_holds_eq_none_iff,
    fun hp a ha => ?_⟩
  obtain ⟨hbound, _⟩ := AttributeMapping.find?_holds_eq_some_iff.mp ha
  exact ⟨hbound.kind_eq, hp.representsAt.currentAt
    (forest_after (forest_fresh collisions verifying) commands)
    (recorded_after collisions verifying commands) hopen has (List.mem_of_find?_eq_some ha)⟩

/-- The column of that name. -/
def spanColumn (name : String) : BoundValue := .written (.column ⟨"span", name⟩)

/-- The component of the run that follows. -/
def spanPlace : Place := { entity := ⟨0⟩, composite := some ⟨⟨0⟩, 0⟩ }

/-- An entity and a component on it are bound to the same column. In the component the column comes
under two names, and then under the first one once more. -/
def spanRun : List Command :=
  [.addRoot .none .object,
    .bindComponent { entity := ⟨0⟩ } ⟨"span", false⟩ none {},
    .bindBasic { entity := ⟨0⟩ } ⟨"start", false⟩ [spanColumn "start"] {} .never,
    .bindBasic spanPlace ⟨"start", false⟩ [spanColumn "start"] {} .never,
    .bindBasic spanPlace ⟨"begin", false⟩ [spanColumn "start"] {} .never,
    .bindBasic spanPlace ⟨"start", false⟩ [spanColumn "start"] {} .never]

/-- What is registered last, which has the first place of the component. -/
def lastStart : AttributeMapping :=
  { id := ⟨⟨0⟩, 4⟩
    name := "start"
    body := .basic
      { synthetic := false, options := {}, values := [spanColumn "start"], generation := .never } }

/-- In the component the column leads to it. -/
theorem values_locate_first_spanRun :
    Container (fresh .replace true) spanRun spanPlace ∧
      ∃ e as, ((fresh .replace true).after spanRun).openPlace spanPlace =
          .ok (e, .composite 0) ∧
        e.listing (.composite 0) = .ok as ∧
        as.map AttributeMapping.id = [⟨⟨0⟩, 4⟩, ⟨⟨0⟩, 3⟩] ∧
        e.locateByValues (.composite 0) [.column ⟨"span", "start"⟩] = .ok (some lastStart) ∧
        CurrentAt ((fresh .replace true).log spanRun) spanPlace lastStart := by
  have hbound : (.bindComponent { entity := ⟨0⟩ } ⟨"span", false⟩ none {}, ⟨⟨0⟩, 0⟩) ∈
      (fresh .replace true).log spanRun := List.mem_of_getElem? (i := 0) rfl
  have hp : Container (fresh .replace true) spanRun spanPlace := .component (by rfl) hbound
  obtain ⟨as, found, has, hfound, hfirst, _, hcurrent⟩ :=
    values_locate_first .replace true spanRun spanPlace _ (.composite 0) rfl
      [.column ⟨"span", "start"⟩]
  have hids : as.map AttributeMapping.id = [⟨⟨0⟩, 4⟩, ⟨⟨0⟩, 3⟩] := by
    cases has
    rfl
  have hlast : AttributeMapping.FirstBoundTo as [.column ⟨"span", "start"⟩] lastStart := by
    refine ⟨⟨_, rfl, rfl⟩, [], ?_⟩
    cases has
    exact ⟨_, rfl, by simp⟩
  obtain rfl := (hfirst lastStart).mpr hlast
  exact ⟨hp, _, as, rfl, has, hids, hfound, (hcurrent hp lastStart rfl).2⟩

end Model

end RelationalMapping
