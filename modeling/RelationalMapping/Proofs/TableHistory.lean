import RelationalMapping.Proofs.Independence
import RelationalMapping.Proofs.LastEntries

/-!
The tables of an entity, told by the calls that were made on it. Its primary table, the primary name
and its secondary tables are set apart from each other, in any order, and nothing else touches them.

* `tables_after`: over a run the tables change by the calls that were carried out, and by nothing
  else.
* `tables_recorded`: the last primary table, the last primary name, and the last secondary table of
  each logical name, in the order in which the names first came.
* `tables_located`: what a name leads to, after every run (`LocatesBy`).
-/

namespace RelationalMapping

/-- A secondary table is entered under the name of its table. -/
def SecondaryTable.logicalName (s : SecondaryTable) : String := s.table.logicalName

/-- What is recorded of an entity's tables. -/
structure Tables where
  primary : Option Table := none
  primaryName : Option String := none
  secondary : Roster SecondaryTable := .empty

/-- A call that changes the tables of an entity. -/
inductive TableCall where
  | primary (table : Table)
  | primaryName (name : String)
  | secondary (table : SecondaryTable)

namespace TableCall

def primary? : TableCall → Option Table
  | .primary table => some table
  | _ => none

def primaryName? : TableCall → Option String
  | .primaryName name => some name
  | _ => none

def secondary? : TableCall → Option SecondaryTable
  | .secondary table => some table
  | _ => none

def on (t : Tables) : TableCall → Tables
  | .primary table => { t with primary := some table }
  | .primaryName name => { t with primaryName := some name }
  | .secondary table => { t with secondary := t.secondary.enter table.logicalName table }

/-- The primary table that was set last. -/
def lastPrimary? (calls : List TableCall) : Option Table := (calls.filterMap primary?).getLast?

/-- The primary name that was set last. -/
def lastPrimaryName? (calls : List TableCall) : Option String :=
  (calls.filterMap primaryName?).getLast?

/-- The secondary tables, in the order of the calls. -/
def added (calls : List TableCall) : List SecondaryTable := calls.filterMap secondary?

/-- The distinct names of the secondary tables, in the order in which they first came. -/
def addedNames (calls : List TableCall) : List String :=
  ((added calls).map SecondaryTable.logicalName).eraseDups

/-- Each call leaves alone what the others set. -/
theorem tables_recorded (calls : List TableCall) :
    calls.foldl on {} =
      { primary := lastPrimary? calls
        primaryName := lastPrimaryName? calls
        secondary := Roster.keyed SecondaryTable.logicalName (added calls) } := by
  unfold lastPrimary? lastPrimaryName? added
  induction calls using List.reverseRecOn with
  | nil => rfl
  | append_singleton before last ih =>
    simp only [List.foldl_append, List.foldl_cons, List.foldl_nil, ih, List.filterMap_append]
    cases last <;>
      simp [on, primary?, primaryName?, secondary?, List.filterMap_cons, Roster.keyed_concat]

end TableCall

/-- The call on the tables of `x` that the command is. -/
def Command.tableCall? (x : EntityId) : Command → Option TableCall
  | .setPrimaryTable id table => if id = x then some (.primary table) else none
  | .setPrimaryTableName id name => if id = x then some (.primaryName name) else none
  | .addSecondaryTable id table => if id = x then some (.secondary table) else none
  | _ => none

namespace EntityMapping

def tables (e : EntityMapping) : Tables := ⟨e.primaryTable, e.primaryTableName, e.secondaryTables⟩

variable {given : AttributeMapping → Prop} {e : EntityMapping}

/-- No binding operation touches the tables. -/
theorem Bound.tables_eq {o : Outcome EntityMapping AttributeId} (h : Bound given e o) :
    o.state.tables = e.tables := by
  cases h with
  | refused fault => rfl
  | enrolled scope replaced hid hmade htaken => cases scope <;> rfl

end EntityMapping

namespace Model

variable {m : Model} {x : EntityId} {c : Command} {reply : Reply}

/-- The tables of the entity at that position, none where no entity stands. -/
def tables (m : Model) (x : EntityId) : Tables := (m.entity? x).elim {} EntityMapping.tables

theorem tables_of_entity? {e : EntityMapping} (he : m.entity? x = some e) :
    m.tables x = e.tables := by
  simp only [tables, he, Option.elim_some]

/-- The calls of a run on the tables of `x`, those left out that were refused. -/
def tableCalls (m : Model) (commands : List Command) (x : EntityId) : List TableCall :=
  (m.carriedOut commands).filterMap (Command.tableCall? x)

/-! ## One command -/

section

variable {α : Type} {y : EntityId} {f : EntityMapping → Outcome EntityMapping α} {tell : α → Reply}

/-- An operation on one entity that was carried out found it. -/
theorem tables_onEntity (change : Tables → Tables)
    (hf : ∀ e, (f e).state.tables = change e.tables)
    (hok : ((m.onEntity y f).map tell).answer = .ok reply) :
    ((m.onEntity y f).map tell).state.tables x =
      if y = x then change (m.tables x) else m.tables x := by
  rw [Outcome.state_map]
  split
  · rename_i heq
    subst heq
    cases he : m.entity? y with
    | none =>
      simp only [onEntity, he, Outcome.answer_map, Outcome.answer_refuse] at hok
      cases hok
    | some e =>
      have hlt : y.index < m.entities.length := index_lt_of_entity? (by simp [he])
      rw [state_onEntity_of_some he, tables_of_entity? (entity?_putEntity_self _ hlt), hf,
        tables_of_entity? he]
  · rename_i hne
    simp only [tables, entity?_onEntity_of_ne hne]

/-- An operation that does not touch the tables of its entity touches no others. -/
theorem tables_onEntity_unchanged (hf : ∀ e, (f e).state.tables = e.tables)
    (hok : ((m.onEntity y f).map tell).answer = .ok reply) :
    ((m.onEntity y f).map tell).state.tables x = m.tables x := by
  rw [tables_onEntity id hf hok]
  exact ite_self _

end

section

variable {y : EntityId} {p : Place}

theorem tables_bound {f : EntityMapping → Outcome EntityMapping AttributeId}
    (hf : ∀ e, EntityMapping.Bound (fun _ => True) e (f e))
    (hok : ((m.onEntity y f).map Reply.mapped).answer = .ok reply) :
    ((m.onEntity y f).map Reply.mapped).state.tables x = m.tables x :=
  tables_onEntity_unchanged (fun e => (hf e).tables_eq) hok

theorem tables_boundIn {f : EntityMapping → Scope → Outcome EntityMapping AttributeId}
    (hf : ∀ e scope, EntityMapping.Bound (fun _ => True) e (f e scope))
    (hok : ((m.onPlace p f).map Reply.mapped).answer = .ok reply) :
    ((m.onPlace p f).map Reply.mapped).state.tables x = m.tables x := by
  refine tables_bound (fun e => ?_) hok
  cases e.openScope p.composite with
  | error fault => exact .refused fault
  | ok scope => exact hf e scope

end

/-- A command that is carried out changes the tables by the call that it is, if it is one. -/
theorem tables_apply (hok : (m.apply c).answer = .ok reply) :
    (m.apply c).state.tables x =
      (c.tableCall? x).elim (m.tables x) (TableCall.on (m.tables x)) := by
  cases c with
  | addRoot inheritance mode => exact read_addRoot EntityMapping.tables rfl inheritance mode
  | addChild parent => exact read_addChild EntityMapping.tables (fun _ => rfl) fun _ _ => rfl
  | setPrimaryTable id table =>
    refine (tables_onEntity (TableCall.on · (.primary table)) (fun _ => rfl) hok).trans ?_
    simp only [Command.tableCall?]
    split <;> rfl
  | setPrimaryTableName id name =>
    refine (tables_onEntity (TableCall.on · (.primaryName name)) (fun _ => rfl) hok).trans ?_
    simp only [Command.tableCall?]
    split <;> rfl
  | addSecondaryTable id table =>
    refine (tables_onEntity (TableCall.on · (.secondary table)) (fun _ => rfl) hok).trans ?_
    simp only [Command.tableCall?]
    split <;> rfl
  | setType id type => exact tables_onEntity_unchanged (fun _ => rfl) hok
  | addFilter id filter => exact tables_onEntity_unchanged (fun _ => rfl) hok
  | addSynchronizedTables id names => exact tables_onEntity_unchanged (fun _ => rfl) hok
  | configureEntity id change => exact tables_onEntity_unchanged (fun _ => rfl) hok
  | configureHierarchy id change =>
    simp only [apply, changeHierarchy, Outcome.state_map]
    cases m.hierarchy? id <;> rfl
  | bindBasic place attr values options generation =>
    exact tables_boundIn (fun _ _ => EntityMapping.bound_bindBasic ..) hok
  | bindComponent place attr parentReference options =>
    exact tables_boundIn (fun _ _ => EntityMapping.bound_bindComponent ..) hok
  | bindReference place attr options target targetAttribute values =>
    exact tables_boundIn (fun _ _ => EntityMapping.bound_bindReference ..) hok
  | bindCollection place attr element referenced options shape =>
    exact tables_boundIn (fun _ _ => EntityMapping.bound_bindCollection ..) hok
  | bindVirtual id attr parts remarks =>
    exact tables_bound (fun _ => EntityMapping.bound_bindVirtual ..) hok
  | bindInverse id attr collection =>
    exact tables_bound (fun _ => EntityMapping.bound_bindInverse ..) hok
  | register place mapping =>
    exact tables_boundIn (fun _ _ => EntityMapping.bound_register (.inr trivial)) hok

/-! ## Runs -/

/-- Over a run the tables change by the calls that were carried out, in their order. -/
theorem tables_after (m : Model) (commands : List Command) (x : EntityId) :
    (m.after commands).tables x = (m.tableCalls commands x).foldl TableCall.on (m.tables x) := by
  induction commands generalizing m with
  | nil => rfl
  | cons c rest ih =>
    rw [after_cons, ih, tableCalls, tableCalls]
    cases hc : (m.apply c).answer with
    | ok reply =>
      simp only [carriedOut, hc, tables_apply hc, List.filterMap_cons]
      cases c.tableCall? x <;> rfl
    | error fault => simp only [carriedOut, hc, (step_apply m c).state_eq hc]

theorem tables_fresh (collisions : NameCollision) (verifying : Bool) (x : EntityId) :
    (fresh collisions verifying).tables x = {} := rfl

end Model

/-- A list of texts is written with each of them quoted. -/
theorem describeInline_texts (texts : List String) :
    describeInline texts = "[" ++ ", ".intercalate (texts.map Text.quoted) ++ "]" := by
  have hitems : Description.inlineItems (texts.map describe) = texts.map Text.quoted := by
    induction texts with
    | nil => rfl
    | cons text rest ih => rw [List.map_cons, Description.inlineItems, ih]; rfl
  rw [← hitems]
  rfl

/-- An inconsistency is reported with what it is before its text. -/
theorem message_inconsistent (i : Inconsistency) :
    (Fault.inconsistent i).message = "internal consistency failure: " ++ i.message := by
  have hchain : (Fault.inconsistent i).message =
      ": ".intercalate ["internal consistency failure: " ++ i.message] := rfl
  rw [hchain, String.intercalate_singleton]

theorem message_unknownTable (name : String) (known : List String) :
    (Fault.inconsistent (.unknownTable name known)).message =
      "internal consistency failure: Unable to find table " ++ name ++ " amongst tables [" ++
        ", ".intercalate (known.map Text.quoted) ++ "]" := by
  have hmessage : (Inconsistency.unknownTable name known).message =
      "Unable to find table " ++ name ++ " amongst tables " ++ describeInline known := rfl
  have hbefore : "internal consistency failure: Unable to find table " =
      "internal consistency failure: " ++ "Unable to find table " := by simp
  have hbetween : " amongst tables [" = " amongst tables " ++ "[" := by simp
  rw [message_inconsistent, hmessage, describeInline_texts, hbefore, hbetween]
  simp only [String.append_assoc]

namespace EntityMapping

variable {e : EntityMapping} {calls : List TableCall}

/-- No name and the primary name lead to the primary table, whatever the secondary ones are
called. -/
theorem locateTable_primary {name : Option String}
    (h : name = none ∨ name = e.primaryTableName) : e.locateTable name = e.requirePrimaryTable := by
  cases name with
  | none => rfl
  | some name =>
    have hprimary : e.primaryTableName = some name := (h.resolve_left (by simp)).symm
    simp only [locateTable, hprimary, if_true]

/-- Any other name is looked up among the secondary tables. -/
theorem locateTable_secondary {name : String} (h : e.primaryTableName ≠ some name) :
    e.locateTable (some name) =
      .require (.unknownTable name e.secondaryTables.names)
        ((e.secondaryTables.find? name).map SecondaryTable.table) := by
  simp only [locateTable, h, if_false]
  rfl

/-- The tables of the entity are those that the calls gave it. -/
structure LocatesBy (e : EntityMapping) (calls : List TableCall) : Prop where
  /-- No name and the primary name lead to the primary table, or to the report that there is
  none. -/
  primary : ∀ name, name = none ∨ name = TableCall.lastPrimaryName? calls →
    e.locateTable name = .require (.noPrimaryTable e.label) (TableCall.lastPrimary? calls)
  /-- Another name leads to the last secondary table of that logical name. -/
  secondary : ∀ name, TableCall.lastPrimaryName? calls ≠ some name → ∀ t,
    (e.locateTable (some name) = .ok t ↔
      ∃ s, LastUnder SecondaryTable.logicalName (TableCall.added calls) name s ∧ s.table = t)
  /-- It leads to a report just where no such table was added. -/
  unknown : ∀ name, TableCall.lastPrimaryName? calls ≠ some name → ∀ fault,
    (e.locateTable (some name) = .error fault ↔
      (∀ s ∈ TableCall.added calls, s.logicalName ≠ name) ∧
        fault = .inconsistent (.unknownTable name (TableCall.addedNames calls)))
  /-- The report lists the logical names in the order in which they first came. -/
  report : ∀ name, (Fault.inconsistent (.unknownTable name (TableCall.addedNames calls))).message =
    "internal consistency failure: Unable to find table " ++ name ++ " amongst tables [" ++
      ", ".intercalate ((TableCall.addedNames calls).map Text.quoted) ++ "]"
  /-- Each logical name has one secondary table, in the same order. -/
  order : e.secondaryTables.values.map SecondaryTable.logicalName = TableCall.addedNames calls
  latest : ∀ s ∈ e.secondaryTables.values,
    LastUnder SecondaryTable.logicalName (TableCall.added calls) s.logicalName s

theorem locatesBy_of_tables (h : e.tables = calls.foldl TableCall.on {}) : e.LocatesBy calls := by
  rw [TableCall.tables_recorded] at h
  obtain ⟨hprimary, hname, hsecondary⟩ := Tables.mk.inj h
  exact {
    primary := by
      intro name hwhich
      rw [locateTable_primary (hname ▸ hwhich), requirePrimaryTable, hprimary]
    secondary := by
      intro name hother t
      rw [locateTable_secondary (hname ▸ hother), hsecondary, Answer.require_eq_ok_iff,
        Option.map_eq_some_iff]
      simp only [Roster.find?_keyed_eq_some_iff]
    unknown := by
      intro name hother fault
      rw [locateTable_secondary (hname ▸ hother), hsecondary, Answer.require_eq_error_iff,
        Option.map_eq_none_iff, Roster.find?_keyed_eq_none_iff, Roster.names_keyed]
      rfl
    report := fun name => message_unknownTable name (TableCall.addedNames calls)
    order := by
      rw [hsecondary]
      exact Roster.map_values_keyed ..
    latest := by
      intro s hs
      rw [hsecondary] at hs
      exact Roster.mem_values_keyed_iff.mp hs }

end EntityMapping

namespace Model

/-- After every run a name leads to the table that the calls on the entity last gave it. -/
theorem tables_located (collisions : NameCollision) (verifying : Bool) (commands : List Command)
    (x : EntityId) {e : EntityMapping}
    (he : ((fresh collisions verifying).after commands).entity? x = some e) :
    e.LocatesBy ((fresh collisions verifying).tableCalls commands x) := by
  refine EntityMapping.locatesBy_of_tables ?_
  rw [← tables_of_entity? he, tables_after, tables_fresh]

/-- An entity gets a secondary table before it is there, which is refused. Afterwards its primary
name is set before its primary table, and secondary tables come under that name and twice under
another one. -/
def tablesRun : List Command :=
  [.addSecondaryTable ⟨0⟩ { table := { logicalName := "early" } },
    .addRoot .none .object,
    .setPrimaryTableName ⟨0⟩ "person",
    .addSecondaryTable ⟨0⟩ { table := { logicalName := "extra" } },
    .addSecondaryTable ⟨0⟩ { table := { logicalName := "person", schema := some "old" } },
    .setPrimaryTable ⟨0⟩ { logicalName := "people" },
    .addSecondaryTable ⟨0⟩ { table := { logicalName := "extra", schema := some "new" } }]

/-- The primary table stands before the secondary one of its name, and the last one of a name before
the first. -/
theorem tables_located_tablesRun :
    ∃ e, ((fresh .replace true).after tablesRun).entity? ⟨0⟩ = some e ∧
      e.locateTable (some "person") = .ok { logicalName := "people" } ∧
      e.locateTable (some "extra") = .ok { logicalName := "extra", schema := some "new" } ∧
      e.locateTable (some "early") =
        .error (.inconsistent (.unknownTable "early" ["extra", "person"])) ∧
      e.secondaryTables.values.map SecondaryTable.logicalName = ["extra", "person"] := by
  have hlocates : EntityMapping.LocatesBy _ _ :=
    tables_located .replace true tablesRun ⟨0⟩ (e := _) rfl
  refine ⟨_, rfl, hlocates.primary _ (.inr rfl), ?_, ?_, hlocates.order⟩
  · refine (hlocates.secondary "extra" (by decide) _).mpr ?_
    exact ⟨_, ⟨[_, _], [], rfl, rfl, by simp⟩, rfl⟩
  · exact (hlocates.unknown "early" (by decide) _).mpr ⟨by decide, rfl⟩

end Model

end RelationalMapping
