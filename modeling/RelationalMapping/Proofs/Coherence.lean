import RelationalMapping.Model.Command
import RelationalMapping.Proofs.Lineage
import RelationalMapping.Proofs.Nesting

/-!
Verification accepts exactly the models whose links hold together. Each check of a single link has
a condition of its own that it accepts (the `_eq_ok_iff` lemmas, which hold without a premise). The
attributes are the exception: the checks follow the parts of composites and need not come to an
end, so the condition for all reachable attributes (`AttributesHold`) is met in two halves.

* `Coherent`: the condition on a whole model, without mention of the order of the checks.
* `verify_eq_ok_iff`: where verification comes to an end, it accepts the coherent models.
-/

namespace RelationalMapping.Model

variable {m : Model} {e : EntityMapping} {a : AttributeMapping}

/-! ## The conditions -/

/-- The parent is there, lists the entity exactly once and shares its hierarchy. -/
def ParentHolds (m : Model) (e : EntityMapping) : Prop :=
  ∀ p, e.parent = some p →
    ∃ pe, m.entity? p = some pe ∧ pe.children.count e.id = 1 ∧ pe.hierarchy = e.hierarchy

/-- Every listed child is there and names the entity as its parent. -/
def ChildrenHold (m : Model) (e : EntityMapping) : Prop :=
  ∀ c ∈ e.children, ∃ ce, m.entity? c = some ce ∧ ce.parent = some e.id

/-- What `owner` stores can be seen from `target`: it is the target itself, or a walk up from the
target's position comes across it. -/
def Visible (m : Model) (target : EntityMapping) (owner : EntityId) : Prop :=
  owner = target.id ∨
    ∃ e a, m.entity? target.id = some e ∧ Above m e.parent a ∧ a.id = owner

/-- The condition that each kind of attribute has to meet. -/
def Holds (m : Model) (a : AttributeMapping) : Prop :=
  match a.body with
  | .basic _ => True
  | .composite c => ∀ id ∈ c.partIds, (m.attribute? id).isSome
  | .reference r =>
      ∃ target, m.entity? r.target = some target ∧ (m.attribute? r.targetAttribute).isSome ∧
        m.Visible target r.targetAttribute.entity
  | .inverse i => ∃ c, m.attribute? i.collection = some c ∧ c.isCollection = true
  | .collection c => (m.attribute? c.referenced).isSome

/-- The attributes that are declared on `e`, with the parts of composites at any depth. -/
inductive Reaches (m : Model) (e : EntityMapping) : AttributeMapping → Prop
  | declared {i : Nat} {a : AttributeMapping} (hi : i ∈ e.declared.values)
      (ha : e.store[i]? = some a) : Reaches m e a
  | part {a b : AttributeMapping} {id : AttributeId} (h : Reaches m e a) (hid : id ∈ a.partIds)
      (hb : m.attribute? id = some b) : Reaches m e b

def AttributesHold (m : Model) (e : EntityMapping) : Prop := ∀ a, m.Reaches e a → m.Holds a

/-- The root is there, is one and carries the hierarchy. -/
def RootHolds (m : Model) (h : Hierarchy) : Prop :=
  ∃ root, m.entity? h.root = some root ∧ root.parent = none ∧ root.hierarchy = h.id

def IdentifierHolds (m : Model) (h : Hierarchy) : Prop :=
  ∀ id, h.settings.identifier = some id → (m.attribute? id).isSome

/-- A version is a basic attribute. -/
def VersionHolds (m : Model) (h : Hierarchy) : Prop :=
  ∀ id, h.settings.version = some id →
    ∃ a, m.attribute? id = some a ∧ a.basic?.isSome

/-- The links between the entities and from their attributes, and what hierarchies say about their
roots and identifiers. -/
structure Connected (m : Model) : Prop where
  parents : ∀ e ∈ m.entities, m.ParentHolds e
  children : ∀ e ∈ m.entities, m.ChildrenHold e
  attributes : ∀ e ∈ m.entities, m.AttributesHold e
  roots : ∀ h ∈ m.hierarchies, m.RootHolds h
  identifiers : ∀ h ∈ m.hierarchies, m.IdentifierHolds h

/-- All links of the model hold. -/
structure Coherent (m : Model) : Prop extends Connected m where
  versions : ∀ h ∈ m.hierarchies, m.VersionHolds h

/-! ## The checks of single links -/

@[simp] theorem requireEntity_eq_ok_iff {referrer f : EntityMapping} {id : EntityId} :
    m.requireEntity referrer id = .ok f ↔ m.entity? id = some f :=
  Answer.require_eq_ok_iff

@[simp] theorem requireAttribute_eq_ok_iff {referrer : String} {id : AttributeId} :
    m.requireAttribute referrer id = .ok a ↔ m.attribute? id = some a :=
  Answer.require_eq_ok_iff

theorem verifyParent_eq_ok_iff : m.verifyParent e = .ok () ↔ m.ParentHolds e := by
  unfold verifyParent ParentHolds
  cases e.parent with
  | none => simp
  | some p => simp [Answer.bind_eq_ok_iff]

theorem verifyChildren_eq_ok_iff : m.verifyChildren e = .ok () ↔ m.ChildrenHold e := by
  unfold verifyChildren ChildrenHold
  rw [List.forM_eq_forM, Answer.forM_eq_ok_iff]
  simp [Answer.bind_eq_ok_iff]

theorem sees_eq_ok_true_iff {target : EntityMapping} {id : AttributeId} :
    m.sees target id = .ok true ↔ m.Visible target id.entity := by
  unfold sees Visible
  split
  · rename_i h
    exact iff_of_true rfl (.inl h)
  · rename_i h
    rw [any_ancestors_iff]
    simp [h]

theorem verifyReference_eq_ok_iff {name : String} {r : ReferenceBody} :
    m.verifyReference name r = .ok () ↔
      ∃ target, m.entity? r.target = some target ∧ (m.attribute? r.targetAttribute).isSome ∧
        m.Visible target r.targetAttribute.entity := by
  simp [verifyReference, Answer.bind_eq_ok_iff, ← sees_eq_ok_true_iff, Option.isSome_iff_exists]

theorem verifyInverse_eq_ok_iff {name : String} {i : InverseBody} :
    m.verifyInverse name i = .ok () ↔
      ∃ c, m.attribute? i.collection = some c ∧ c.isCollection = true := by
  simp [verifyInverse, Answer.bind_eq_ok_iff]

theorem verifyVersion_eq_ok_iff {root : EntityMapping} {id : AttributeId} :
    m.verifyVersion root id = .ok () ↔ ∃ a, m.attribute? id = some a ∧ a.basic?.isSome := by
  simp [verifyVersion, Answer.bind_eq_ok_iff]

/-- A check of what may be missing. -/
theorem forM_option_eq_ok_iff {α : Type} {o : Option α} {f : α → Answer Unit} {u : Unit} :
    o.forM f = .ok u ↔ ∀ a, o = some a → f a = .ok () := by
  cases o <;> simp [Option.forM, pure, Except.pure]

theorem discard_requireAttribute_eq_ok_iff {referrer : String} {id : AttributeId} {u : Unit} :
    discard (m.requireAttribute referrer id) = .ok u ↔ (m.attribute? id).isSome := by
  cases h : m.attribute? id <;>
    simp [requireAttribute, h, Answer.require, Answer.inconsistent, discard, Functor.discard,
      Functor.mapConst, Except.map]

theorem verifyHierarchy_eq_ok_iff {h : Hierarchy} :
    m.verifyHierarchy h = .ok () ↔ m.RootHolds h ∧ m.IdentifierHolds h ∧ m.VersionHolds h := by
  simp only [verifyHierarchy, Answer.bind_eq_ok_iff, Answer.require_eq_ok_iff,
    Answer.ensure_eq_ok_iff, forM_option_eq_ok_iff, verifyVersion_eq_ok_iff,
    discard_requireAttribute_eq_ok_iff]
  have hroot : ∀ root : EntityMapping,
      (root.isRoot && root.hierarchy == h.id) = true ↔
        root.parent = none ∧ root.hierarchy = h.id := by
    simp [EntityMapping.isRoot]
  simp only [hroot]
  constructor
  · rintro ⟨root, hr, _, hone, _, hidentifier, hversion⟩
    exact ⟨⟨root, hr, hone⟩, hidentifier, hversion⟩
  · rintro ⟨⟨root, hr, hone⟩, hidentifier, hversion⟩
    exact ⟨root, hr, (), hone, (), hidentifier, hversion⟩

/-! ## The attributes -/

/-- What is not a composite is checked without going further. -/
theorem verifyAttribute_eq_ok_iff {depth : Nat} (h : a.composite? = none) :
    m.verifyAttribute depth a = .ok () ↔ m.Holds a := by
  obtain ⟨id, name, body⟩ := a
  cases body with
  | basic b => simp [verifyAttribute, Holds]
  | composite c => cases h
  | reference r => simp [verifyAttribute, Holds, verifyReference_eq_ok_iff]
  | inverse i => simp [verifyAttribute, Holds, verifyInverse_eq_ok_iff]
  | collection c =>
    simp [verifyAttribute, Holds, Answer.bind_eq_ok_iff, Option.isSome_iff_exists, pure,
      Except.pure]

theorem holds_composite_iff {c : CompositeBody} (h : a.composite? = some c) :
    m.Holds a ↔ ∀ id ∈ a.partIds, (m.attribute? id).isSome := by
  obtain ⟨id, name, body⟩ := a
  cases AttributeMapping.composite?_eq_some_iff.mp h
  exact Iff.rfl

theorem holds_reference_iff {r : ReferenceBody} (h : a.reference? = some r) :
    m.Holds a ↔ ∃ target, m.entity? r.target = some target ∧
      (m.attribute? r.targetAttribute).isSome ∧ m.Visible target r.targetAttribute.entity := by
  obtain ⟨id, name, body⟩ := a
  cases body with
  | reference r' =>
    cases h
    exact Iff.rfl
  | _ => cases h

/-- The check of a composite goes on to its parts, one level less deep. -/
theorem verifyAttribute_part {depth : Nat} (h : m.verifyAttribute depth a = .ok ())
    {c : CompositeBody} (hc : a.composite? = some c) :
    ∀ id ∈ a.partIds, ∃ d b, m.attribute? id = some b ∧ m.verifyAttribute d b = .ok () := by
  intro id hid
  cases depth with
  | zero =>
    rw [verifyAttribute_composite_zero hc] at h
    cases h
  | succ d =>
    rw [verifyAttribute_composite_succ hc, Answer.forM_eq_ok_iff] at h
    obtain ⟨b, hb, hd⟩ := Answer.bind_eq_ok_iff.mp (h id hid)
    exact ⟨d, b, requireAttribute_eq_ok_iff.mp hb, hd⟩

theorem holds_of_verifyAttribute {depth : Nat} (h : m.verifyAttribute depth a = .ok ()) :
    m.Holds a := by
  cases hc : a.composite? with
  | none => exact (verifyAttribute_eq_ok_iff hc).mp h
  | some c =>
    refine (holds_composite_iff hc).mpr fun id hid => ?_
    obtain ⟨_, b, hb, _⟩ := verifyAttribute_part h hc id hid
    simp [hb]

theorem verifyEntity_eq_ok_iff {depth : Nat} :
    m.verifyEntity depth e = .ok () ↔ m.ParentHolds e ∧ m.ChildrenHold e ∧
      ∀ i ∈ e.declared.values, ∃ a, e.store[i]? = some a ∧
        m.verifyAttribute depth a = .ok () := by
  simp only [verifyEntity, Answer.bind_eq_ok_iff, List.forM_eq_forM, Answer.forM_eq_ok_iff,
    ← verifyParent_eq_ok_iff, ← verifyChildren_eq_ok_iff, EntityMapping.storedAt,
    Answer.atIndex_eq_ok_iff]
  constructor
  · rintro ⟨_, hp, _, hc, h⟩
    exact ⟨hp, hc, h⟩
  · rintro ⟨hp, hc, h⟩
    exact ⟨(), hp, (), hc, h⟩

/-- A check that goes through has gone through for all that is reached. Each link to a part takes
one level of the depth, so the depth cannot stay fixed. -/
theorem Reaches.exists_verifyAttribute {depth : Nat} (h : m.verifyEntity depth e = .ok ())
    (hr : m.Reaches e a) : ∃ d, m.verifyAttribute d a = .ok () := by
  obtain ⟨_, _, hdeclared⟩ := verifyEntity_eq_ok_iff.mp h
  induction hr with
  | declared hi ha =>
    obtain ⟨a', ha', hv⟩ := hdeclared _ hi
    rw [ha] at ha'
    cases ha'
    exact ⟨_, hv⟩
  | part _ hid hb ih =>
    obtain ⟨depth, hv⟩ := ih
    obtain ⟨c, hc⟩ := AttributeMapping.composite_of_mem_partIds hid
    obtain ⟨d, b', hb', hv'⟩ := verifyAttribute_part hv hc _ hid
    rw [hb] at hb'
    cases hb'
    exact ⟨d, hv'⟩

/-- What is accepted holds, and so does all that is reached from there. -/
theorem AttributesHold.of_verifyEntity {depth : Nat} (h : m.verifyEntity depth e = .ok ()) :
    m.AttributesHold e := by
  intro a hr
  obtain ⟨d, hv⟩ := hr.exists_verifyAttribute h
  exact holds_of_verifyAttribute hv

/-- Where all that is reached holds, the check reports nothing; it may still not come to an end. -/
theorem noReport_verifyAttribute (h : m.AttributesHold e) (depth : Nat) (hr : m.Reaches e a) :
    (m.verifyAttribute depth a).NoReport := by
  induction depth generalizing a with
  | zero =>
    cases hc : a.composite? with
    | none => exact .of_ok ⟨(), (verifyAttribute_eq_ok_iff hc).mpr (h a hr)⟩
    | some c =>
      rw [verifyAttribute_composite_zero hc]
      exact Answer.noReport_breach _
  | succ depth ih =>
    cases hc : a.composite? with
    | none => exact .of_ok ⟨(), (verifyAttribute_eq_ok_iff hc).mpr (h a hr)⟩
    | some c =>
      have hparts : ∀ id ∈ a.partIds, (m.attribute? id).isSome :=
        (holds_composite_iff hc).mp (h a hr)
      rw [verifyAttribute_composite_succ hc]
      intro i
      refine Answer.forM_ne_error fun id hid => ?_
      obtain ⟨b, hb⟩ := Option.isSome_iff_exists.mp (hparts id hid)
      have hfound : m.requireAttribute a.name id = .ok b := requireAttribute_eq_ok_iff.mpr hb
      rw [hfound]
      exact ih (.part hr hid hb) i

theorem noReport_verifyEntity (hp : m.ParentHolds e) (hc : m.ChildrenHold e)
    (ha : m.AttributesHold e) (depth : Nat) : (m.verifyEntity depth e).NoReport := by
  intro i
  rw [verifyEntity, verifyParent_eq_ok_iff.mpr hp, verifyChildren_eq_ok_iff.mpr hc]
  refine Answer.forM_ne_error fun j hj => ?_
  refine Answer.bind_ne_error (Answer.noReport_ofOption _ _ i) fun a hstored => ?_
  exact noReport_verifyAttribute ha depth (.declared hj (Answer.atIndex_eq_ok_iff.mp hstored)) i

/-! ## The whole model -/

theorem Coherent.of_verifyWithin {depth : Nat} (h : m.verifyWithin depth = .ok ()) :
    Coherent m := by
  simp only [verifyWithin, Answer.bind_eq_ok_iff, List.forM_eq_forM, Answer.forM_eq_ok_iff,
    verifyHierarchy_eq_ok_iff] at h
  obtain ⟨_, hentities, hhierarchies⟩ := h
  exact
    { parents := fun e he => (verifyEntity_eq_ok_iff.mp (hentities e he)).1
      children := fun e he => (verifyEntity_eq_ok_iff.mp (hentities e he)).2.1
      attributes := fun e he => .of_verifyEntity (hentities e he)
      roots := fun h hh => (hhierarchies h hh).1
      identifiers := fun h hh => (hhierarchies h hh).2.1
      versions := fun h hh => (hhierarchies h hh).2.2 }

theorem Coherent.noReport_verifyWithin (c : Coherent m) (depth : Nat) :
    (m.verifyWithin depth).NoReport := by
  intro i
  refine Answer.bind_ne_error (Answer.forM_ne_error fun e he => ?_) fun _ _ => ?_
  · exact noReport_verifyEntity (c.parents e he) (c.children e he) (c.attributes e he) depth i
  · refine Answer.forM_ne_error fun h hh => ?_
    have hok : m.verifyHierarchy h = .ok () :=
      verifyHierarchy_eq_ok_iff.mpr ⟨c.roots h hh, c.identifiers h hh, c.versions h hh⟩
    simp [hok]

/-- Whatever a model holds, if following its composites comes to an end at some depth and breaks
no terms on the way, then verification accepts the model exactly where it is coherent. -/
theorem verify_eq_ok_iff (m : Model) (depth : Nat) (hend : (m.verifyWithin depth).NoBreach) :
    m.verify = .ok () ↔ Coherent m := by
  rw [verify_eq_of_ends (hend .circular)]
  constructor
  · exact Coherent.of_verifyWithin
  · intro c
    exact Answer.eq_ok_of_noBreach_of_noReport hend (c.noReport_verifyWithin depth)

/-- A reference inside a composite to what the target inherits, and a hierarchy that names its
identifier and its version. -/
def linkedRun : List Command :=
  [.addRoot .joined .object,
    .addChild ⟨0⟩,
    .bindBasic { entity := ⟨0⟩ } ⟨"key", false⟩ [] {} .never,
    .bindComponent { entity := ⟨1⟩ } ⟨"owner", false⟩ none {},
    .bindReference { entity := ⟨1⟩, composite := some ⟨⟨1⟩, 0⟩ } ⟨"person", false⟩ {} ⟨1⟩
      ⟨⟨0⟩, 0⟩ [],
    .configureHierarchy ⟨0⟩ fun s =>
      { s with identifier := some ⟨⟨0⟩, 0⟩, version := some ⟨⟨0⟩, 0⟩ }]

theorem coherent_linkedRun :
    (((fresh .reject true).after linkedRun).verifyWithin 1).NoBreach ∧
      Coherent ((fresh .reject true).after linkedRun) := by
  have hend : (((fresh .reject true).after linkedRun).verifyWithin 1).NoBreach :=
    .of_ok ⟨(), rfl⟩
  exact ⟨hend, (verify_eq_ok_iff _ 1 hend).mp rfl⟩

/-- A root without attributes whose hierarchy names a version that does not exist. -/
def danglingVersion : Model :=
  (fresh .replace true).after
    [.addRoot .singleTable .object,
      .configureHierarchy ⟨0⟩ fun s => { s with version := some ⟨⟨0⟩, 5⟩ }]

/-- The connections alone are not enough: versions are checked too. -/
theorem connected_danglingVersion :
    danglingVersion.verify.NoBreach ∧ Connected danglingVersion ∧
      danglingVersion.verify ≠ .ok () := by
  have hreport : danglingVersion.verify =
      .error (.inconsistent (.missingAttribute "version" ⟨⟨0⟩, 5⟩)) := rfl
  have hroot : ∀ e ∈ danglingVersion.entities,
      e = { id := ⟨0⟩, parent := none, hierarchy := ⟨0⟩, collisions := .replace } :=
    fun _ he => List.mem_singleton.mp he
  have hnothing : ∀ e ∈ danglingVersion.entities, ∀ a, ¬ danglingVersion.Reaches e a := by
    intro e he a hr
    induction hr with
    | declared hi _ =>
      rw [hroot e he] at hi
      cases hi
    | part _ _ _ ih => exact ih
  refine ⟨by simp [Answer.NoBreach, hreport], ?_, by simp [hreport]⟩
  constructor
  case parents =>
    intro e he p hp
    rw [hroot e he] at hp
    cases hp
  case children =>
    intro e he c hc
    rw [hroot e he] at hc
    cases hc
  case attributes => exact fun e he a hr => absurd hr (hnothing e he a)
  case roots =>
    intro h hh
    rw [List.mem_singleton.mp hh]
    exact ⟨_, rfl, rfl, rfl⟩
  case identifiers =>
    intro h hh id hid
    rw [List.mem_singleton.mp hh] at hid
    cases hid

end RelationalMapping.Model
