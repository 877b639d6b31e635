import Mathlib.Algebra.GroupWithZero.Nat
import RelationalMapping.Model.Closure
import RelationalMapping.Proofs.Coherence
import RelationalMapping.Proofs.Descent
import RelationalMapping.Proofs.OrderedScopes

/-!
The attributes around an entity: those of its lineage, its own, and those of its descendants. The
walks up and down come across each entity once, and each entity lists what was last registered on
it under each name, so the attributes are found once each, and no others are.

* `Forest.above_lt`: who is above comes before, so no entity is met on both walks.
* `tree_attributes_listing`: what is found around an entity after a run, in order and counted.
-/

namespace RelationalMapping

namespace Model

variable {m : Model} {x y : EntityId} {e f : EntityMapping} {up : List EntityMapping}
  {t : Offspring} {log : List (Command × AttributeId)}

/-! ## Around an entity -/

theorem Forest.above_lt (fo : Forest m) (he : m.entity? x = some e) {a : EntityMapping}
    (h : Above m e.parent a) : a.id.index < x.index := by
  generalize ho : e.parent = o at h
  induction h generalizing x e with
  | here ha =>
    have hlt := fo.parent_lt he ho
    rwa [fo.entity_id ha]
  | up hp _ ih =>
    have hlt := fo.parent_lt he ho
    exact Nat.lt_trans (ih hp rfl) hlt

/-- The descendants are those that the entity is above of. -/
theorem Forest.mem_topDown_iff (fo : Forest m) (he : m.entity? x = some e)
    (ht : Unfolds m e.children t) (hf : m.entity? y = some f) :
    f ∈ t.topDown ↔ Above m f.parent e := by
  obtain ⟨above, _, hl, _⟩ := fo.lineage hf
  have hcount := fo.linked.count_topDown he ht hf hl
  have hdown : f ∈ t.topDown ↔ y ∈ t.topDown.map EntityMapping.id := by
    constructor
    · exact fun h => List.mem_map.mpr ⟨f, h, fo.entity_id hf⟩
    · intro h
      obtain ⟨g, hg, hid⟩ := List.mem_map.mp h
      have hlook := ht.lookup_mem fo.linked g hg
      rw [hid, hf] at hlook
      exact Option.some.inj hlook ▸ hg
  have hup : e ∈ above ↔ x ∈ above.map EntityMapping.id := by
    constructor
    · exact fun h => List.mem_map.mpr ⟨e, h, fo.entity_id he⟩
    · intro h
      obtain ⟨g, hg, hid⟩ := List.mem_map.mp h
      obtain ⟨p, hp⟩ := hl.exists_lookup g hg
      rw [← fo.entity_id hp, hid, he] at hp
      exact Option.some.inj hp ▸ hg
  rw [hdown, ← hl.mem_iff, hup, ← List.count_pos_iff, hcount, List.count_pos_iff]

/-- All entities around one of them: its lineage from the root on, itself, and its descendants with
every parent before those below it. -/
def around (e : EntityMapping) (up : List EntityMapping) (t : Offspring) : List EntityMapping :=
  up.reverse ++ e :: t.topDown

/-- The walks up and down from an entity, and what they come across. -/
structure Around (m : Model) (x : EntityId) (e : EntityMapping) (up : List EntityMapping)
    (t : Offspring) : Prop where
  lineage : Lineage m e.parent up
  below : Unfolds m e.children t
  ancestors : (m.ancestors x).all = .ok up
  descendants : (m.descendantsTopDown x).all = .ok t.topDown

theorem Forest.exists_around (fo : Forest m) (he : m.entity? x = some e) :
    ∃ up t, Around m x e up t := by
  obtain ⟨up, _, hl, _⟩ := fo.lineage he
  obtain ⟨t, ht⟩ := fo.linked.exists_offspring he
  refine ⟨up, t, hl, ht, all_ancestors_iff.mpr ⟨e, he, hl⟩, ?_⟩
  rw [fo.linked.descendantsTopDown_eq he ht]
  rfl

namespace Around

variable (r : Around m x e up t) (fo : Forest m) (he : m.entity? x = some e)
include r fo he

/-- Every entity around is there, found under its own id. -/
theorem lookup : ∀ f ∈ around e up t, m.entity? f.id = some f := by
  intro f hf
  rcases List.mem_append.mp hf with hf | hf
  · obtain ⟨p, hp⟩ := r.lineage.exists_lookup f (List.mem_reverse.mp hf)
    rw [fo.entity_id hp, hp]
  · rcases List.mem_cons.mp hf with rfl | hf
    · rw [fo.entity_id he, he]
    · exact r.below.lookup_mem fo.linked f hf

theorem mem_iff (hf : m.entity? y = some f) :
    f ∈ around e up t ↔ f = e ∨ Above m e.parent f ∨ Above m f.parent e := by
  rw [around, List.mem_append, List.mem_reverse, List.mem_cons, r.lineage.mem_iff,
    fo.mem_topDown_iff he r.below hf]
  constructor
  · rintro (h | rfl | h)
    · exact .inr (.inl h)
    · exact .inl rfl
    · exact .inr (.inr h)
  · rintro (rfl | h | h)
    · exact .inr (.inl rfl)
    · exact .inl h
    · exact .inr (.inr h)

/-- No entity is met twice: those above come before, and those below come after. -/
theorem nodup : ((around e up t).map EntityMapping.id).Nodup := by
  have hup := List.nodup_cons.mp (fo.linked.nodup_lineage he r.lineage)
  have hdown := fo.linked.nodup_topDown he r.below
  rw [around, List.map_append, List.map_reverse, List.map_cons, fo.entity_id he,
    List.nodup_append]
  refine ⟨List.nodup_reverse.mpr hup.2, hdown, fun i hi j hj heq => ?_⟩
  subst heq
  obtain ⟨a, ha, rfl⟩ := List.mem_map.mp (List.mem_reverse.mp hi)
  have hbefore : a.id.index < x.index := fo.above_lt he (r.lineage.mem_iff.mp ha)
  rcases List.mem_cons.mp hj with hsame | hj
  · rw [hsame] at hbefore
    omega
  · obtain ⟨b, hb, hid⟩ := List.mem_map.mp hj
    have hlook := r.below.lookup_mem fo.linked b hb
    have hafter : e.id.index < b.id.index :=
      fo.above_lt hlook ((fo.mem_topDown_iff he r.below hlook).mp hb)
    rw [hid, fo.entity_id he] at hafter
    omega

/-- Around a root is its whole tree. -/
theorem whole (hroot : e.parent = none) (hf : m.entity? y = some f)
    (hsame : f.hierarchy = e.hierarchy) : f ∈ around e up t := by
  obtain ⟨k, hk, hkx⟩ := fo.root_recorded he hroot
  obtain ⟨above, h, hl, hh, htop⟩ := fo.lineage hf
  rw [hsame, hk] at hh
  cases hh
  refine (r.mem_iff fo he hf).mpr ?_
  cases hlast : above.getLast? with
  | none =>
    have hyx : y = x := by simpa [hlast, hkx] using htop
    rw [hyx, he] at hf
    exact .inl (Option.some.inj hf).symm
  | some g =>
    have hid : g.id = x := by simpa [hlast, hkx] using htop
    have hg : g ∈ above := List.mem_of_getLast? hlast
    obtain ⟨p, hp⟩ := hl.exists_lookup g hg
    rw [← fo.entity_id hp, hid, he] at hp
    cases hp
    exact .inr (.inr (hl.mem_iff.mp hg))

end Around

/-! ## What they list -/

/-- The attributes last registered on the entity, one for each name. -/
def lastDeclared (log : List (Command × AttributeId)) (f : EntityMapping) :
    List AttributeMapping :=
  (Registration.latest (history log { entity := f.id })).filterMap fun r => f.stored? r.id

/-- The entity represents what the log has registered on it. -/
abbrev Declares (log : List (Command × AttributeId)) (f : EntityMapping) : Prop :=
  f.Represents .entity (Registration.latest (history log { entity := f.id }))

theorem Recorded.declares (r : Recorded m log) (hf : m.entity? f.id = some f) :
    Declares log f := by
  obtain ⟨g, scope, hopen, hrepresents⟩ := r.entities f.id (by simp [hf])
  rw [openPlace_entity hf] at hopen
  cases hopen
  exact hrepresents

theorem Recorded.exists_around (r : Recorded m log) (fo : Forest m) (he : m.entity? x = some e) :
    ∃ up t, Around m x e up t ∧ ∀ f ∈ around e up t, Declares log f := by
  obtain ⟨up, t, ha⟩ := fo.exists_around he
  exact ⟨up, t, ha, fun f hf => r.declares (ha.lookup fo he f hf)⟩

theorem mapM_attributes {fs : List EntityMapping} (h : ∀ f ∈ fs, Declares log f) :
    fs.mapM EntityMapping.attributes = .ok (fs.map (lastDeclared log)) := by
  have hall := Answer.mapM_eq_ok_filterMap (l := fs) (k := id) (f := EntityMapping.attributes)
    (g := fun f => some (lastDeclared log f)) fun f hf => ⟨_, (h f hf).listing_eq, rfl⟩
  rwa [List.map_id, List.filterMap_eq_map'] at hall

/-- Each entity lists as many attributes as it counts. -/
theorem length_lastDeclared {fs : List EntityMapping} (h : ∀ f ∈ fs, Declares log f) :
    (fs.flatMap (lastDeclared log)).length = (fs.map EntityMapping.span).sum := by
  have hspan : ∀ f ∈ fs, (lastDeclared log f).length = f.span := by
    intro f hf
    have hcount : f.scopeSpan .entity = .ok _ := (h f hf).scopeSpan_eq
    have hlen := congrArg List.length (h f hf).map_registration
    rw [List.length_map] at hlen
    exact hlen.trans (Except.ok.inj hcount).symm
  rw [List.length_flatMap, List.map_congr_left hspan]

namespace Around

variable (r : Around m x e up t) (fo : Forest m) (he : m.entity? x = some e)
  (hd : ∀ f ∈ around e up t, Declares log f)
include r fo he hd

theorem attributeClosure_eq :
    m.attributeClosure x = .ok ((up.reverse ++ [e]).flatMap (lastDeclared log)) := by
  have hget : m.getEntity x = .ok e := Answer.ofOption_eq_ok_iff.mpr he
  have hup : (m.ancestors e.id).all = .ok up := by
    rw [fo.entity_id he]
    exact r.ancestors
  have hlists : (up.reverse ++ [e]).mapM EntityMapping.attributes =
      .ok ((up.reverse ++ [e]).map (lastDeclared log)) := by
    refine mapM_attributes fun f hf => hd f ?_
    rw [around, List.append_cons]
    exact List.mem_append_left _ hf
  simp only [attributeClosure, hget, hup, hlists, bind, Except.bind, pure, Except.pure,
    List.flatMap_def]

theorem treeAttributes_eq :
    m.treeAttributes x = .ok ((around e up t).flatMap (lastDeclared log)) := by
  have hlists : t.topDown.mapM EntityMapping.attributes =
      .ok (t.topDown.map (lastDeclared log)) := by
    refine mapM_attributes fun f hf => hd f ?_
    exact List.mem_append_right _ (List.mem_cons_of_mem _ hf)
  have hsplit : (around e up t).flatMap (lastDeclared log) =
      (up.reverse ++ [e]).flatMap (lastDeclared log) ++
        (t.topDown.map (lastDeclared log)).flatten := by
    rw [around, List.append_cons, List.flatMap_append, ← List.flatMap_def]
  rw [hsplit]
  simp only [treeAttributes, r.attributeClosure_eq fo he hd, r.descendants, hlists, bind,
    Except.bind, pure, Except.pure]

omit r fo he in
/-- The registrations are those of the entities, one entity after the other. -/
theorem map_registration_eq : ((around e up t).flatMap (lastDeclared log)).map
      AttributeMapping.registration =
    (around e up t).flatMap fun f => Registration.latest (history log { entity := f.id }) := by
  rw [List.map_flatMap]
  exact List.flatMap_congr fun f hf => (hd f hf).map_registration

/-- Attributes of different entities have different ids, and no entity lists one twice. -/
theorem nodup_ids :
    (((around e up t).flatMap (lastDeclared log)).map AttributeMapping.id).Nodup := by
  have hids : ((around e up t).flatMap (lastDeclared log)).map AttributeMapping.id =
      (around e up t).flatMap fun f =>
        (Registration.latest (history log { entity := f.id })).map Registration.id := by
    rw [← Registration.map_id_registration, map_registration_eq hd, List.map_flatMap]
  rw [hids, List.nodup_flatMap]
  refine ⟨fun f hf => (hd f hf).nodup_ids, ?_⟩
  have hdistinct : (around e up t).Pairwise fun f g => f.id ≠ g.id :=
    List.pairwise_map.mp (r.nodup fo he)
  refine hdistinct.imp_of_mem fun {f g} hf hg hne => ?_
  have howner : ∀ f ∈ around e up t, ∀ id ∈
      (Registration.latest (history log { entity := f.id })).map Registration.id,
      id.entity = f.id := by
    intro f hf id hid
    obtain ⟨s, hs, rfl⟩ := List.mem_map.mp hid
    obtain ⟨a, ha, _⟩ := (hd f hf).stored s hs
    exact (EntityMapping.stored?_eq_some_iff.mp ha).1
  intro id hid hid'
  exact hne ((howner f hf id hid).symm.trans (howner g hg id hid'))

theorem mem_attributes_iff {a : AttributeMapping} :
    a ∈ (around e up t).flatMap (lastDeclared log) ↔ ∃ f, m.entity? a.id.entity = some f ∧
      f.locate .entity a.name = .ok (some a) ∧
      (f = e ∨ Above m e.parent f ∨ Above m f.parent e) := by
  rw [List.mem_flatMap]
  constructor
  · rintro ⟨f, hf, ha⟩
    have hlook := r.lookup fo he f hf
    obtain ⟨s, hs, hstored⟩ := List.mem_filterMap.mp ha
    obtain ⟨hentity, _⟩ := EntityMapping.stored?_eq_some_iff.mp hstored
    obtain ⟨b, hb, hreg⟩ := (hd f hf).stored s hs
    rw [hstored] at hb
    cases hb
    have hid : a.id.entity = f.id := by rw [← hentity, ← hreg]; rfl
    exact ⟨f, hid ▸ hlook, (hd f hf).mem_listing_iff.mp ha, (r.mem_iff fo he hlook).mp hf⟩
  · rintro ⟨f, hlook, hlocate, haround⟩
    have hf : f ∈ around e up t := (r.mem_iff fo he hlook).mpr haround
    exact ⟨f, hf, (hd f hf).mem_listing_iff.mpr hlocate⟩

omit r fo he in
theorem length_eq : ((around e up t).flatMap (lastDeclared log)).length =
    e.span + (up.map EntityMapping.span).sum + (t.topDown.map EntityMapping.span).sum := by
  rw [length_lastDeclared hd, around, List.map_append,
    List.map_reverse, List.sum_append, List.sum_reverse, List.map_cons, List.sum_cons]
  omega

omit hd in
theorem attributeClosureSpan_eq :
    m.attributeClosureSpan x = .ok (e.span + (up.map EntityMapping.span).sum) := by
  have hget : m.getEntity x = .ok e := Answer.ofOption_eq_ok_iff.mpr he
  have hup : (m.ancestors e.id).all = .ok up := by
    rw [fo.entity_id he]
    exact r.ancestors
  simp only [attributeClosureSpan, hget, hup, bind, Except.bind, pure, Except.pure]
  exact congrArg Except.ok List.foldl_eq_apply_foldr

end Around

/-! ## What they leave out -/

/-- An id that is listed was given out for an entity itself, and for the last time under its
name. -/
theorem Recorded.eq_of_listed (r : Recorded m log) {entry : Command × AttributeId}
    (hentry : entry ∈ log) {fs : List EntityMapping}
    (hid : entry.2 ∈ (fs.flatMap fun f =>
      Registration.latest (history log { entity := f.id })).map Registration.id) :
    ∃ y content, entry.1.request? = some ({ entity := y }, content) ∧
      ⟨entry.2, content⟩ ∈ Registration.latest (history log { entity := y }) := by
  obtain ⟨s, hs, hsid⟩ := List.mem_map.mp hid
  obtain ⟨f, _, hs⟩ := List.mem_flatMap.mp hs
  have hin : s ∈ history log { entity := f.id } :=
    List.mem_reverse.mp (List.mem_of_find?_eq_some (Registration.mem_latest_iff.mp hs))
  obtain ⟨c, hc, hrequest⟩ := mem_history_iff.mp hin
  have hsame : (c, s.id) = entry := List.inj_on_of_nodup_map r.ids hc hentry hsid
  subst hsame
  exact ⟨f.id, s.content, hrequest, hs⟩

/-- What was registered under a name that was registered there again later is not the last. -/
theorem Recorded.not_mem_latest {before later : List (Command × AttributeId)}
    {entry other : Command × AttributeId} (r : Recorded m (before ++ entry :: later)) {p : Place}
    {content again : Content} (hother : other ∈ later)
    (hagain : other.1.request? = some (p, again)) (hname : again.name = content.name) :
    ⟨entry.2, content⟩ ∉ Registration.latest (history (before ++ entry :: later) p) := by
  intro hlast
  have hfind := Registration.mem_latest_iff.mp hlast
  have hsplit : history (before ++ entry :: later) p =
      history (before ++ [entry]) p ++ history later p := by
    rw [List.append_cons]
    exact List.filterMap_append
  have hmem : content.name ∈ (history later p).map Registration.name := by
    have hin : (⟨other.2, again⟩ : Registration) ∈ history later p :=
      mem_history_iff.mpr ⟨other.1, hother, hagain⟩
    exact List.mem_map.mpr ⟨_, hin, hname⟩
  obtain ⟨s, hs, _⟩ := Registration.find?_reverse_of_mem hmem
  have hsame : s = ⟨entry.2, content⟩ := by
    rw [hsplit, List.reverse_append, List.find?_append] at hfind
    have hname : (⟨entry.2, content⟩ : Registration).name = content.name := rfl
    rw [hname, hs] at hfind
    exact Option.some.inj hfind
  -- so the same id was given out again later
  have hlater : s ∈ history later p := List.mem_reverse.mp (List.mem_of_find?_eq_some hs)
  obtain ⟨c, hc, _⟩ := mem_history_iff.mp hlater
  have hids := r.ids
  rw [List.map_append, List.map_cons, List.nodup_append] at hids
  refine (List.nodup_cons.mp hids.2.1).1 (List.mem_map.mpr ⟨_, hc, ?_⟩)
  rw [hsame]

/-! ## After a run -/

/-- What is found around an entity, by what the log has registered. -/
structure TreeListing (m : Model) (log : List (Command × AttributeId)) (x : EntityId)
    (e : EntityMapping) (up : List EntityMapping) (t : Offspring)
    (as : List AttributeMapping) : Prop extends Around m x e up t where
  found : m.treeAttributes x = .ok as
  /-- One entity after the other, from the root to the entity and on to its descendants with every
  parent first: on each, for each name the last registration, in the order of the first. -/
  order : as.map AttributeMapping.registration =
    (up.reverse ++ e :: t.topDown).flatMap fun f =>
      Registration.latest (history log { entity := f.id })
  once : (as.map AttributeMapping.id).Nodup
  /-- Just what its own name leads to, on the entity, on one above it or on one below it. -/
  mem_iff : ∀ a, a ∈ as ↔ ∃ f, m.entity? a.id.entity = some f ∧
    f.locate .entity a.name = .ok (some a) ∧ (f = e ∨ Above m e.parent f ∨ Above m f.parent e)
  /-- Nothing that was registered in a composite. -/
  inside : ∀ entry ∈ log, ∀ p content, entry.1.request? = some (p, content) →
    p.composite.isSome → entry.2 ∉ as.map AttributeMapping.id
  /-- Nothing under whose name something was registered in its place. -/
  replaced : ∀ before entry later, log = before ++ entry :: later →
    ∀ p content, entry.1.request? = some (p, content) →
      ∀ other ∈ later, ∀ again, other.1.request? = some (p, again) →
        again.name = content.name → entry.2 ∉ as.map AttributeMapping.id
  span : ∃ n, m.attributeClosureSpan x = .ok n ∧
    as.length = n + (t.topDown.map EntityMapping.span).sum
  /-- From a root, whatever is declared in its hierarchy. -/
  whole : e.parent = none → ∀ y f, m.entity? y = some f → f.hierarchy = e.hierarchy →
    ∀ n a, f.locate .entity n = .ok (some a) → a ∈ as

theorem Recorded.treeListing (r : Recorded m log) (fo : Forest m) (he : m.entity? x = some e) :
    ∃ up t, TreeListing m log x e up t ((around e up t).flatMap (lastDeclared log)) := by
  obtain ⟨up, t, ha, hd⟩ := r.exists_around fo he
  have hids : ((around e up t).flatMap (lastDeclared log)).map AttributeMapping.id =
      ((around e up t).flatMap fun f =>
        Registration.latest (history log { entity := f.id })).map Registration.id := by
    rw [← Registration.map_id_registration, Around.map_registration_eq hd]
  refine ⟨up, t, ?_⟩
  constructor
  case toAround => exact ha
  case found => exact ha.treeAttributes_eq fo he hd
  case order => exact Around.map_registration_eq hd
  case once => exact ha.nodup_ids fo he hd
  case mem_iff => exact fun a => ha.mem_attributes_iff fo he hd
  case span => exact ⟨_, ha.attributeClosureSpan_eq fo he, Around.length_eq hd⟩
  case inside =>
    intro entry hentry p content hrequest hcomposite hid
    obtain ⟨y, _, hentity, _⟩ := r.eq_of_listed hentry (hids ▸ hid)
    rw [hrequest] at hentity
    cases hentity
    cases hcomposite
  case replaced =>
    intro before entry later hlog p content hrequest other hother again hagain hname hid
    have hentry : entry ∈ log := by simp [hlog]
    obtain ⟨y, _, hentity, hlast⟩ := r.eq_of_listed hentry (hids ▸ hid)
    rw [hrequest] at hentity
    cases hentity
    subst hlog
    exact r.not_mem_latest hother hagain hname hlast
  case whole =>
    intro hroot y f hf hsame n a hlocate
    have haround : f ∈ around e up t := ha.whole fo he hroot hf hsame
    exact List.mem_flatMap.mpr ⟨f, haround, (hd f haround).mem_listing_of_locate hlocate⟩

/-- After every run, the attributes found around an entity are those last registered under their
names on an entity of its lineage, on the entity or on one of its descendants, each of them once, in
that order, and no others: none that was replaced, none that is only part of a composite, and none
of an entity that is neither above nor below. There are as many as the lineage and the descendants
count, and from a root the whole hierarchy is covered. -/
theorem tree_attributes_listing (collisions : NameCollision) (verifying : Bool)
    (commands : List Command) (x : EntityId) (e : EntityMapping)
    (he : ((fresh collisions verifying).after commands).entity? x = some e) :
    ∃ up t as, TreeListing ((fresh collisions verifying).after commands)
      ((fresh collisions verifying).log commands) x e up t as := by
  have fo : Forest ((fresh collisions verifying).after commands) :=
    forest_after (forest_fresh collisions verifying) commands
  obtain ⟨up, t, h⟩ := (recorded_after collisions verifying commands).treeListing fo he
  exact ⟨up, t, _, h⟩

/-- A root with two children, the first of which has one of its own. The name `key` is taken on two
levels, and at the root it is taken over; the last entity has a composite with a part. -/
def branchingRun : List Command :=
  [.addRoot .joined .object,
    .addChild ⟨0⟩,
    .addChild ⟨0⟩,
    .addChild ⟨1⟩,
    .bindBasic { entity := ⟨0⟩ } ⟨"key", false⟩ [] {} .never,
    .bindBasic { entity := ⟨1⟩ } ⟨"key", false⟩ [] {} .never,
    .bindBasic { entity := ⟨2⟩ } ⟨"side", false⟩ [] {} .never,
    .bindComponent { entity := ⟨3⟩ } ⟨"name", false⟩ none {},
    .bindBasic { entity := ⟨3⟩, composite := some ⟨⟨3⟩, 0⟩ } ⟨"first", false⟩ [] {} .never,
    .bindBasic { entity := ⟨0⟩ } ⟨"key", false⟩ [] {} .never]

theorem tree_attributes_listing_branchingRun :
    let m := (fresh .replace true).after branchingRun
    ∃ e up t as, m.entity? ⟨1⟩ = some e ∧
      TreeListing m ((fresh .replace true).log branchingRun) ⟨1⟩ e up t as ∧
      as.map AttributeMapping.id = [⟨⟨0⟩, 1⟩, ⟨⟨1⟩, 0⟩, ⟨⟨3⟩, 0⟩] := by
  intro m
  obtain ⟨e, he⟩ : ∃ e, m.entity? ⟨1⟩ = some e := ⟨_, rfl⟩
  obtain ⟨up, t, as, h⟩ := tree_attributes_listing .replace true branchingRun ⟨1⟩ e he
  have hids : ∃ bs, m.treeAttributes ⟨1⟩ = .ok bs ∧
      bs.map AttributeMapping.id = [⟨⟨0⟩, 1⟩, ⟨⟨1⟩, 0⟩, ⟨⟨3⟩, 0⟩] := ⟨_, rfl, rfl⟩
  obtain ⟨bs, hbs, hids⟩ := hids
  rw [h.found] at hbs
  cases hbs
  exact ⟨e, up, t, as, he, h, hids⟩

end Model

end RelationalMapping
