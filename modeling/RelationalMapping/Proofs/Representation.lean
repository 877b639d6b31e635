import RelationalMapping.Proofs.Catalogue
import RelationalMapping.Proofs.Registration

/-!
Two data structures for one thing. An entity keeps what is declared on it in a roster of positions
in its store; a composite keeps the ids of its parts in a list, and beside it a roster of positions
in that list. Each represents a list of registrations under distinct names (`Represents`):

* what a scope answers is read off the list that it represents (`listing_eq`, `locate_eq`,
  `scopeSpan_eq`);
* an attribute that comes in updates the list of its scope (`Represents.enrol`) and of no other
  (`Represents.enrol_elsewhere`).
-/

namespace RelationalMapping

/-! ## One more entry -/

/-- Names being distinct, the entry that is replaced is the one at the position of the name. -/
theorem Roster.enterInto_eq_set {α : Type} {name : String} {a : α} {l : List (String × α)} {i : Nat}
    (hn : (l.map Prod.fst).Nodup) (h : (l.map Prod.fst)[i]? = some name) :
    enterInto name a l = l.set i (name, a) := by
  obtain ⟨hi, hname⟩ := List.getElem?_eq_some_iff.mp h
  have hfirst : ∀ (j : Nat) (hj : j < i), (l.map Prod.fst)[j] ≠ name := by
    intro j hj heq
    exact absurd (hn.getElem_inj_iff.mp (heq.trans hname.symm)) (Nat.ne_of_lt hj)
  exact enterInto_of_idxOf?_eq_some (List.idxOf?_eq_some_iff.mpr ⟨hi, hname, hfirst⟩) a

namespace Registration

variable {l : List Registration} {r : Registration}

theorem update_of_not_mem (h : r.name ∉ l.map name) : update l r = l ++ [r] := if_neg h

theorem update_eq_set {i : Nat} (hn : (l.map name).Nodup) (h : (l.map name)[i]? = some r.name) :
    update l r = l.set i r := by
  rw [update, if_pos (List.mem_of_getElem? h)]
  induction l generalizing i with
  | nil => simp at h
  | cons s rest ih =>
    obtain ⟨hout, hrest⟩ := List.nodup_cons.mp hn
    cases i with
    | zero =>
      have hs : s.name = r.name := by simpa using h
      -- the name is not taken once more further on
      have hkept : ∀ t ∈ rest, (if t.name = r.name then r else t) = t := fun t ht =>
        if_neg fun heq => hout (List.mem_map.mpr ⟨t, ht, heq.trans hs.symm⟩)
      rw [List.map_cons, if_pos hs, List.map_congr_left hkept, List.map_id', List.set_cons_zero]
    | succ i =>
      have hlater : (rest.map name)[i]? = some r.name := h
      have hne : s.name ≠ r.name := fun heq => hout (heq ▸ List.mem_of_getElem? hlater)
      rw [List.map_cons, if_neg hne, ih hrest hlater, List.set_cons_succ]

theorem mem_update {s : Registration} (h : s ∈ update l r) : s ∈ l ∨ s = r := by
  unfold update at h
  split at h
  · obtain ⟨t, ht, rfl⟩ := List.mem_map.mp h
    split
    · exact .inr rfl
    · exact .inl ht
  · simpa using h

end Registration

/-- Where every item is found, going through the list finds them all. -/
theorem Answer.mapM_eq_ok_filterMap {α β γ : Type} {l : List γ} {k : γ → α} {f : α → Answer β}
    {g : γ → Option β} (h : ∀ r ∈ l, ∃ b, f (k r) = .ok b ∧ g r = some b) :
    (l.map k).mapM f = .ok (l.filterMap g) := by
  induction l with
  | nil => rfl
  | cons r rest ih =>
    obtain ⟨b, hb, hg⟩ := h r (List.mem_cons_self ..)
    have hrest := ih fun s hs => h s (List.mem_cons_of_mem _ hs)
    rw [List.map_cons, List.mapM_cons, hb, hrest, List.filterMap_cons_some hg]
    rfl

namespace EntityMapping

variable {e e' : EntityMapping} {scope other : Scope} {l : List Registration} {a : AttributeMapping}

/-- How many attributes the scope lists by its own account. -/
def scopeSpan (e : EntityMapping) : Scope → Answer Nat
  | .entity => .ok e.span
  | .composite i => (e.compositeAt i).map fun p => p.2.partIds.length

/-- How a scope arranges a list of registrations in its own data. -/
def Arranges (e : EntityMapping) : Scope → List Registration → Prop
  | .entity, l => e.declared.entries = l.map fun r => (r.name, r.id.index)
  | .composite i, l => ∃ a c, e.store[i]? = some a ∧ a.composite? = some c ∧
      c.partIds = l.map Registration.id ∧
      c.positions.entries = (l.map Registration.name).zipIdx

/-- The scope arranges that list, and the registered attributes are in the store. -/
structure Represents (e : EntityMapping) (scope : Scope) (l : List Registration) : Prop where
  arranged : e.Arranges scope l
  stored : ∀ r ∈ l, ∃ a, e.stored? r.id = some a ∧ a.registration = r

namespace Represents

variable (h : e.Represents scope l)
include h

theorem nodup_names : (l.map Registration.name).Nodup := by
  cases scope with
  | entity =>
    have harranged : e.declared.entries = l.map fun r => (r.name, r.id.index) := h.arranged
    have hn := e.declared.nodup
    rw [harranged, List.map_map] at hn
    exact hn
  | composite i =>
    obtain ⟨_, c, _, _, _, hpositions⟩ := h.arranged
    have hn := c.positions.nodup
    rw [hpositions, List.zipIdx_map_fst] at hn
    exact hn

/-! ## What the scope answers -/

theorem scopeSpan_eq : e.scopeSpan scope = .ok l.length := by
  cases scope with
  | entity =>
    have harranged : e.declared.entries = l.map fun r => (r.name, r.id.index) := h.arranged
    simp only [scopeSpan, span, Roster.size, harranged, List.length_map]
  | composite i =>
    obtain ⟨a, c, ha, hc, hparts, _⟩ := h.arranged
    simp only [scopeSpan, compositeAt_stored ha hc, Except.map, hparts, List.length_map]

theorem listing_eq : e.listing scope = .ok (l.filterMap fun r => e.stored? r.id) := by
  cases scope with
  | entity =>
    have harranged : e.declared.entries = l.map fun r => (r.name, r.id.index) := h.arranged
    have hvalues : e.declared.values = l.map fun r => r.id.index := by
      rw [Roster.values, harranged, List.map_map]
      rfl
    rw [listing, attributes, hvalues]
    refine Answer.mapM_eq_ok_filterMap fun r hr => ?_
    obtain ⟨a, ha, _⟩ := h.stored r hr
    exact ⟨a, Answer.atIndex_eq_ok_iff.mpr (stored?_eq_some_iff.mp ha).2, ha⟩
  | composite i =>
    obtain ⟨a, c, ha, hc, hparts, _⟩ := h.arranged
    have hfound : ∀ r ∈ l, e.store[r.id.index]? = e.stored? r.id := by
      intro r hr
      obtain ⟨b, hb, _⟩ := h.stored r hr
      rw [hb, (stored?_eq_some_iff.mp hb).2]
    have hlisted : c.partIds.filterMap (fun id => e.store[id.index]?) =
        l.filterMap fun r => e.stored? r.id := by
      rw [hparts, List.filterMap_map]
      exact List.filterMap_congr hfound
    rw [listing_composite ha hc, hlisted]

/-- The attributes that are listed are those of the list. -/
theorem map_registration :
    (l.filterMap fun r => e.stored? r.id).map AttributeMapping.registration = l := by
  have hfound : ∀ r ∈ l, ((e.stored? r.id).map AttributeMapping.registration) = some r := by
    intro r hr
    obtain ⟨b, hb, hreg⟩ := h.stored r hr
    rw [hb, Option.map_some, hreg]
  rw [List.map_filterMap, List.filterMap_congr hfound, List.filterMap_some]

/-- A name of the list leads to what is listed under it. -/
theorem locate_of_mem {r : Registration} (hr : r ∈ l) :
    e.locate scope r.name = .ok (e.stored? r.id) := by
  obtain ⟨b, hb, _⟩ := h.stored r hr
  have hstored : e.store[r.id.index]? = some b := (stored?_eq_some_iff.mp hb).2
  rw [hb]
  cases scope with
  | entity =>
    have harranged : e.declared.entries = l.map fun r => (r.name, r.id.index) := h.arranged
    have hfind : e.declared.find? r.name = some r.id.index := by
      rw [Roster.find?_eq_some_iff, harranged]
      exact List.mem_map.mpr ⟨r, hr, rfl⟩
    have hat : e.storedAt r.id.index = .ok b := Answer.atIndex_eq_ok_iff.mpr hstored
    simp only [locate, hfind, hat, Except.map]
  | composite i =>
    obtain ⟨a, c, ha, hc, hparts, hpositions⟩ := h.arranged
    obtain ⟨k, hk⟩ := List.mem_iff_getElem?.mp hr
    have hfind : c.positions.find? r.name = some k := by
      rw [Roster.find?_eq_some_iff, hpositions, List.mem_zipIdx_iff_getElem?]
      simp [hk]
    have hpart : Answer.atIndex c.partIds k = .ok r.id := by
      rw [Answer.atIndex_eq_ok_iff, hparts]
      simp [hk]
    rw [locate_composite ha hc]
    simp only [CompositeBody.part?, hfind, hpart, Except.map, Option.bind_some, hstored]

/-- No other name leads anywhere. -/
theorem locate_of_not_mem {n : String} (hn : n ∉ l.map Registration.name) :
    e.locate scope n = .ok none := by
  cases scope with
  | entity =>
    have harranged : e.declared.entries = l.map fun r => (r.name, r.id.index) := h.arranged
    have hfind : e.declared.find? n = none := by
      rw [Roster.find?_eq_none_iff, Roster.names, harranged, List.map_map]
      exact hn
    simp only [locate, hfind]
  | composite i =>
    obtain ⟨a, c, ha, hc, _, hpositions⟩ := h.arranged
    have hfind : c.positions.find? n = none := by
      rw [Roster.find?_eq_none_iff, Roster.names, hpositions, List.zipIdx_map_fst]
      exact hn
    rw [locate_composite ha hc]
    simp only [CompositeBody.part?, hfind, Except.map, Option.bind_none]

/-- What a name leads to is listed. -/
theorem mem_listing_of_locate {n : String} {a : AttributeMapping}
    (ha : e.locate scope n = .ok (some a)) : a ∈ l.filterMap fun r => e.stored? r.id := by
  by_cases hn : n ∈ l.map Registration.name
  · obtain ⟨r, hr, rfl⟩ := List.mem_map.mp hn
    rw [h.locate_of_mem hr] at ha
    exact List.mem_filterMap.mpr ⟨r, hr, Except.ok.inj ha⟩
  · rw [h.locate_of_not_mem hn] at ha
    cases ha

/-- What is listed is what its own name leads to. -/
theorem mem_listing_iff {a : AttributeMapping} :
    a ∈ l.filterMap (fun r => e.stored? r.id) ↔ e.locate scope a.name = .ok (some a) := by
  refine ⟨fun ha => ?_, h.mem_listing_of_locate⟩
  obtain ⟨r, hr, hstored⟩ := List.mem_filterMap.mp ha
  obtain ⟨b, hb, hreg⟩ := h.stored r hr
  rw [hstored] at hb
  cases hb
  have hname : r.name = a.name := by rw [← hreg]; rfl
  rw [← hname, h.locate_of_mem hr, hstored]

/-- No attribute is listed twice: the names would both be its own. -/
theorem nodup_ids : (l.map Registration.id).Nodup := by
  refine List.Nodup.map_on (fun r hr s hs hid => ?_) (List.Nodup.of_map _ h.nodup_names)
  obtain ⟨a, ha, hreg⟩ := h.stored r hr
  obtain ⟨b, hb, hreg'⟩ := h.stored s hs
  rw [hid, hb] at ha
  cases ha
  exact hreg.symm.trans hreg'

end Represents

/-! ## One more attribute -/

/-- What is stored, the new attribute included, is registered as the same thing afterwards. -/
theorem registration_withAttribute {i : Nat} {b : AttributeMapping}
    (hb : (e.store ++ [a])[i]? = some b) (scope : Scope) :
    ∃ later, (e.withAttribute scope a).store[i]? = some later ∧
      later.registration = b.registration := by
  refine ⟨_, by rw [store_withAttribute, hb]; rfl, ?_⟩
  split
  · simp only [AttributeMapping.registration, AttributeMapping.id_withPart,
      AttributeMapping.content_withPart]
  · rfl

/-- What was in the store of the entity still is. -/
theorem Represents.stored_withAttribute (h : e.Represents scope l) (other : Scope)
    (a : AttributeMapping) : ∀ r ∈ l,
      ∃ b, (e.withAttribute other a).stored? r.id = some b ∧ b.registration = r := by
  intro r hr
  obtain ⟨b, hb, hreg⟩ := h.stored r hr
  obtain ⟨hent, hstored⟩ := stored?_eq_some_iff.mp hb
  have hin : (e.store ++ [a])[r.id.index]? = some b :=
    Model.getElem?_concat_eq_some_iff.mpr (.inl hstored)
  obtain ⟨later, hl, hlater⟩ := registration_withAttribute hin other
  have hid : r.id.entity = (e.withAttribute other a).id := by rw [hent, id_withAttribute]
  exact ⟨later, stored?_eq_some_iff.mpr ⟨hid, hl⟩, hlater.trans hreg⟩

theorem Represents.declared_enrol (h : e.Represents .entity l) :
    (e.withAttribute .entity a).Arranges .entity (Registration.update l a.registration) := by
  have harranged : e.declared.entries = l.map fun r => (r.name, r.id.index) := h.arranged
  have hnames : e.declared.entries.map Prod.fst = l.map Registration.name := by
    rw [harranged, List.map_map]
    rfl
  have hentered : (e.withAttribute .entity a).declared.entries =
      Roster.enterInto a.name a.id.index e.declared.entries := rfl
  show (e.withAttribute .entity a).declared.entries = _
  rw [hentered]
  by_cases hn : a.registration.name ∈ l.map Registration.name
  · obtain ⟨i, hi⟩ := List.mem_iff_getElem?.mp hn
    rw [Registration.update_eq_set h.nodup_names hi, List.map_set, ← harranged]
    exact Roster.enterInto_eq_set e.declared.nodup (hnames ▸ hi)
  · rw [Registration.update_of_not_mem hn, List.map_append, ← harranged]
    exact Roster.enterInto_of_idxOf?_eq_none (List.idxOf?_eq_none_iff.mpr (hnames ▸ hn)) _

theorem Represents.parts_enrol {i : Nat} (h : e.Represents (.composite i) l) :
    (e.withAttribute (.composite i) a).Arranges (.composite i)
      (Registration.update l a.registration) := by
  obtain ⟨b, c, hb, hc, hparts, hpositions⟩ := h.arranged
  have hlater : (e.withAttribute (.composite i) a).store[i]? = some (b.withPart a.name a.id) := by
    rw [store_withAttribute_of_stored hb, if_pos rfl]
  have hnames : c.positions.entries.map Prod.fst = l.map Registration.name := by
    rw [hpositions, List.zipIdx_map_fst]
  refine ⟨_, c.enterPart a.name a.id, hlater,
    by rw [AttributeMapping.composite?_withPart, hc]; rfl, ?_⟩
  by_cases hn : a.registration.name ∈ l.map Registration.name
  · obtain ⟨k, hk⟩ := List.mem_iff_getElem?.mp hn
    have hfind : c.positions.find? a.name = some k := by
      rw [Roster.find?_eq_some_iff, hpositions, List.mem_zipIdx_iff_getElem?]
      exact hk
    have hsame : (l.set k a.registration).map Registration.name = l.map Registration.name := by
      obtain ⟨hlt, hname⟩ := List.getElem?_eq_some_iff.mp hk
      rw [List.map_set, ← hname]
      exact List.set_getElem_self hlt
    rw [Registration.update_eq_set h.nodup_names hk, hsame]
    simp only [CompositeBody.enterPart, hfind, hparts, hpositions, List.map_set, and_true]
    rfl
  · have hfind : c.positions.find? a.name = none := by
      rw [Roster.find?_eq_none_iff, Roster.names, hnames]
      exact hn
    have hentered : (c.positions.enter a.name l.length).entries =
        c.positions.entries ++ [(a.name, l.length)] :=
      Roster.enterInto_of_idxOf?_eq_none (List.idxOf?_eq_none_iff.mpr (hnames ▸ hn)) _
    rw [Registration.update_of_not_mem hn]
    simp only [CompositeBody.enterPart, hfind, hparts, List.length_map, hentered, hpositions,
      List.map_append, List.zipIdx_append]
    simp [Registration.name, AttributeMapping.registration, AttributeMapping.content]

/-- Where an attribute comes in, it updates the list. -/
theorem Represents.enrol (h : e.Represents scope l) (hid : a.id = e.nextId) :
    (e.withAttribute scope a).Represents scope (Registration.update l a.registration) where
  stored := by
    intro r hr
    rcases Registration.mem_update hr with hr | rfl
    · exact h.stored_withAttribute scope a r hr
    · have hindex : a.registration.id = ⟨e.id, e.store.length⟩ := hid
      obtain ⟨later, hl, hlater⟩ :=
        registration_withAttribute (List.getElem?_concat_length (l := e.store) (a := a)) scope
      refine ⟨later, stored?_eq_some_iff.mpr ?_, hlater⟩
      rw [hindex, id_withAttribute]
      exact ⟨rfl, hl⟩
  arranged := by
    cases scope with
    | entity => exact h.declared_enrol
    | composite i => exact h.parts_enrol

/-- What comes in somewhere else changes nothing here. -/
theorem Represents.enrol_elsewhere (h : e.Represents scope l) (hne : other ≠ scope) :
    (e.withAttribute other a).Represents scope l where
  stored := h.stored_withAttribute other a
  arranged := by
    cases scope with
    | entity =>
      cases other with
      | entity => exact absurd rfl hne
      | composite j => exact h.arranged
    | composite i =>
      obtain ⟨b, c, hb, hc, hlists⟩ := h.arranged
      refine ⟨b, c, ?_, hc, hlists⟩
      rw [store_withAttribute_of_stored hb, if_neg hne]

/-- A composite that comes in without parts lists nothing. -/
theorem represents_nil (hne : other ≠ .composite e.store.length) {c : CompositeBody}
    (hc : a.composite? = some c) (hparts : c.partIds = []) (hpositions : c.positions = .empty) :
    (e.withAttribute other a).Represents (.composite e.store.length) [] where
  stored := by simp
  arranged := by
    exact ⟨a, c, store_withAttribute_last hne, hc, by simp [hparts], by simp [hpositions]⟩

/-- Nothing but what is stored and declared matters. -/
theorem Represents.congr (h : e.Represents scope l) (hsame : e.SameStore e') :
    e'.Represents scope l where
  stored := by
    intro r hr
    obtain ⟨a, ha, hreg⟩ := h.stored r hr
    refine ⟨a, ?_, hreg⟩
    rw [stored?_eq_some_iff, hsame.id, hsame.store]
    exact stored?_eq_some_iff.mp ha
  arranged := by
    cases scope with
    | entity =>
      show e'.declared.entries = _
      rw [hsame.declared]
      exact h.arranged
    | composite i =>
      obtain ⟨a, c, ha, hrest⟩ := h.arranged
      exact ⟨a, c, by rw [hsame.store]; exact ha, hrest⟩

end EntityMapping

end RelationalMapping
