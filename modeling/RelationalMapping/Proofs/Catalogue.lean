import RelationalMapping.Proofs.Access

/-!
Catalogues of scopes. A scope keeps ids in order, each under a name, and a name leads to the first
id that is kept under it. On an entity no two ids have the same name; the parts of a virtual
composite may.

* `CompositeBody.Catalogued`, `EntityMapping.Catalogues`: a list of names with ids describes the
  parts of a composite, or what any scope keeps.
* `Catalogues.idsIn_eq`, `Catalogues.idNamed_eq`, `Catalogues.placeOf_eq`: what a scope answers is
  read off its catalogue.
* `Catalogues.withAttribute`: an attribute is entered into the catalogue of its scope as into a
  roster, in the place of the first id of its name or else at the end.
-/

namespace RelationalMapping

theorem idxOf?_concat (names : List String) (name other : String) :
    (names ++ [name]).idxOf? other =
      (names.idxOf? other).or (if name = other then some names.length else none) := by
  simp [List.idxOf?, List.findIdx?_append]

/-! ## Entries under names -/

namespace Roster

variable {α : Type} {name other : String} {l : List (String × α)}

/-- A name leads to the entry at the first position that has it. -/
theorem lookup_eq_getElem? (l : List (String × α)) (name : String) :
    l.lookup name = ((l.map Prod.fst).idxOf? name).bind fun i => (l.map Prod.snd)[i]? := by
  induction l with
  | nil => rfl
  | cons p rest ih =>
    obtain ⟨n, a⟩ := p
    by_cases h : name = n
    · simp [h, List.idxOf?_cons]
    · simp only [List.lookup_cons, beq_false_of_ne h, ih, List.map_cons, List.idxOf?_cons,
        beq_false_of_ne (Ne.symm h), Bool.false_eq_true, if_false, Option.bind_map]
      rfl

theorem isSome_lookup (l : List (String × α)) (name : String) :
    (l.lookup name).isSome = ((l.map Prod.fst).idxOf? name).isSome := by
  rw [lookup_eq_getElem?]
  cases hi : (l.map Prod.fst).idxOf? name with
  | none => rfl
  | some i =>
    have hlt : i < (l.map Prod.snd).length := by
      simpa using (List.idxOf?_eq_some_iff.mp hi).1
    rw [Option.bind_some, List.getElem?_eq_getElem hlt]
    rfl

theorem enterInto_of_idxOf?_eq_none (h : (l.map Prod.fst).idxOf? name = none) (a : α) :
    enterInto name a l = l ++ [(name, a)] := by
  induction l with
  | nil => rfl
  | cons p rest ih =>
    obtain ⟨n, b⟩ := p
    rw [List.idxOf?_eq_none_iff, List.map_cons, List.mem_cons, not_or] at h
    rw [enterInto, if_neg h.1, ih (List.idxOf?_eq_none_iff.mpr h.2), List.cons_append]

theorem lookup_map {β : Type} (f : α → β) (l : List (String × α)) (name : String) :
    (l.map fun p => (p.1, f p.2)).lookup name = (l.lookup name).map f := by
  induction l with
  | nil => rfl
  | cons p rest ih =>
    obtain ⟨n, a⟩ := p
    by_cases h : name = n
    · simp [h]
    · simp [List.lookup_cons, beq_false_of_ne h, ih]

/-- What is entered may be read in another way before or after. -/
theorem map_enterInto {β : Type} (f : α → β) (name : String) (a : α) (l : List (String × α)) :
    (enterInto name a l).map (fun p => (p.1, f p.2)) =
      enterInto name (f a) (l.map fun p => (p.1, f p.2)) := by
  induction l with
  | nil => rfl
  | cons p rest ih =>
    obtain ⟨n, b⟩ := p
    by_cases h : name = n
    · simp only [enterInto, h, if_true, List.map_cons]
    · simp only [enterInto, h, if_false, List.map_cons, ih]

/-- The entry that is replaced is the one at the first position of the name. -/
theorem enterInto_of_idxOf?_eq_some {i : Nat} (h : (l.map Prod.fst).idxOf? name = some i)
    (a : α) : enterInto name a l = l.set i (name, a) := by
  induction l generalizing i with
  | nil => cases h
  | cons p rest ih =>
    obtain ⟨n, b⟩ := p
    rw [List.map_cons, List.idxOf?_cons] at h
    by_cases hn : n = name
    · simp only [hn, beq_self_eq_true, if_true, Option.some.injEq] at h
      simp [enterInto, hn, ← h]
    · simp only [beq_false_of_ne hn, Bool.false_eq_true, if_false, Option.map_eq_some_iff] at h
      obtain ⟨j, hj, rfl⟩ := h
      rw [enterInto, if_neg (Ne.symm hn), ih hj, List.set_cons_succ]

/-- The list with the item at that place, or else at the end. -/
def putAt (place : Option Nat) (a : α) (as : List α) : List α :=
  match place with
  | some i => as.set i a
  | none => as ++ [a]

theorem map_snd_enterInto (name : String) (a : α) (l : List (String × α)) :
    (enterInto name a l).map Prod.snd =
      putAt ((l.map Prod.fst).idxOf? name) a (l.map Prod.snd) := by
  cases hi : (l.map Prod.fst).idxOf? name with
  | none => rw [enterInto_of_idxOf?_eq_none hi, List.map_append]; rfl
  | some i => rw [enterInto_of_idxOf?_eq_some hi, List.map_set]; rfl

theorem mem_enterInto {p : String × α} {a : α} (h : p ∈ enterInto name a l) :
    p ∈ l ∨ p = (name, a) := by
  cases hi : (l.map Prod.fst).idxOf? name with
  | none =>
    rw [enterInto_of_idxOf?_eq_none hi] at h
    simpa using h
  | some i =>
    rw [enterInto_of_idxOf?_eq_some hi] at h
    exact List.mem_or_eq_of_mem_set h

section

variable {nameOf : α → Option String} (hn : ∀ p ∈ l, nameOf p.2 = some p.1)
include hn

/-- Where every entry has its name from elsewhere too, a name leads to the first entry that has it
from there. -/
theorem lookup_eq_find? (name : String) :
    l.lookup name = (l.map Prod.snd).find? fun a => nameOf a == some name := by
  induction l with
  | nil => rfl
  | cons p rest ih =>
    obtain ⟨n, a⟩ := p
    obtain ⟨ha, hrest⟩ := List.forall_mem_cons.mp hn
    by_cases h : name = n
    · simp [h, ha]
    · simp [List.lookup_cons, beq_false_of_ne h, ha, Ne.symm h, ih hrest]

theorem idxOf?_eq_findIdx? (name : String) :
    (l.map Prod.fst).idxOf? name =
      (l.map Prod.snd).findIdx? fun a => nameOf a == some name := by
  rw [List.idxOf?, List.findIdx?_map, List.findIdx?_map]
  induction l with
  | nil => rfl
  | cons p rest ih =>
    obtain ⟨ha, hrest⟩ := List.forall_mem_cons.mp hn
    rw [List.findIdx?_cons, List.findIdx?_cons, ih hrest]
    simp [ha]

end

/-- No other name comes to stand elsewhere. -/
theorem idxOf?_enterInto_of_ne (a : α) (h : other ≠ name) :
    ((enterInto name a l).map Prod.fst).idxOf? other = (l.map Prod.fst).idxOf? other := by
  rw [map_fst_enterInto]
  split
  · rfl
  · rw [idxOf?_concat, if_neg (Ne.symm h), Option.or_none]

end Roster

/-! ## Composites -/

namespace CompositeBody

/-- The parts are the ids of the list, in order, and each name leads to the first part under it. -/
structure Catalogued (c : CompositeBody) (l : List (String × AttributeId)) : Prop where
  parts : c.partIds = l.map Prod.snd
  positions : ∀ name, c.positions.find? name = (l.map Prod.fst).idxOf? name

namespace Catalogued

theorem of_empty {c : CompositeBody} (hparts : c.partIds = []) (hpositions : c.positions = .empty) :
    c.Catalogued [] where
  parts := hparts
  positions := fun name => by rw [hpositions, Roster.find?_empty]; rfl

variable {c : CompositeBody} {l : List (String × AttributeId)} (h : c.Catalogued l)
include h

theorem length_eq : c.partIds.length = l.length := by
  rw [h.parts, List.length_map]

theorem part?_eq (name : String) : c.part? name = .ok (l.lookup name) := by
  unfold CompositeBody.part?
  rw [h.positions, Roster.lookup_eq_getElem?]
  cases hi : (l.map Prod.fst).idxOf? name with
  | none => rfl
  | some i =>
    obtain ⟨hlt, _⟩ := List.idxOf?_eq_some_iff.mp hi
    have hpart : i < (l.map Prod.snd).length := by simpa using hlt
    have hat : Answer.atIndex c.partIds i = .ok (l.map Prod.snd)[i] := by
      rw [Answer.atIndex_eq_ok_iff, h.parts, List.getElem?_eq_getElem hpart]
    simp only [hat, Except.map, Option.bind_some, List.getElem?_eq_getElem hpart]

theorem positions_enter {name : String} (hout : (l.map Prod.fst).idxOf? name = none)
    (id : AttributeId) (other : String) :
    (c.positions.enter name c.partIds.length).find? other =
      ((l ++ [(name, id)]).map Prod.fst).idxOf? other := by
  rw [List.map_append, List.map_singleton, idxOf?_concat, List.length_map, h.length_eq]
  by_cases ho : name = other
  · subst ho
    rw [Roster.find?_enter_self, hout, if_pos rfl, Option.none_or]
  · rw [Roster.find?_enter_of_ne _ _ (Ne.symm ho), h.positions, if_neg ho, Option.or_none]

theorem parts_concat (name : String) (id : AttributeId) :
    c.partIds ++ [id] = (l ++ [(name, id)]).map Prod.snd := by
  rw [h.parts, List.map_append, List.map_singleton]

/-- One more part comes last, whether its name is taken or not. -/
theorem appendPart (name : String) (id : AttributeId) :
    (c.appendPart name id).Catalogued (l ++ [(name, id)]) where
  parts := h.parts_concat name id
  positions := by
    intro other
    simp only [CompositeBody.appendPart, Roster.contains, h.positions]
    split
    · rename_i htaken
      -- the name leads to an earlier part already
      obtain ⟨i, hi⟩ := Option.isSome_iff_exists.mp htaken
      rw [h.positions, List.map_append, List.map_singleton, idxOf?_concat]
      split
      · rename_i hsame
        rw [← hsame, hi, Option.some_or]
      · rw [Option.or_none]
    · rename_i hfree
      exact h.positions_enter (Option.not_isSome_iff_eq_none.mp hfree) id other

/-- A part whose name is taken comes in the place of the first part of that name. -/
theorem enterPart (name : String) (id : AttributeId) :
    (c.enterPart name id).Catalogued (Roster.enterInto name id l) := by
  unfold CompositeBody.enterPart
  rw [h.positions]
  cases hi : (l.map Prod.fst).idxOf? name with
  | none =>
    rw [Roster.enterInto_of_idxOf?_eq_none hi]
    exact ⟨h.parts_concat name id, h.positions_enter hi id⟩
  | some i =>
    refine ⟨?_, fun other => ?_⟩
    · rw [Roster.enterInto_of_idxOf?_eq_some hi, List.map_set, h.parts]
    · have hin : name ∈ l.map Prod.fst := List.isSome_idxOf?.mp (by rw [hi]; rfl)
      rw [h.positions, Roster.map_fst_enterInto, if_pos hin]

end Catalogued

end CompositeBody

/-! ## Scopes -/

namespace EntityMapping

variable {e : EntityMapping} {scope other : Scope} {a : AttributeMapping}
  {l : List (String × AttributeId)}

/-- The ids that a scope keeps, in order. -/
def idsIn (e : EntityMapping) : Scope → Answer (List AttributeId)
  | .entity => .ok (e.declared.values.map (AttributeId.mk e.id))
  | .composite i => (e.compositeAt i).map fun p => p.2.partIds

/-- The id that a name leads to in a scope. -/
def idNamed (e : EntityMapping) (scope : Scope) (name : String) : Answer (Option AttributeId) :=
  match scope with
  | .entity => .ok ((e.declared.find? name).map (AttributeId.mk e.id))
  | .composite i => do (← e.compositeAt i).2.part? name

/-- Where among the ids of a scope the first one of a name stands. -/
def placeOf (e : EntityMapping) (scope : Scope) (name : String) : Answer (Option Nat) :=
  match scope with
  | .entity => .ok (e.declared.names.idxOf? name)
  | .composite i => (e.compositeAt i).map fun p => p.2.positions.find? name

/-- The list describes what the scope keeps. -/
def Catalogues (e : EntityMapping) : Scope → List (String × AttributeId) → Prop
  | .entity, l => l = e.declared.entries.map fun p => (p.1, ⟨e.id, p.2⟩)
  | .composite i, l => ∃ a c, e.store[i]? = some a ∧ a.composite? = some c ∧ c.Catalogued l

namespace Catalogues

section

variable (h : e.Catalogues scope l)
include h

theorem idsIn_eq : e.idsIn scope = .ok (l.map Prod.snd) := by
  cases scope with
  | entity =>
    cases h
    simp only [idsIn, Roster.values, List.map_map]
    rfl
  | composite i =>
    obtain ⟨a, c, ha, hc, hl⟩ := h
    simp only [idsIn, compositeAt_stored ha hc, Except.map, hl.parts]

theorem idNamed_eq (name : String) : e.idNamed scope name = .ok (l.lookup name) := by
  cases scope with
  | entity =>
    cases h
    rw [idNamed, Roster.find?, Roster.lookup_map]
  | composite i =>
    obtain ⟨a, c, ha, hc, hl⟩ := h
    rw [idNamed, compositeAt_stored ha hc]
    exact hl.part?_eq name

theorem placeOf_eq (name : String) :
    e.placeOf scope name = .ok ((l.map Prod.fst).idxOf? name) := by
  cases scope with
  | entity =>
    cases h
    simp only [placeOf, Roster.names, List.map_map]
    rfl
  | composite i =>
    obtain ⟨a, c, ha, hc, hl⟩ := h
    simp only [placeOf, compositeAt_stored ha hc, Except.map, hl.positions]

/-- A name is taken where it has a place. -/
theorem lists_eq (name : String) :
    e.lists scope name = .ok ((l.map Prod.fst).idxOf? name).isSome := by
  cases scope with
  | entity =>
    cases h
    rw [lists, Roster.contains, Roster.find?, Roster.isSome_lookup, List.map_map]
    rfl
  | composite i =>
    obtain ⟨a, c, ha, hc, hl⟩ := h
    rw [lists_composite ha hc, hl.part?_eq, Except.map, Roster.isSome_lookup]

/-- One more attribute is entered under its name. -/
theorem withAttribute (hid : a.id = e.nextId) :
    (e.withAttribute scope a).Catalogues scope (Roster.enterInto a.name a.id l) := by
  cases scope with
  | entity =>
    cases h
    have hindex : a.id = ⟨e.id, a.id.index⟩ := by rw [hid]; rfl
    rw [hindex]
    exact (Roster.map_enterInto (AttributeId.mk e.id) a.name a.id.index e.declared.entries).symm
  | composite i =>
    obtain ⟨b, c, hb, hc, hl⟩ := h
    refine ⟨b.withPart a.name a.id, c.enterPart a.name a.id, ?_, ?_, hl.enterPart a.name a.id⟩
    · rw [store_withAttribute_of_stored hb, if_pos rfl]
    · rw [AttributeMapping.composite?_withPart, hc, Option.map_some]

/-- What comes in somewhere else changes nothing here. -/
theorem elsewhere (hne : other ≠ scope) : (e.withAttribute other a).Catalogues scope l := by
  cases scope with
  | entity =>
    cases other with
    | entity => exact absurd rfl hne
    | composite j => exact h
  | composite i =>
    obtain ⟨b, c, hb, hc, hl⟩ := h
    exact ⟨b, c, by rw [store_withAttribute_of_stored hb, if_neg hne], hc, hl⟩

end

end Catalogues

/-! ## All composites -/

/-- What each composite of the entity keeps to, and a new one too, survives one more attribute if it
survives that a part is entered. -/
theorem composites_withAttribute {P : CompositeBody → Prop}
    (hold : ∀ (i : Nat) (b : AttributeMapping) (c : CompositeBody), e.store[i]? = some b →
      b.composite? = some c → P c)
    (hnew : ∀ c, a.composite? = some c → P c) (henter : ∀ c, P c → P (c.enterPart a.name a.id)) :
    ∀ (i : Nat) (b : AttributeMapping) (c : CompositeBody),
      (e.withAttribute scope a).store[i]? = some b → b.composite? = some c → P c := by
  intro i b d hb hd
  obtain ⟨before, hbefore, hpart⟩ := stored_withAttribute hb
  have hkept : ∀ c, before.composite? = some c → P c := by
    rcases hbefore with hbefore | ⟨_, rfl⟩
    · exact fun c hc => hold i before c hbefore hc
    · exact hnew
  rcases hpart with rfl | ⟨_, rfl⟩
  · exact hkept d hd
  · rw [AttributeMapping.composite?_withPart] at hd
    obtain ⟨c, hc, rfl⟩ := Option.map_eq_some_iff.mp hd
    exact henter c (hkept c hc)

/-- All composites of the entity have a catalogue. -/
def PartsCatalogued (e : EntityMapping) : Prop :=
  ∀ (i : Nat) (a : AttributeMapping) (c : CompositeBody), e.store[i]? = some a →
    a.composite? = some c → ∃ l, c.Catalogued l

theorem PartsCatalogued.withAttribute (h : PartsCatalogued e)
    (ha : ∀ c, a.composite? = some c → ∃ l, c.Catalogued l) :
    PartsCatalogued (e.withAttribute scope a) :=
  composites_withAttribute h ha fun _ ⟨_, hl⟩ => ⟨_, hl.enterPart a.name a.id⟩

/-- So every scope has one. -/
theorem PartsCatalogued.exists_catalogue (h : PartsCatalogued e) (hs : e.Opens scope) :
    ∃ l, e.Catalogues scope l := by
  cases scope with
  | entity => exact ⟨_, rfl⟩
  | composite i =>
    obtain ⟨a, c, ha, hc⟩ := hs
    obtain ⟨l, hl⟩ := h i a c ha hc
    exact ⟨l, a, c, ha, hc, hl⟩

/-- A virtual composite is described by the attributes that it was made to group, in order. -/
theorem catalogued_virtualBody (named : List (String × AttributeId)) (remarks : Option Remarks) :
    (virtualBody named remarks).Catalogued named := by
  unfold virtualBody
  induction named using List.reverseRecOn with
  | nil => exact .of_empty rfl rfl
  | append_singleton rest p ih =>
    rw [List.foldl_append]
    exact ih.appendPart p.1 p.2

theorem Builds.exists_catalogued (h : e.Builds scope a) {c : CompositeBody}
    (hc : a.composite? = some c) : ∃ l, c.Catalogued l := by
  cases h with
  | plain hbody =>
    rw [hbody] at hc
    cases hc
  | component hbody hparts hpositions =>
    rw [AttributeMapping.composite?_eq_some_iff, hbody] at hc
    cases hc
    exact ⟨[], .of_empty hparts hpositions⟩
  | grouping hnamed hbody =>
    rw [AttributeMapping.composite?_eq_some_iff, hbody] at hc
    cases hc
    exact ⟨_, catalogued_virtualBody _ _⟩

end EntityMapping

/-- After every run all composites have a catalogue, if those that were handed in have one. -/
theorem Model.partsCatalogued_after (collisions : NameCollision) (verifying : Bool)
    {commands : List Command} (hgiven : ∀ c ∈ commands, ∀ a, c.Gives a →
      ∀ b, a.composite? = some b → ∃ l, b.Catalogued l) :
    ∀ x e, ((fresh collisions verifying).after commands).entity? x = some e →
      e.PartsCatalogued := by
  refine forall_entities_after (fun e e' hs h i a c ha => h i a c (hs.store ▸ ha))
    (fun e hs _ _ => ?_) (fun c hc e scope a _ h _ hmade _ => h.withAttribute fun d hd => ?_)
    (by simp [fresh, entity?])
  · intro i a _ ha
    simp [hs] at ha
  · rcases hmade with hmade | hgives
    · exact hmade.exists_catalogued hd
    · exact hgiven c hc a hgives d hd

end RelationalMapping
