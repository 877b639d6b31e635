import RelationalMapping.Proofs.LastEntries
import RelationalMapping.Remarks

/-!
Levels of remarks. A chain of levels is told by the remarks that were added on each of them, the
innermost level first. A level is filled before the next one is put inside it (`Remarks.built`).

* `find?_built`, `isEmpty_iff`: the two recursions along the levels, told by the remarks alone.
* `innermost_last_found`: under a name stands the last remark of the innermost level that declares
  it. What is added elsewhere does not show, and levels are empty where nothing is found on them.
-/

namespace RelationalMapping

/-- A remark of that name was added. -/
def Declares (added : List Remark) (name : String) : Prop := ∃ a ∈ added, a.name = name

theorem not_declares_iff {added : List Remark} {name : String} :
    ¬ Declares added name ↔ ∀ a ∈ added, a.name ≠ name := by
  simp [Declares]

/-- A roster is empty when no name leads to an entry. -/
theorem Roster.isEmpty_iff {α : Type} (r : Roster α) :
    r.isEmpty = true ↔ ∀ name, r.find? name = none := by
  simp only [Roster.find?_eq_none_iff, Roster.isEmpty, Roster.names, List.isEmpty_iff,
    ← List.eq_nil_iff_forall_not_mem, List.map_eq_nil_iff]

namespace Remarks

/-- The level's own remark of that name, or else what is found further out. -/
theorem find?_eq_own?_or (a : Remarks) (name : String) :
    a.find? name = (a.own? name).or (a.parent?.bind fun parent => parent.find? name) := by
  obtain ⟨own, outer⟩ := a
  cases outer <;> cases h : own.find? name <;> simp [find?, levels, own?, parent?, h]

/-- The level is empty and so are the levels around it. -/
theorem isEmpty_eq_own_and (a : Remarks) :
    a.isEmpty = (a.own.isEmpty && a.parent?.all isEmpty) := by
  obtain ⟨own, outer⟩ := a
  cases outer <;> simp [isEmpty, levels, parent?]

/-- Both recursions end on the same levels: nothing is there when nothing is found. -/
theorem isEmpty_iff (a : Remarks) : a.isEmpty = true ↔ ∀ name, a.find? name = none := by
  obtain ⟨own, outer⟩ := a
  induction outer generalizing own with
  | nil =>
    simp only [isEmpty_eq_own_and ⟨own, []⟩, find?_eq_own?_or ⟨own, []⟩, parent?, own?,
      Option.all_none, Option.bind_none, Option.or_none, Bool.and_true, Roster.isEmpty_iff]
  | cons level rest ih =>
    simp only [isEmpty_eq_own_and ⟨own, level :: rest⟩, find?_eq_own?_or ⟨own, level :: rest⟩,
      parent?, own?, Option.all_some, Option.bind_some, Bool.and_eq_true, Option.or_eq_none_iff,
      ih level, Roster.isEmpty_iff, forall_and]

/-- Remarks added one after the other. -/
def fill (a : Remarks) (added : List Remark) : Remarks := added.foldl add a

theorem levels_fill (a : Remarks) (added : List Remark) (h : a.own = .empty) :
    (a.fill added).levels = Roster.keyed Remark.name added :: a.outer := by
  have hfill : (a.fill added).own = Roster.keyed Remark.name added ∧
      (a.fill added).outer = a.outer := by
    induction added using List.reverseRecOn with
    | nil => exact ⟨h, rfl⟩
    | append_singleton before last ih =>
      rw [Roster.keyed_concat, ← ih.1, fill, List.foldl_append]
      exact ⟨rfl, ih.2⟩
  rw [levels, hfill.1, hfill.2]

/-- Levels one inside the other, with the remarks that were added on each, the innermost first. -/
def built : List (List Remark) → Remarks
  | [] => {}
  | [added] => fill {} added
  | added :: around => (within (built around)).fill added

theorem levels_built (added : List Remark) (around : List (List Remark)) :
    (built (added :: around)).levels = (added :: around).map (Roster.keyed Remark.name) := by
  induction around generalizing added with
  | nil => exact levels_fill _ added rfl
  | cons next rest ih =>
    rw [built, levels_fill _ added rfl, List.map_cons, ← ih next]
    · rfl
    · exact List.cons_ne_nil next rest

/-- Under each name what came last on a level, and the innermost level that has something. -/
theorem find?_built (calls : List (List Remark)) (name : String) :
    (built calls).find? name =
      calls.findSome? fun added => (Roster.keyed Remark.name added).find? name := by
  cases calls with
  | nil => rfl
  | cons added around => rw [find?, levels_built, List.findSome?_map]; rfl

variable {calls : List (List Remark)} {name : String}

theorem find?_keyed_eq_none_iff_declares {added : List Remark} :
    (Roster.keyed Remark.name added).find? name = none ↔ ¬ Declares added name := by
  rw [Roster.find?_keyed_eq_none_iff, not_declares_iff]

theorem find?_built_eq_some_iff (r : Remark) :
    (built calls).find? name = some r ↔
      ∃ inner added around, calls = inner ++ added :: around ∧
        (∀ level ∈ inner, ¬ Declares level name) ∧ LastUnder Remark.name added name r := by
  simp only [find?_built, List.findSome?_eq_some_iff, Roster.find?_keyed_eq_some_iff,
    find?_keyed_eq_none_iff_declares]
  constructor
  · rintro ⟨inner, added, around, hcalls, hlast, hinner⟩
    exact ⟨inner, added, around, hcalls, hinner, hlast⟩
  · rintro ⟨inner, added, around, hcalls, hinner, hlast⟩
    exact ⟨inner, added, around, hcalls, hlast, hinner⟩

theorem find?_built_eq_none_iff :
    (built calls).find? name = none ↔ ∀ added ∈ calls, ¬ Declares added name := by
  simp only [find?_built, List.findSome?_eq_none_iff, find?_keyed_eq_none_iff_declares]

/-- One remark more on a level leaves alone what stands under another name. -/
theorem find?_keyed_insert (before later : List Remark) (remark : Remark)
    (h : name ≠ remark.name) :
    (Roster.keyed Remark.name (before ++ remark :: later)).find? name =
      (Roster.keyed Remark.name (before ++ later)).find? name := by
  have hne : (remark.name == name) = false := beq_false_of_ne h.symm
  simp only [Roster.find?_keyed, List.reverse_append, List.reverse_cons, List.find?_append,
    List.find?_cons, List.find?_nil, hne, Option.or_none]

/-- Nothing further out shows under a name that is declared. -/
theorem find?_built_append_of_declares (inner around others : List (List Remark))
    (h : ∃ level ∈ inner, Declares level name) :
    (built (inner ++ around)).find? name = (built (inner ++ others)).find? name := by
  have hinner : (built inner).find? name ≠ none := by
    rw [Ne, find?_built_eq_none_iff]
    push Not
    exact h
  obtain ⟨r, hr⟩ := Option.ne_none_iff_exists'.mp hinner
  rw [find?_built] at hr
  simp only [find?_built, List.findSome?_append, hr, Option.some_or]

/-- However the levels were filled, under a name is found the last remark of the innermost level
that declares it, and nothing when none does. One remark more on a level changes nothing under other
names, nor under names that are declared further in. Levels are empty when nothing is found under
any name. -/
theorem innermost_last_found (calls : List (List Remark)) :
    (∀ name r, (built calls).find? name = some r ↔
      ∃ inner added around, calls = inner ++ added :: around ∧
        (∀ level ∈ inner, ¬ Declares level name) ∧ LastUnder Remark.name added name r) ∧
    (∀ name, (built calls).find? name = none ↔ ∀ added ∈ calls, ¬ Declares added name) ∧
    (∀ inner before remark later around name,
      calls = inner ++ (before ++ remark :: later) :: around →
      (name ≠ remark.name ∨ ∃ level ∈ inner, Declares level name) →
      (built calls).find? name =
        (built (inner ++ (before ++ later) :: around)).find? name) ∧
    ((built calls).isEmpty = true ↔ ∀ name, (built calls).find? name = none) := by
  refine ⟨fun name r => find?_built_eq_some_iff r, fun name => find?_built_eq_none_iff, ?_,
    isEmpty_iff _⟩
  rintro inner before remark later around name rfl (hname | hinner)
  · simp only [find?_built, List.findSome?_append, List.findSome?_cons,
      find?_keyed_insert before later remark hname]
  · exact find?_built_append_of_declares inner _ _ hinner

/-- Two levels. Further out a remark came twice under its name and once under the name that is
declared further in as well. -/
def ownedRemarks : List (List Remark) :=
  [[⟨"owner", ["sales"]⟩],
    [⟨"since", ["2019"]⟩, ⟨"owner", ["finance"]⟩, ⟨"since", ["2020"]⟩]]

/-- Further in the outer remark of the same name does not show, and further out the last one
does. -/
theorem innermost_last_found_ownedRemarks :
    (built ownedRemarks).find? "owner" =
        (built [[⟨"owner", ["sales"]⟩],
          [⟨"since", ["2019"]⟩, ⟨"since", ["2020"]⟩]]).find? "owner" ∧
      (built ownedRemarks).find? "since" = some ⟨"since", ["2020"]⟩ ∧
      (built ownedRemarks).isEmpty = false := by
  obtain ⟨hfound, hnone, hunchanged, hempty⟩ := innermost_last_found ownedRemarks
  have hsince : (built ownedRemarks).find? "since" = some ⟨"since", ["2020"]⟩ := by
    rw [hfound]
    refine ⟨[_], _, [], rfl, by simp [Declares], [_, _], [], rfl, rfl, by simp⟩
  refine ⟨?_, hsince, ?_⟩
  · exact hunchanged [_] [_] ⟨"owner", ["finance"]⟩ [_] [] "owner" rfl
      (.inr ⟨_, List.mem_singleton_self _, _, List.mem_singleton_self _, rfl⟩)
  · rw [← Bool.not_eq_true, hempty]
    intro h
    rw [h "since"] at hsince
    cases hsince

end Remarks

end RelationalMapping
