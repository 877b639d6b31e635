import Mathlib.Data.List.Induction
import RelationalMapping.Collections.Roster

/-!
What comes last under a name. Items with names of their own go into a roster one after the other
(`Roster.keyed`), each in the place of the one whose name it has.

* `LastUnder`: the item is the last one of its name.
* `find?_keyed_eq_some_iff`, `names_keyed`, `values_keyed`: the roster is told by the list of items
  alone. It has the last item of each name, in the order in which the names first came.
-/

namespace RelationalMapping

/-- A name that is there already adds nothing to the distinct names, a new one comes last. -/
theorem eraseDups_concat (names : List String) (name : String) :
    (names ++ [name]).eraseDups =
      if name ∈ names then names.eraseDups else names.eraseDups ++ [name] := by
  rw [List.eraseDups_append, List.removeAll]
  by_cases h : name ∈ names
  · rw [if_pos h, List.filter_cons_of_neg (by simpa using h)]
    simp
  · rw [if_neg h, List.filter_cons_of_pos (by simpa using h)]
    rfl

variable {α : Type} {nameOf : α → String} {as : List α} {name : String} {a : α}

/-- No later item of the list has the name. -/
def LastUnder (nameOf : α → String) (as : List α) (name : String) (a : α) : Prop :=
  ∃ before later, as = before ++ a :: later ∧ nameOf a = name ∧ ∀ b ∈ later, nameOf b ≠ name

theorem LastUnder.name_eq (h : LastUnder nameOf as name a) : nameOf a = name := by
  obtain ⟨_, _, _, hname, _⟩ := h
  exact hname

theorem find?_reverse_eq_some_iff :
    (as.reverse.find? fun a => nameOf a == name) = some a ↔ LastUnder nameOf as name a := by
  rw [List.find?_eq_some_iff_append]
  constructor
  · rintro ⟨hname, later, before, has, hlater⟩
    refine ⟨before.reverse, later.reverse, ?_, by simpa using hname, fun b hb => ?_⟩
    · rw [← List.reverse_reverse as, has]
      simp
    · simpa using hlater b (List.mem_reverse.mp hb)
  · rintro ⟨before, later, rfl, hname, hlater⟩
    refine ⟨by simpa using hname, later.reverse, before.reverse, by simp, fun b hb => ?_⟩
    simpa using hlater b (List.mem_reverse.mp hb)

theorem find?_reverse_eq_none_iff :
    (as.reverse.find? fun a => nameOf a == name) = none ↔ ∀ a ∈ as, nameOf a ≠ name := by
  simp

namespace Roster

/-- What is entered is found under its name, and under any other name what was found before. -/
theorem find?_enter (r : Roster α) (name other : String) (a : α) :
    (r.enter name a).find? other = if other = name then some a else r.find? other := by
  split
  · rename_i h
    rw [h, find?_enter_self]
  · rename_i h
    exact find?_enter_of_ne r a h

/-- The items one after the other, each under its name. -/
def keyed (nameOf : α → String) (as : List α) : Roster α := ofList (as.map fun a => (nameOf a, a))

theorem keyed_concat (nameOf : α → String) (as : List α) (a : α) :
    keyed nameOf (as ++ [a]) = (keyed nameOf as).enter (nameOf a) a := by
  simp [keyed, ofList]

theorem find?_keyed (nameOf : α → String) (as : List α) (name : String) :
    (keyed nameOf as).find? name = as.reverse.find? fun a => nameOf a == name := by
  induction as using List.reverseRecOn with
  | nil => rfl
  | append_singleton rest a ih =>
    rw [keyed_concat, find?_enter, ih, List.reverse_concat, List.find?_cons]
    by_cases h : name = nameOf a
    · simp [h]
    · simp [h, beq_false_of_ne (Ne.symm h)]

/-- Under each name the last item that has it, if any has. -/
theorem find?_keyed_eq_some_iff :
    (keyed nameOf as).find? name = some a ↔ LastUnder nameOf as name a := by
  rw [find?_keyed, find?_reverse_eq_some_iff]

theorem find?_keyed_eq_none_iff :
    (keyed nameOf as).find? name = none ↔ ∀ a ∈ as, nameOf a ≠ name := by
  rw [find?_keyed, find?_reverse_eq_none_iff]

/-- The distinct names, in the order in which they first came. -/
theorem names_keyed (nameOf : α → String) (as : List α) :
    (keyed nameOf as).names = (as.map nameOf).eraseDups := by
  induction as using List.reverseRecOn with
  | nil => rfl
  | append_singleton rest a ih =>
    rw [keyed_concat, names_enter, ih, List.map_append, List.map_singleton, eraseDups_concat]
    simp only [List.mem_eraseDups]

/-- One item for each name, in the order of the names. -/
theorem map_values_keyed (nameOf : α → String) (as : List α) :
    (keyed nameOf as).values.map nameOf = (as.map nameOf).eraseDups := by
  have hname : ∀ p ∈ (keyed nameOf as).entries, nameOf p.2 = p.1 := by
    intro p hp
    exact (find?_keyed_eq_some_iff.mp ((find?_eq_some_iff _ p.1 p.2).mpr hp)).name_eq
  have hnames : (keyed nameOf as).values.map nameOf = (keyed nameOf as).names := by
    rw [values, List.map_map]
    exact List.map_congr_left hname
  rw [hnames, names_keyed]

theorem mem_values_keyed_iff :
    a ∈ (keyed nameOf as).values ↔ LastUnder nameOf as (nameOf a) a := by
  rw [mem_values_iff]
  simp only [find?_keyed_eq_some_iff]
  refine ⟨fun ⟨n, hlast⟩ => ?_, fun hlast => ⟨_, hlast⟩⟩
  have hsame : nameOf a = n := hlast.name_eq
  exact hsame ▸ hlast

end Roster

end RelationalMapping
