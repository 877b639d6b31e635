/-!
Rosters: entries under distinct names, in the order in which the names were first entered.
Entering under a taken name takes over its entry in its place, a new name goes to the end, so
looking a name up finds what was entered last (`find?_enter_self`) and no other name moves
(`names_enter`).
-/

namespace RelationalMapping

/-- Entries in order, at most one under each name. -/
structure Roster (α : Type) where
  entries : List (String × α)
  nodup : (entries.map Prod.fst).Nodup
deriving Repr

namespace Roster

variable {α : Type}

def empty : Roster α := ⟨[], List.nodup_nil⟩

instance : Inhabited (Roster α) := ⟨empty⟩

def names (r : Roster α) : List String := r.entries.map Prod.fst

def values (r : Roster α) : List α := r.entries.map Prod.snd

def size (r : Roster α) : Nat := r.entries.length

def isEmpty (r : Roster α) : Bool := r.entries.isEmpty

/-- The entry of that name. -/
def find? (r : Roster α) (name : String) : Option α := r.entries.lookup name

def contains (r : Roster α) (name : String) : Bool := (r.find? name).isSome

/-- Replaces the first entry of the name in its place, or else appends one. -/
def enterInto (name : String) (a : α) : List (String × α) → List (String × α)
  | [] => [(name, a)]
  | (n, b) :: rest => if name = n then (n, a) :: rest else (n, b) :: enterInto name a rest

theorem map_fst_enterInto (name : String) (a : α) (l : List (String × α)) :
    (enterInto name a l).map Prod.fst =
      if name ∈ l.map Prod.fst then l.map Prod.fst else l.map Prod.fst ++ [name] := by
  induction l with
  | nil => simp [enterInto]
  | cons p rest ih =>
    obtain ⟨n, b⟩ := p
    by_cases h : name = n
    · simp [enterInto, h]
    · by_cases hm : name ∈ rest.map Prod.fst
      · simp only [enterInto, h, if_false, List.map_cons, ih, hm, if_true,
          List.mem_cons, or_true]
      · simp only [enterInto, h, if_false, List.map_cons, ih, hm, List.mem_cons, or_self,
          List.cons_append]

theorem nodup_enterInto (name : String) (a : α) (l : List (String × α))
    (h : (l.map Prod.fst).Nodup) : ((enterInto name a l).map Prod.fst).Nodup := by
  rw [map_fst_enterInto]
  split
  · exact h
  · rename_i hn
    rw [List.nodup_append]
    refine ⟨h, by simp, fun x hx y hy => ?_⟩
    rintro rfl
    exact hn (List.mem_singleton.1 hy ▸ hx)

def enter (r : Roster α) (name : String) (a : α) : Roster α :=
  ⟨enterInto name a r.entries, nodup_enterInto name a r.entries r.nodup⟩

/-- Enters the pairs one after the other. -/
def ofList (pairs : List (String × α)) : Roster α :=
  pairs.foldl (fun r p => r.enter p.1 p.2) empty

/-- Equality that disregards the order of the entries. -/
def sameEntries [BEq α] (r s : Roster α) : Bool :=
  r.size == s.size && r.entries.all fun p => s.find? p.1 == some p.2

@[simp] theorem find?_empty (name : String) : (empty : Roster α).find? name = none := rfl

@[simp] theorem names_empty : (empty : Roster α).names = [] := rfl

@[simp] theorem entries_empty : (empty : Roster α).entries = [] := rfl

theorem lookup_enterInto_self (name : String) (a : α) (l : List (String × α)) :
    (enterInto name a l).lookup name = some a := by
  induction l with
  | nil => simp [enterInto]
  | cons p rest ih =>
    obtain ⟨n, b⟩ := p
    by_cases h : name = n
    · simp [enterInto, h]
    · simp [enterInto, h, List.lookup_cons, beq_false_of_ne h, ih]

theorem lookup_enterInto_of_ne {name other : String} (a : α) (l : List (String × α))
    (h : other ≠ name) : (enterInto name a l).lookup other = l.lookup other := by
  induction l with
  | nil => simp [enterInto, List.lookup_cons, beq_false_of_ne h]
  | cons p rest ih =>
    obtain ⟨n, b⟩ := p
    by_cases hn : name = n
    · subst hn
      simp [enterInto, List.lookup_cons, beq_false_of_ne h]
    · by_cases ho : other = n
      · simp [enterInto, hn, ho]
      · simp [enterInto, hn, List.lookup_cons, beq_false_of_ne ho, ih]

theorem find?_enter_self (r : Roster α) (name : String) (a : α) :
    (r.enter name a).find? name = some a :=
  lookup_enterInto_self name a r.entries

theorem find?_enter_of_ne (r : Roster α) {name other : String} (a : α) (h : other ≠ name) :
    (r.enter name a).find? other = r.find? other :=
  lookup_enterInto_of_ne a r.entries h

/-- Names being distinct, looking one up finds every entry there is. -/
theorem find?_eq_some_iff (r : Roster α) (name : String) (a : α) :
    r.find? name = some a ↔ (name, a) ∈ r.entries := by
  obtain ⟨l, hl⟩ := r
  simp only [find?]
  induction l with
  | nil => simp
  | cons p rest ih =>
    obtain ⟨n, b⟩ := p
    obtain ⟨hn, hrest⟩ := List.nodup_cons.1 hl
    by_cases h : name = n
    · subst h
      have hout : (name, a) ∉ rest := fun hm => hn (List.mem_map.2 ⟨_, hm, rfl⟩)
      simp [hout, eq_comm]
    · simp [List.lookup_cons, beq_false_of_ne h, h, ih hrest]

theorem mem_values_iff (r : Roster α) (a : α) :
    a ∈ r.values ↔ ∃ name, r.find? name = some a := by
  simp [values, find?_eq_some_iff]

theorem contains_iff_mem_names (r : Roster α) (name : String) :
    r.contains name = true ↔ name ∈ r.names := by
  obtain ⟨l, hl⟩ := r
  simp only [contains, find?, names]
  clear hl
  induction l with
  | nil => simp
  | cons p rest ih =>
    obtain ⟨n, b⟩ := p
    by_cases h : name = n
    · simp [h]
    · simp [List.lookup_cons, beq_false_of_ne h, h, ih]

/-- A taken name keeps the order of names, a new one comes last. -/
theorem names_enter (r : Roster α) (name : String) (a : α) :
    (r.enter name a).names = if name ∈ r.names then r.names else r.names ++ [name] :=
  map_fst_enterInto name a r.entries

theorem find?_eq_none_iff (r : Roster α) (name : String) :
    r.find? name = none ↔ name ∉ r.names := by
  rw [← contains_iff_mem_names]
  simp [contains]

end Roster

end RelationalMapping
