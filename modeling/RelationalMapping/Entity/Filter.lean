/-!
Filters: named restrictions with parameters, which a session can switch on.
-/

namespace RelationalMapping

structure Filter where
  name : String
  /-- Applies where a use of the filter has no condition of its own. -/
  condition : Option String := none
  /-- The types of the parameters, in the order of the parameters' names. -/
  parameters : List (String × String) := []
deriving DecidableEq, Repr

namespace Filter

/-- Puts the pair in its place, or in that of the pair with the same name. -/
def insertParameter (name type : String) : List (String × String) → List (String × String)
  | [] => [(name, type)]
  | (n, t) :: rest =>
      if name = n then (n, type) :: rest
      else if name < n then (name, type) :: (n, t) :: rest
      else (n, t) :: insertParameter name type rest

def withParameter (f : Filter) (name type : String) : Filter :=
  { f with parameters := insertParameter name type f.parameters }

def parameterType? (f : Filter) (name : String) : Option String := f.parameters.lookup name

theorem lookup_insertParameter (name type other : String) (l : List (String × String)) :
    (insertParameter name type l).lookup other =
      if other = name then some type else l.lookup other := by
  by_cases h : other = name
  · subst h
    induction l with
    | nil => simp [insertParameter]
    | cons p rest ih =>
      obtain ⟨n, t⟩ := p
      by_cases hn : other = n
      · simp [insertParameter, hn]
      · by_cases hl : other < n
        · simp [insertParameter, hn, hl]
        · simpa [insertParameter, List.lookup_cons, hn, hl, beq_false_of_ne hn] using ih
  · induction l with
    | nil => simp [insertParameter, List.lookup_cons, h, beq_false_of_ne h]
    | cons p rest ih =>
      obtain ⟨n, t⟩ := p
      by_cases hn : name = n
      · subst hn
        simp [insertParameter, List.lookup_cons, h, beq_false_of_ne h]
      · by_cases hl : name < n
        · simp [insertParameter, List.lookup_cons, hn, hl, h, beq_false_of_ne h]
        · by_cases ho : other = n
          · simp [insertParameter, hn, hl, ho]
            simp [← ho, h]
          · simpa [insertParameter, List.lookup_cons, hn, hl, h, beq_false_of_ne ho] using ih

end Filter

end RelationalMapping
