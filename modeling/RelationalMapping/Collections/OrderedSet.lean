/-!
Sets that keep the order in which their members came in.
-/

namespace RelationalMapping

/-- Distinct members in the order of their first insertion. -/
structure OrderedSet (α : Type) where
  toList : List α
  nodup : toList.Nodup

namespace OrderedSet

variable {α : Type}

def empty : OrderedSet α := ⟨[], List.nodup_nil⟩

instance : Inhabited (OrderedSet α) := ⟨empty⟩

def size (s : OrderedSet α) : Nat := s.toList.length

/-- A member that is there already stays where it is. -/
def insert [DecidableEq α] (s : OrderedSet α) (a : α) : OrderedSet α :=
  if h : a ∈ s.toList then s
  else
    { toList := s.toList ++ [a]
      nodup := by
        rw [List.nodup_append]
        refine ⟨s.nodup, by simp, fun x hx y hy => ?_⟩
        rintro rfl
        exact h (List.mem_singleton.1 hy ▸ hx) }

def insertAll [DecidableEq α] (s : OrderedSet α) (as : List α) : OrderedSet α :=
  as.foldl insert s

theorem mem_insert [DecidableEq α] (s : OrderedSet α) (a b : α) :
    b ∈ (s.insert a).toList ↔ b ∈ s.toList ∨ b = a := by
  unfold insert
  split
  · rename_i h
    exact ⟨.inl, fun hb => hb.elim id fun e => e ▸ h⟩
  · simp

end OrderedSet

end RelationalMapping
