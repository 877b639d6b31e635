import RelationalMapping.Collections.Roster
import RelationalMapping.Text.Description

/-!
Free remarks on parts of a mapping. They stand on levels, one inside the other, and a name is
looked up from the innermost level outwards.
-/

namespace RelationalMapping

structure Remark where
  name : String
  values : List String
deriving DecidableEq, Repr

/-- The value of a remark that has exactly one. -/
def Remark.value? (a : Remark) : Option String :=
  match a.values with
  | [v] => some v
  | _ => none

instance : Describe Remark where
  describe a := .record "MetaAttribute" [("name", describe a.name), ("values", describe a.values)]

/-- The innermost level and the levels around it, nearest first. -/
structure Remarks where
  own : Roster Remark := .empty
  outer : List (Roster Remark) := []

namespace Remarks

/-- An empty level inside the given ones. -/
def within (parent : Remarks) : Remarks := ⟨.empty, parent.own :: parent.outer⟩

def parent? (a : Remarks) : Option Remarks :=
  match a.outer with
  | [] => none
  | level :: rest => some ⟨level, rest⟩

/-- Remarks are entered on the innermost level. -/
def add (a : Remarks) (remark : Remark) : Remarks :=
  { a with own := a.own.enter remark.name remark }

/-- From the innermost level outwards. -/
def levels (a : Remarks) : List (Roster Remark) := a.own :: a.outer

def depth (a : Remarks) : Nat := a.levels.length

/-- Looks on the innermost level only. -/
def own? (a : Remarks) (name : String) : Option Remark := a.own.find? name

/-- The remark on the innermost level that has one of that name. -/
def find? (a : Remarks) (name : String) : Option Remark :=
  a.levels.findSome? fun level => level.find? name

def isEmpty (a : Remarks) : Bool := a.levels.all Roster.isEmpty

/-- The description of a level, given that of the level around it. -/
def describeLevel (level : Roster Remark) (around : Description) : Description :=
  .record "MetaAttributeContext"
    [("parent", around),
     ("meta_attributes", .map (level.entries.map fun p => (p.1, describe p.2)))]

def describeOuter : List (Roster Remark) → Description
  | [] => .plain "None"
  | level :: rest => .tuple "Some" [describeLevel level (describeOuter rest)]

instance : Describe Remarks := ⟨fun a => describeLevel a.own (describeOuter a.outer)⟩

theorem find?_within (parent : Remarks) (name : String) :
    (within parent).find? name = parent.find? name := by
  simp [find?, levels, within, List.findSome?]

theorem find?_add_self (a : Remarks) (remark : Remark) :
    (a.add remark).find? remark.name = some remark := by
  simp [find?, levels, add, Roster.find?_enter_self]

theorem find?_add_of_ne (a : Remarks) (remark : Remark) {name : String}
    (h : name ≠ remark.name) : (a.add remark).find? name = a.find? name := by
  simp [find?, levels, add, List.findSome?, Roster.find?_enter_of_ne _ _ h]

end Remarks

end RelationalMapping
