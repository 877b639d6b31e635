import RelationalMapping.Text.Description

/-!
Values as they are exchanged with other programs, and the types that can be written as such a
value and read from one. A type with finitely many named values is an `Enumeration`: it is written
as the name, and reading what was written gives the value back (`read?_write`).
-/

namespace RelationalMapping

/-- An exchanged value. Of a number that is no integer only that fact is kept, since nothing here
is read from one. -/
inductive Datum where
  | null
  | bool (b : Bool)
  | whole (n : Int)
  | fraction
  | text (s : String)
  | list (items : List Datum)
  | record (fields : List (String × Datum))

/-- Types whose values can be exchanged. -/
class Exchange (α : Type) where
  write : α → Datum
  read? : Datum → Option α

namespace Exchange

/-- The value of a field of a record. -/
def field? {α : Type} [Exchange α] (fields : List (String × Datum)) (name : String) : Option α :=
  (fields.lookup name).bind read?

instance : Exchange String where
  write := .text
  read?
    | .text s => some s
    | _ => none

/-- Numbers that count or index fit into 64 bits. -/
instance : Exchange Nat where
  write n := .whole n
  read?
    | .whole n => if 0 ≤ n ∧ n.toNat < UInt64.size then some n.toNat else none
    | _ => none

instance : Exchange Int32 where
  write n := .whole n.toInt
  read?
    | .whole n =>
        if Int32.minValue.toInt ≤ n ∧ n ≤ Int32.maxValue.toInt then some (.ofInt n) else none
    | _ => none

end Exchange

/-- Types whose values are listed and told apart by name. -/
class Enumeration (α : Type) where
  all : List α
  name : α → String
  find_name : ∀ a, all.find? (fun b => name b == name a) = some a

namespace Enumeration

variable {α : Type} [Enumeration α]

def ofName? (s : String) : Option α := all.find? fun a => name a == s

theorem ofName?_name (a : α) : ofName? (name a) = some a := find_name a

/-- A value is read from its name, alone or as the only field of a record that holds nothing. -/
instance : Exchange α where
  write a := .text (name a)
  read?
    | .text s => ofName? s
    | .record [(s, .null)] => ofName? s
    | _ => none

theorem read?_write (a : α) : Exchange.read? (Exchange.write a) = some a := ofName?_name a

instance (priority := low) : Describe α := ⟨fun a => .plain (name a)⟩

end Enumeration

end RelationalMapping
