import RelationalMapping.Text.Quoted

/-!
Descriptions of values for people to read: records, tuples, lists and maps over plain and quoted
text, written on one line (`inline`) or with one field a line (`indented`). Types that can be
described are instances of `Describe`.
-/

namespace RelationalMapping

/-- The shape of a described value. -/
inductive Description where
  | plain (text : String)
  | quoted (text : String)
  | tuple (name : String) (items : List Description)
  | record (name : String) (fields : List (String × Description))
  | list (items : List Description)
  | map (entries : List (String × Description))

namespace Description

mutual

/-- On one line, parts separated by a comma and a blank. -/
def inline : Description → String
  | .plain text => text
  | .quoted text => Text.quoted text
  | .tuple name items => name ++ "(" ++ ", ".intercalate (inlineItems items) ++ ")"
  | .record name fields => name ++ " \x7b " ++ ", ".intercalate (inlineFields fields) ++ " \x7d"
  | .list items => "[" ++ ", ".intercalate (inlineItems items) ++ "]"
  | .map entries => "\x7b" ++ ", ".intercalate (inlineEntries entries) ++ "\x7d"

def inlineItems : List Description → List String
  | [] => []
  | d :: rest => d.inline :: inlineItems rest

def inlineFields : List (String × Description) → List String
  | [] => []
  | (name, d) :: rest => (name ++ ": " ++ d.inline) :: inlineFields rest

def inlineEntries : List (String × Description) → List String
  | [] => []
  | (key, d) :: rest => (Text.quoted key ++ ": " ++ d.inline) :: inlineEntries rest

end

/-- Four blanks a level. -/
def margin (level : Nat) : String := String.ofList (List.replicate (4 * level) ' ')

/-- The parts on lines of their own, each ended by a comma, between the two brackets. -/
def block (level : Nat) (opening closing : String) (parts : List String) : String :=
  if parts.isEmpty then opening ++ closing
  else
    opening ++ "\n" ++ String.join (parts.map fun p => margin (level + 1) ++ p ++ ",\n")
      ++ margin level ++ closing

mutual

/-- With every part on a line of its own, four blanks further in than what it is a part of. -/
def indented (level : Nat) : Description → String
  | .plain text => text
  | .quoted text => Text.quoted text
  | .tuple name items => name ++ block level "(" ")" (indentedItems (level + 1) items)
  | .record name fields =>
      name ++ " " ++ block level "\x7b" "\x7d" (indentedFields (level + 1) fields)
  | .list items => block level "[" "]" (indentedItems (level + 1) items)
  | .map entries => block level "\x7b" "\x7d" (indentedEntries (level + 1) entries)

def indentedItems (level : Nat) : List Description → List String
  | [] => []
  | d :: rest => d.indented level :: indentedItems level rest

def indentedFields (level : Nat) : List (String × Description) → List String
  | [] => []
  | (name, d) :: rest => (name ++ ": " ++ d.indented level) :: indentedFields level rest

def indentedEntries (level : Nat) : List (String × Description) → List String
  | [] => []
  | (key, d) :: rest => (Text.quoted key ++ ": " ++ d.indented level) :: indentedEntries level rest

end

end Description

/-- Types whose values can be described. -/
class Describe (α : Type) where
  describe : α → Description

export Describe (describe)

/-- The description on one line. -/
def describeInline {α : Type} [Describe α] (a : α) : String := (describe a).inline

instance : Describe String := ⟨.quoted⟩

instance : Describe Bool := ⟨fun b => .plain (if b then "true" else "false")⟩

instance : Describe Nat := ⟨fun n => .plain (toString n)⟩

instance {α : Type} [Describe α] : Describe (Option α) where
  describe
    | none => .plain "None"
    | some a => .tuple "Some" [describe a]

instance {α : Type} [Describe α] : Describe (List α) := ⟨fun l => .list (l.map describe)⟩

end RelationalMapping
