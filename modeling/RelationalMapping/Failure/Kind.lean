import RelationalMapping.Text.Description

/-!
What a failure is: a note in free text, or the report that a model is not consistent. Failures
are chained, each with the one that caused it behind it, and are read from the newest on.
-/

namespace RelationalMapping

inductive FailureKind where
  | note (text : String)
  | inconsistency (text : String)
deriving DecidableEq, Repr

namespace FailureKind

def isInconsistency : FailureKind → Bool
  | .note _ => false
  | .inconsistency _ => true

/-- An inconsistency says what it is before its text. -/
def text : FailureKind → String
  | .note t => t
  | .inconsistency t => "internal consistency failure: " ++ t

instance : Describe FailureKind where
  describe
    | .note t => .tuple "Adhoc" [.record "AdhocError" [("message", describe t)]]
    | .inconsistency t =>
        .tuple "InternalConsistency"
          [.record "InternalConsistencyError" [("message", describe t)]]

end FailureKind

/-- A failure and its causes, the newest first. -/
abbrev FailureChain := List FailureKind

namespace FailureChain

/-- The texts from the newest failure down to the first cause. -/
def text (chain : FailureChain) : String := ": ".intercalate (chain.map FailureKind.text)

/-- A failure is described together with its cause, if it has one. -/
def cause : FailureChain → Description
  | [] => .plain "None"
  | kind :: rest =>
      .tuple "Some" [.record "Error" [("kind", describe kind), ("cause", cause rest)]]

def description : FailureChain → Description
  | [] => .plain "None"
  | kind :: rest => .record "Error" [("kind", describe kind), ("cause", cause rest)]

end FailureChain

end RelationalMapping
