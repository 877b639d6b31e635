import RelationalMapping.Failure.Kind

/-!
Failures kept as shared nodes. A node holds what a failure is and, once it was given one, its
cause; it counts its holders, which are the handles to it and the nodes it is the cause of, and is
freed with the last of them.
-/

namespace RelationalMapping

/-- A handle to a node of the store. -/
structure FailureRef where
  index : Nat
deriving DecidableEq, Repr

structure FailureNode where
  kind : FailureKind
  cause : Option FailureRef := none
  holders : Nat
deriving DecidableEq, Repr

/-- A freed node leaves its place empty for good. -/
structure FailureStore where
  nodes : List (Option FailureNode)
deriving Repr

namespace FailureStore

def empty : FailureStore := ⟨[]⟩

def node? (s : FailureStore) (r : FailureRef) : Option FailureNode := s.nodes[r.index]?.join

/-- How many nodes are not freed. -/
def live (s : FailureStore) : Nat := s.nodes.countP Option.isSome

def put (s : FailureStore) (r : FailureRef) (n : FailureNode) : FailureStore :=
  ⟨s.nodes.set r.index (some n)⟩

def free (s : FailureStore) (r : FailureRef) : FailureStore := ⟨s.nodes.set r.index none⟩

theorem live_free_lt {s : FailureStore} {r : FailureRef} {n : FailureNode}
    (h : s.node? r = some n) : (s.free r).live < s.live := by
  obtain ⟨l⟩ := s
  obtain ⟨i⟩ := r
  have hi : l[i]? = some (some n) := by simpa [node?, Option.join_eq_some_iff] using h
  simp only [free, live]
  clear h
  induction l generalizing i with
  | nil => simp at hi
  | cons x rest ih =>
    cases i with
    | zero =>
      have hx : x = some n := by simpa using hi
      subst hx
      simp
    | succ i =>
      have := ih i (by simpa using hi)
      simp only [List.set_cons_succ, List.countP_cons]
      omega

theorem node?_put_self {s : FailureStore} {r : FailureRef} (n : FailureNode)
    (h : r.index < s.nodes.length) : (s.put r n).node? r = some n := by
  simp [node?, put, h]

theorem node?_put_of_ne {s : FailureStore} {r q : FailureRef} (n : FailureNode) (h : q ≠ r) :
    (s.put r n).node? q = s.node? q := by
  have hi : r.index ≠ q.index := fun e => h (by cases q; cases r; simp_all)
  simp [node?, put, List.getElem?_set_ne hi]

theorem node?_free_of_ne {s : FailureStore} {r q : FailureRef} (h : q ≠ r) :
    (s.free r).node? q = s.node? q := by
  have hi : r.index ≠ q.index := fun e => h (by cases q; cases r; simp_all)
  simp [node?, free, List.getElem?_set_ne hi]

/-- A new node, held by the handle that is answered. -/
def create (s : FailureStore) (kind : FailureKind) : FailureStore × FailureRef :=
  (⟨s.nodes ++ [some { kind, holders := 1 }]⟩, ⟨s.nodes.length⟩)

/-- One more handle to the same node. -/
def share (s : FailureStore) (r : FailureRef) : FailureStore :=
  match s.node? r with
  | none => s
  | some n => s.put r { n with holders := n.holders + 1 }

/-- Gives one holder up. The last one takes the node with it, and with the node one holder of its
cause. -/
def release (s : FailureStore) (r : FailureRef) : FailureStore :=
  match _h : s.node? r with
  | none => s
  | some n =>
      if n.holders ≤ 1 then
        match n.cause with
        | none => s.free r
        | some c => (s.free r).release c
      else s.put r { n with holders := n.holders - 1 }
termination_by s.live
decreasing_by exact live_free_lt ‹_›

/-- Makes `base` the cause of `consequent`, whose handle then stands for both. This is possible
only while nothing else holds the consequent and it has no cause. -/
def attach? (s : FailureStore) (base consequent : FailureRef) : Option FailureStore :=
  match s.node? consequent with
  | none => none
  | some n =>
      if n.holders = 1 ∧ n.cause = none then some (s.put consequent { n with cause := some base })
      else none

/-- The failures from a node down to the first cause. -/
def chain (s : FailureStore) (r : FailureRef) : FailureChain :=
  match _h : s.node? r with
  | none => []
  | some n =>
      n.kind ::
        match n.cause with
        | none => []
        | some c => (s.free r).chain c
termination_by s.live
decreasing_by exact live_free_lt ‹_›

end FailureStore

end RelationalMapping
