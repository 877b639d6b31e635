import RelationalMapping.Failure.Store

/-!
Working with handles to failures. The handles lie in slots, numbered in the order in which they
were made; a step that takes a handle leaves its slot empty.
-/

namespace RelationalMapping

structure FailureDesk where
  store : FailureStore := .empty
  slots : List (Option FailureRef) := []

/-- What a failure is put into the context of: a new text, or the failure in another slot. -/
inductive FailureContext where
  | text (t : String)
  | slot (i : Nat)
deriving DecidableEq, Repr

inductive FailureStep where
  | create (kind : FailureKind)
  | clone (of : Nat)
  | context (of : Nat) (newer : FailureContext)
  | drop (of : Nat)
  | inspect (of : Nat)
deriving DecidableEq, Repr

inductive FailureReply where
  | made (slot : Nat) (chain : FailureChain)
  | dropped
  | inspected (chain : FailureChain)
deriving DecidableEq, Repr

/-- Why a step gives no reply. -/
inductive FailureRefusal where
  /-- The slot is empty, or there is no such slot. -/
  | emptySlot
  /-- A failure with a cause, or with other holders, cannot get a cause. -/
  | notFresh
deriving DecidableEq, Repr

def FailureRefusal.message : FailureRefusal → String
  | .emptySlot => "empty slot"
  | .notFresh => "consequent error must be unshared and must not already have a cause"

namespace FailureDesk

def held? (d : FailureDesk) (slot : Nat) : Option FailureRef := d.slots[slot]?.join

/-- The handle leaves its slot, but is not given up. -/
def vacate (d : FailureDesk) (slot : Nat) : FailureDesk :=
  { d with slots := d.slots.set slot none }

/-- A handle goes into the next slot. -/
def keep (d : FailureDesk) (store : FailureStore) (r : FailureRef) : FailureDesk × FailureReply :=
  ({ store, slots := d.slots ++ [some r] }, .made d.slots.length (store.chain r))

/-- Gives handles up that lie in no slot. -/
def discardAll (d : FailureDesk) (refs : List FailureRef) : FailureDesk :=
  { d with store := refs.foldl FailureStore.release d.store }

/-- Puts `base` into the context of `newer`; if that is not possible both are lost. -/
def combine (d : FailureDesk) (base newer : FailureRef) :
    FailureDesk × Except FailureRefusal FailureReply :=
  match d.store.attach? base newer with
  | some store =>
      let (d, reply) := d.keep store newer
      (d, .ok reply)
  | none => (d.discardAll [newer, base], .error .notFresh)

/-- Takes both handles out of their slots, the older first; what was taken before an empty slot
was met is lost. -/
def putInContext (d : FailureDesk) (of : Nat) (newer : FailureContext) :
    FailureDesk × Except FailureRefusal FailureReply :=
  match d.held? of with
  | none => (d, .error .emptySlot)
  | some base =>
      let d := d.vacate of
      match newer with
      | .text t =>
          let (store, r) := d.store.create (.note t)
          { d with store }.combine base r
      | .slot i =>
          match d.held? i with
          | none => (d.discardAll [base], .error .emptySlot)
          | some r => (d.vacate i).combine base r

def step (d : FailureDesk) : FailureStep → FailureDesk × Except FailureRefusal FailureReply
  | .create kind =>
      let (store, r) := d.store.create kind
      let (d, reply) := d.keep store r
      (d, .ok reply)
  | .clone of =>
      match d.held? of with
      | none => (d, .error .emptySlot)
      | some r =>
          let (d, reply) := d.keep (d.store.share r) r
          (d, .ok reply)
  | .context of newer => d.putInContext of newer
  | .drop of =>
      match d.held? of with
      | none => (d, .error .emptySlot)
      | some r => ((d.vacate of).discardAll [r], .ok .dropped)
  | .inspect of =>
      match d.held? of with
      | none => (d, .error .emptySlot)
      | some r => (d, .ok (.inspected (d.store.chain r)))

/-- The desk that the steps leave, taken one after the other. -/
def after (d : FailureDesk) : List FailureStep → FailureDesk
  | [] => d
  | s :: rest => (d.step s).1.after rest

/-- What each of the steps replied. -/
def replies (d : FailureDesk) : List FailureStep → List (Except FailureRefusal FailureReply)
  | [] => []
  | s :: rest => (d.step s).2 :: (d.step s).1.replies rest

end FailureDesk

end RelationalMapping
