import RelationalMapping.Event
import RelationalMapping.Fault

/-!
What an operation that changes something comes to: the state it leaves, whether it answers or
not, the events it reported, and its answer.
-/

namespace RelationalMapping

structure Outcome (σ α : Type) where
  state : σ
  events : List Event
  answer : Answer α

namespace Outcome

variable {σ τ α β : Type}

/-- Success, without an event. -/
def done (state : σ) (a : α) : Outcome σ α := ⟨state, [], .ok a⟩

/-- Refused: nothing was changed and nothing reported. -/
def refuse (state : σ) (fault : Fault) : Outcome σ α := ⟨state, [], .error fault⟩

/-- The same outcome for the state that the given one is a part of. -/
def within (o : Outcome σ α) (put : σ → τ) : Outcome τ α := ⟨put o.state, o.events, o.answer⟩

def map (f : α → β) (o : Outcome σ α) : Outcome σ β := ⟨o.state, o.events, o.answer.map f⟩

@[simp] theorem state_refuse (s : σ) (f : Fault) : (refuse s f : Outcome σ α).state = s := rfl

@[simp] theorem events_refuse (s : σ) (f : Fault) : (refuse s f : Outcome σ α).events = [] := rfl

@[simp] theorem answer_refuse (s : σ) (f : Fault) :
    (refuse s f : Outcome σ α).answer = .error f := rfl

@[simp] theorem state_within (o : Outcome σ α) (put : σ → τ) :
    (o.within put).state = put o.state := rfl

@[simp] theorem events_within (o : Outcome σ α) (put : σ → τ) :
    (o.within put).events = o.events := rfl

@[simp] theorem answer_within (o : Outcome σ α) (put : σ → τ) :
    (o.within put).answer = o.answer := rfl

@[simp] theorem state_map (f : α → β) (o : Outcome σ α) : (o.map f).state = o.state := rfl

@[simp] theorem events_map (f : α → β) (o : Outcome σ α) : (o.map f).events = o.events := rfl

@[simp] theorem answer_map (f : α → β) (o : Outcome σ α) :
    (o.map f).answer = o.answer.map f := rfl

end Outcome

end RelationalMapping
