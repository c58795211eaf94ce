import AsioGameServer.Component.State
import AsioGameServer.Lib.Transition

open Transition

namespace AsioGameServer.component

inductive Hook where
  | BeginPlay | Tick | EndPlay
deriving DecidableEq, Repr

/-- Where a call of `Component::Update` is: it was entered, it is in a hook, before
`Remove`, before the loop over the children, or in the loop with its iterator, which is
`none` at the end of the list. -/
inductive Frame where
  | Update (c : Nat)
  | hook (c : Nat) (hook : Hook)
  | Remove (c : Nat)
  | children (c : Nat)
  | loop (c : Nat) (iter : Option Nat)
deriving DecidableEq, Repr

/-- The components, the calls of `Update` that the game thread is in, the innermost
first, and the hooks that were called so far. -/
structure System where
  heap : Heap
  stack : List Frame
  hooks : List (Nat × Hook)

/-- The game thread enters `Update` of a component, or takes its next step. All other
calls come from a hook or from another thread at any time. -/
inductive Event where
  | construct
  | CreateComponent
  | Attach (p c : Nat)
  | Detach (p c : Nat)
  | Distroy (c : Nat)
  | SetTag (tag : String) (c : Nat)
  | RemoveTag (tag : String) (c : Nat)
  | Update (c : Nat)
  | run
deriving DecidableEq, Repr

/-- The components that an event refers to. -/
def Event.components : Event → List Nat
  | .Attach p c | .Detach p c => [p, c]
  | .Distroy c | .SetTag _ c | .RemoveTag _ c | .Update c => [c]
  | .construct | .CreateComponent | .run => []

/-- The element after an element of a list. -/
def successor (com : Nat) : List Nat → Option Nat
  | [] => none
  | head :: rest => if head = com then rest.head? else successor com rest

/-- The hook that `Update` calls in a state. -/
def hookOf : world.ComponentState → Hook
  | .Alive => .Tick
  | .Create => .BeginPlay
  | .Destroy => .EndPlay

namespace System

/-- Nothing was constructed. -/
def start : System := ⟨.start, [], []⟩

/-- The next step of `Component::Update`. The loop goes on only from an iterator into the
list. -/
def run (s : System) : Option System :=
  match s.stack with
  | [] => none
  | .Update c :: rest =>
    let hook := hookOf (s.heap.get c).state
    some { s with stack := .hook c hook :: rest, hooks := s.hooks ++ [(c, hook)] }
  | .hook c .Tick :: rest => some { s with stack := .children c :: rest }
  | .hook c .BeginPlay :: rest =>
    some { s with heap := s.heap.onComponent c ({ · with state := .Alive }), stack := .children c :: rest }
  | .hook c .EndPlay :: rest => some { s with stack := .Remove c :: rest }
  | .Remove c :: rest => some { s with heap := s.heap.Remove c, stack := .children c :: rest }
  | .children c :: rest => some { s with stack := .loop c (s.heap.get c).children.head? :: rest }
  | .loop _ none :: rest => some { s with stack := rest }
  | .loop c (some com) :: rest =>
    let children := (s.heap.get c).children
    if com ∈ children then some { s with stack := .Update com :: .loop c (successor com children) :: rest }
    else none

/-- What an event does. -/
def step (s : System) : Event → Option System
  | .construct => some { s with heap := s.heap.construct }
  | .CreateComponent => some { s with heap := s.heap.CreateComponent }
  | .Attach p c => some { s with heap := s.heap.Attach p c }
  | .Detach p c => some { s with heap := s.heap.Detach p c }
  | .Distroy c => (s.heap.Distroy c).map fun heap => { s with heap }
  | .SetTag tag c => some { s with heap := s.heap.SetTag tag c }
  | .RemoveTag tag c => some { s with heap := s.heap.RemoveTag c tag }
  | .Update c => if s.stack = [] then some { s with stack := [.Update c] } else none
  | .run => s.run

/-- The steps of the system. Only components that were constructed are referred to. -/
def next (s : System) (e : Event) : Option System :=
  if ∀ c ∈ e.components, c < s.heap.count then s.step e else none

/-- The hooks of one component, in the order of their calls. -/
def hooksOf (s : System) (c : Nat) : List Hook := (s.hooks.filter (·.1 = c)).map Prod.snd

/-- The game thread goes on without interruption. -/
def Runs : System → System → Prop := Relation.ReflTransGen fun s t => s.run = some t

end System

end AsioGameServer.component
