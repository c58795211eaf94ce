import AsioGameServer.Lib.Forest

open Function

namespace AsioGameServer.world

inductive ComponentState where
  | Create | Alive | Destroy
deriving DecidableEq, Repr

end AsioGameServer.world

namespace AsioGameServer.component

open world (ComponentState)

/-- A `Component`. Components are referred to by their `id`. -/
@[ext] structure Component where
  state : ComponentState
  parent : Option Nat
  children : List Nat
  tag : List String
deriving DecidableEq, Repr

/-- Every component that was constructed, and the statics `count`, `Components` and
`TagComponents` of the class, the maps by their keys. -/
@[ext] structure Heap where
  count : Nat
  get : Nat → Component
  Components : List Nat
  TagComponents : String → List Nat

/-- The constructor of `Component`. -/
def Component.new : Component := ⟨.Create, none, [], []⟩

namespace Heap

/-- Nothing was constructed. -/
def start : Heap := ⟨0, fun _ => .new, [], fun _ => []⟩

def onComponent (h : Heap) (c : Nat) (f : Component → Component) : Heap :=
  { h with get := update h.get c (f (h.get c)) }

/-- The parents and the lists of children. -/
def family (h : Heap) : Family Nat := ⟨fun c => (h.get c).parent, fun c => (h.get c).children⟩

/-- A component and everything under it. -/
def subtree (h : Heap) (c : Nat) : List Nat := h.family.subtree (h.count + 1) c

/-- A component and everything above it. -/
def ancestors (h : Heap) (c : Nat) : List Nat := h.family.ancestors (h.count + 1) c

/-- `std::make_shared` of a component, which gets the next `id`. -/
def construct (h : Heap) : Heap := { h with count := h.count + 1 }

/-- `Component::CreateComponent`. The constructor has counted already when `id` is set
again, so the number before it stays unused. -/
def CreateComponent (h : Heap) : Heap :=
  { h with
    count := h.count + 2
    Components := h.Components ++ [h.count + 1] }

def Attach (p c : Nat) (h : Heap) : Heap :=
  if (h.get c).parent = none then
    (h.onComponent c ({ · with parent := some p })).onComponent p fun k =>
      { k with children := k.children ++ [c] }
  else h

def Detach (p c : Nat) (h : Heap) : Heap :=
  if c ∈ (h.get p).children then
    (h.onComponent c ({ · with parent := none })).onComponent p fun k =>
      { k with children := k.children.erase c }
  else h

/-- `Component::Distroy`, to a depth of calls. -/
def DistroyFrom : Nat → Nat → Heap → Option Heap
  | 0, _, _ => none
  | depth + 1, c, h =>
    let h := h.onComponent c ({ · with state := .Destroy })
    (h.get c).children.foldlM (fun h com => DistroyFrom depth com h) h

def Distroy (c : Nat) (h : Heap) : Option Heap := DistroyFrom (h.count + 1) c h

def SetTag (tag : String) (c : Nat) (h : Heap) : Heap :=
  if tag ∈ (h.get c).tag then h
  else
    { h.onComponent c fun k => { k with tag := k.tag ++ [tag] } with
      TagComponents := update h.TagComponents tag (h.TagComponents tag ++ [c]) }

/-- `Component::RemoveTag`. The component itself keeps the tag. -/
def RemoveTag (c : Nat) (h : Heap) (tag : String) : Heap :=
  if tag ∈ (h.get c).tag then
    { h with TagComponents := update h.TagComponents tag ((h.TagComponents tag).filter (· ≠ c)) }
  else h

def Remove (c : Nat) (h : Heap) : Heap :=
  let h := match (h.get c).parent with
    | none => h
    | some parent => { h.Detach parent c with Components := h.Components.filter (· ≠ c) }
  (h.get c).tag.foldl (RemoveTag c) h

/-- `Component::GetComponent<T>`, to a depth of calls: the children are asked in order,
each before what is under it. -/
def GetComponentFrom (isT : Nat → Bool) : Nat → Nat → Heap → Option (Option Nat)
  | 0, _, _ => none
  | depth + 1, c, h =>
    (h.get c).children.foldlM (fun retval com =>
      if retval ≠ none then some retval
      else if isT com then some (some com)
      else GetComponentFrom isT depth com h) none

def GetComponent (isT : Nat → Bool) (c : Nat) (h : Heap) : Option (Option Nat) :=
  GetComponentFrom isT (h.count + 1) c h

/-- `Component::GetComponents<T>`, to a depth of calls. -/
def GetComponentsFrom (isT : Nat → Bool) : Nat → Nat → List Nat → Heap → Option (List Nat)
  | 0, _, _, _ => none
  | depth + 1, c, vec, h =>
    (h.get c).children.foldlM (fun vec com =>
      GetComponentsFrom isT depth com (if isT com then vec ++ [com] else vec) h) vec

def GetComponents (isT : Nat → Bool) (c : Nat) (h : Heap) : Option (List Nat) :=
  GetComponentsFrom isT (h.count + 1) c [] h

/-- `Component::GetParentComponent<T>`, to a depth of calls. -/
def GetParentComponentFrom (isT : Nat → Bool) : Nat → Nat → Heap → Option (Option Nat)
  | 0, _, _ => none
  | depth + 1, c, h =>
    match (h.get c).parent with
    | none => some none
    | some parent => if isT parent then some (some parent) else GetParentComponentFrom isT depth parent h

def GetParentComponent (isT : Nat → Bool) (c : Nat) (h : Heap) : Option (Option Nat) :=
  GetParentComponentFrom isT (h.count + 1) c h

end Heap

end AsioGameServer.component
