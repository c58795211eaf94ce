import AsioGameServer.BehaviorTree.Tree

namespace AsioGameServer.behavior

variable {φ κ δ σ : Type}

inductive NodeType where
  | BASE | ROOT | SEQUENCE | SELECTOR | ACTOR
deriving DecidableEq, Repr

/-- The classes of nodes, which refer to each other by their places in the heap. The map of
a selector is the list of its entries. -/
inductive BTNode (φ κ : Type) where
  | BTRoot (child : Option Nat)
  | Sequence (children : List Nat)
  | Selector (key : κ) (children : List (Int × Nat))
  | Actor (func : φ)
deriving DecidableEq, Repr

namespace BTNode

/-- The type that the constructor sets. The constructor of `Actor` that takes a function
leaves the default of `BTNode`. -/
def type : BTNode φ κ → NodeType
  | .BTRoot _ => .ROOT
  | .Sequence _ => .SEQUENCE
  | .Selector _ _ => .SELECTOR
  | .Actor _ => .BASE

/-- `Insert(BTNode*)`, which does nothing where a class does not override it. -/
def Insert (btNode : Nat) : BTNode φ κ → BTNode φ κ
  | .BTRoot _ => .BTRoot (some btNode)
  | .Sequence children => .Sequence (children ++ [btNode])
  | node => node

/-- `Insert(int, BTNode*)`. `std::map::insert` keeps an entry that is there. -/
def InsertKey (key : Int) (btNode : Nat) : BTNode φ κ → BTNode φ κ
  | .Selector set_key children =>
    .Selector set_key (if key ∈ children.map Prod.fst then children else children ++ [(key, btNode)])
  | node => node

end BTNode

abbrev Heap (φ κ : Type) := List (BTNode φ κ)

section Run

variable (a : Actors φ κ δ σ) (heap : Heap φ κ) (delta : δ)

/-- The loop of `Sequence::Run`. -/
def runChildren (run : Nat → Env φ σ → Option (Bool × Env φ σ)) :
    List Nat → Env φ σ → Option (Bool × Env φ σ)
  | [], e => some (true, e)
  | child :: children, e =>
    match run child e with
    | none => none
    | some (false, e) => some (false, e)
    | some (true, e) => runChildren run children e

/-- `Run`, to a depth of calls. A root without a child follows a pointer that was never
set. -/
def Run : Nat → Nat → Env φ σ → Option (Bool × Env φ σ)
  | 0, _, _ => none
  | depth + 1, node, e =>
    match heap[node]? with
    | none | some (.BTRoot none) => none
    | some (.BTRoot (some child)) => (Run depth child e).map fun (_, e) => (true, e)
    | some (.Sequence children) => runChildren (Run depth) children e
    | some (.Selector key children) =>
      match children.lookup (a.read key e.state) with
      | some child => Run depth child e
      | none => some (false, e)
    | some (.Actor func) => some (a.call func delta e)

variable {a heap delta} {P : σ → Prop}

theorem runChildren_keeps {run : Nat → Env φ σ → Option (Bool × Env φ σ)} {children : List Nat} {e e' : Env φ σ}
    {result : Bool} (hrun : ∀ child e e' result, P e.state → run child e = some (result, e') → P e'.state)
    (he : P e.state) (h : runChildren run children e = some (result, e')) : P e'.state := by
  induction children generalizing e with
  | nil =>
    cases h
    exact he
  | cons child children ih =>
    rw [runChildren] at h
    split at h
    · cases h
    · cases h
      exact hrun child _ _ _ he ‹_›
    · exact ih (hrun child _ _ _ he ‹_›) h

/-- What every actor keeps, a tree keeps. -/
theorem Run_keeps {depth node : Nat} {e e' : Env φ σ} {result : Bool}
    (hact : ∀ func s, P s → P (a.act func delta s).2) (he : P e.state)
    (h : Run a heap delta depth node e = some (result, e')) : P e'.state := by
  induction depth generalizing node e e' result with
  | zero => cases h
  | succ depth ih =>
    rw [Run] at h
    split at h
    · cases h
    · cases h
    · obtain ⟨⟨result', e''⟩, hrun, heq⟩ := Option.map_eq_some_iff.mp h
      cases heq
      exact ih he hrun
    · exact runChildren_keeps (fun _ _ _ _ => ih) he h
    · split at h
      · exact ih he h
      · cases h
        exact he
    · cases h
      exact hact _ _ he

end Run

/-- A `BehaviorTreeBuilder`, which every call returns a copy of: the nodes are shared, the
stack of open nodes is copied. -/
structure BehaviorTreeBuilder where
  root : Nat
  parents : List Nat
deriving DecidableEq, Repr

/-- The calls on a builder. -/
inductive Call (φ κ : Type) where
  | end
  | sequence
  | sequenceKey (key : Int)
  | selector (set_key : κ)
  | selectorKey (key : Int) (set_key : κ)
  | actor (func : φ)
  | actorKey (key : Int) (func : φ)
deriving DecidableEq, Repr

namespace BehaviorTreeBuilder

/-- The default constructor. -/
def Create (heap : Heap φ κ) : BehaviorTreeBuilder × Heap φ κ :=
  (⟨heap.length, [heap.length]⟩, heap ++ [.BTRoot none])

def Finish (b : BehaviorTreeBuilder) : Option Nat :=
  if b.parents.length = 1 then some b.root else none

/-- `new` of a node, which is inserted below the open node. Calls without a key insert
unless that is a selector, and calls with a key only if it is one. The stack without a top
and a `pop` of it have no defined result. -/
def allocate (b : BehaviorTreeBuilder) (key : Option Int) (node : BTNode φ κ) (heap : Heap φ κ) :
    Option (Heap φ κ) := do
  let top ← b.parents.head?
  let parent ← heap[top]?
  let parent := match key with
    | none => if parent.type ≠ .SELECTOR then parent.Insert heap.length else parent
    | some key => if parent.type = .SELECTOR then parent.InsertKey key heap.length else parent
  some (heap.set top parent ++ [node])

/-- The node is open until `end`. -/
def open_ (b : BehaviorTreeBuilder) (key : Option Int) (node : BTNode φ κ) (heap : Heap φ κ) :
    Option (BehaviorTreeBuilder × Heap φ κ) :=
  (b.allocate key node heap).map ({ b with parents := heap.length :: b.parents }, ·)

def end_ (b : BehaviorTreeBuilder) (heap : Heap φ κ) : Option (BehaviorTreeBuilder × Heap φ κ) :=
  match b.parents with
  | [] => none
  | _ :: parents => some ({ b with parents }, heap)

def sequence (b : BehaviorTreeBuilder) (heap : Heap φ κ) : Option (BehaviorTreeBuilder × Heap φ κ) :=
  b.open_ none (.Sequence []) heap

def sequenceKey (key : Int) (b : BehaviorTreeBuilder) (heap : Heap φ κ) :
    Option (BehaviorTreeBuilder × Heap φ κ) :=
  b.open_ (some key) (.Sequence []) heap

def selector (set_key : κ) (b : BehaviorTreeBuilder) (heap : Heap φ κ) :
    Option (BehaviorTreeBuilder × Heap φ κ) :=
  b.open_ none (.Selector set_key []) heap

def selectorKey (key : Int) (set_key : κ) (b : BehaviorTreeBuilder) (heap : Heap φ κ) :
    Option (BehaviorTreeBuilder × Heap φ κ) :=
  b.open_ (some key) (.Selector set_key []) heap

def actor (func : φ) (b : BehaviorTreeBuilder) (heap : Heap φ κ) : Option (BehaviorTreeBuilder × Heap φ κ) :=
  (b.allocate none (.Actor func) heap).map (b, ·)

def actorKey (key : Int) (func : φ) (b : BehaviorTreeBuilder) (heap : Heap φ κ) :
    Option (BehaviorTreeBuilder × Heap φ κ) :=
  (b.allocate (some key) (.Actor func) heap).map (b, ·)

def call (b : BehaviorTreeBuilder) (heap : Heap φ κ) : Call φ κ → Option (BehaviorTreeBuilder × Heap φ κ)
  | .end => b.end_ heap
  | .sequence => b.sequence heap
  | .sequenceKey key => b.sequenceKey key heap
  | .selector set_key => b.selector set_key heap
  | .selectorKey key set_key => b.selectorKey key set_key heap
  | .actor func => b.actor func heap
  | .actorKey key func => b.actorKey key func heap

/-- A chain of calls. -/
def calls (chain : List (Call φ κ)) (b : BehaviorTreeBuilder) (heap : Heap φ κ) :
    Option (BehaviorTreeBuilder × Heap φ κ) :=
  chain.foldlM (fun (b, heap) c => b.call heap c) (b, heap)

/-- `Create`, a chain of calls, `Finish`. -/
def build (chain : List (Call φ κ)) : Option (Option Nat × Heap φ κ) := do
  let (b, heap) := Create []
  let (b, heap) ← b.calls chain heap
  some (b.Finish, heap)

end BehaviorTreeBuilder

end AsioGameServer.behavior
