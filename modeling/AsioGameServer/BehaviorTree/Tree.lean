import Mathlib.Data.List.Basic
import Mathlib.Tactic.Common

namespace AsioGameServer.behavior

/-- A behaviour tree as it is written: the children of a selector stand under keys, and its
own key is a variable that it reads when it runs. -/
inductive Tree (φ κ : Type) where
  | sequence (children : List (Tree φ κ))
  | selector (key : κ) (children : List (Int × Tree φ κ))
  | actor (func : φ)

/-- What the actors work on: the values that they read and change, and the calls of actors
so far with their results. -/
structure Env (φ σ : Type) where
  state : σ
  calls : List (φ × Bool)
deriving DecidableEq, Repr

/-- What actors do, and how a key variable is read. -/
structure Actors (φ κ δ σ : Type) where
  act : φ → δ → σ → Bool × σ
  read : κ → σ → Int

variable {φ κ δ σ : Type}

def Actors.call (a : Actors φ κ δ σ) (func : φ) (delta : δ) (e : Env φ σ) : Bool × Env φ σ :=
  let (result, state) := a.act func delta e.state
  (result, ⟨state, e.calls ++ [(func, result)]⟩)

mutual

/-- Direct evaluation: a sequence runs its children up to the first that fails, a selector
runs the child under the present value of its key. -/
def Tree.eval (a : Actors φ κ δ σ) (delta : δ) : Tree φ κ → Env φ σ → Bool × Env φ σ
  | .sequence children, e => evalAll a delta children e
  | .selector key children, e => evalBranch a delta (a.read key e.state) children e
  | .actor func, e => a.call func delta e

def evalAll (a : Actors φ κ δ σ) (delta : δ) : List (Tree φ κ) → Env φ σ → Bool × Env φ σ
  | [], e => (true, e)
  | child :: children, e =>
    match child.eval a delta e with
    | (true, e) => evalAll a delta children e
    | (false, e) => (false, e)

def evalBranch (a : Actors φ κ δ σ) (delta : δ) (key : Int) : List (Int × Tree φ κ) → Env φ σ → Bool × Env φ σ
  | [], e => (false, e)
  | (k, child) :: children, e =>
    if k = key then child.eval a delta e else evalBranch a delta key children e

end

/-- A sequence that begins with an actor goes on where the actor returns true. -/
theorem evalAll_actor_cons (a : Actors φ κ δ σ) (delta : δ) (func : φ) (children : List (Tree φ κ)) (s : σ)
    (calls : List (φ × Bool)) :
    (evalAll a delta (.actor func :: children) ⟨s, calls⟩).2.state =
      if (a.act func delta s).1 then
        (evalAll a delta children ⟨(a.act func delta s).2, calls ++ [(func, true)]⟩).2.state
      else (a.act func delta s).2 := by
  rw [evalAll, Tree.eval, Actors.call]
  cases hresult : (a.act func delta s).1 with
  | true => simp [hresult]
  | false => simp [hresult]

theorem evalAll_singleton (a : Actors φ κ δ σ) (delta : δ) (child : Tree φ κ) (e : Env φ σ) :
    (evalAll a delta [child] e).2 = (child.eval a delta e).2 := by
  rw [evalAll]
  obtain ⟨result, e'⟩ := child.eval a delta e
  cases result with
  | true => simp [evalAll]
  | false => rfl

mutual

/-- How deep the calls of an evaluation go. -/
def Tree.height : Tree φ κ → Nat
  | .sequence children => heightAll children + 1
  | .selector _ children => heightBranches children + 1
  | .actor _ => 1

def heightAll : List (Tree φ κ) → Nat
  | [] => 0
  | child :: children => max child.height (heightAll children)

def heightBranches : List (Int × Tree φ κ) → Nat
  | [] => 0
  | (_, child) :: children => max child.height (heightBranches children)

end

mutual

/-- No selector has two children under one key. -/
def Tree.Distinct : Tree φ κ → Prop
  | .sequence children => DistinctAll children
  | .selector _ children => (children.map Prod.fst).Nodup ∧ DistinctBranches children
  | .actor _ => True

def DistinctAll : List (Tree φ κ) → Prop
  | [] => True
  | child :: children => child.Distinct ∧ DistinctAll children

def DistinctBranches : List (Int × Tree φ κ) → Prop
  | [] => True
  | (_, child) :: children => child.Distinct ∧ DistinctBranches children

end

end AsioGameServer.behavior
