import Mathlib.Logic.Relation
import Mathlib.Tactic.Common

namespace WhileLoop

variable {σ : Type} {guard : σ → Prop} {body : σ → Option σ} {s t u : σ}

/-- One iteration of `while (guard) body`: the guard holds and the body
finishes. A body without a result blocks the loop. -/
def Iterates (guard : σ → Prop) (body : σ → Option σ) (s t : σ) : Prop :=
  guard s ∧ body s = some t

/-- `t` is a state in which the loop entered in `s` evaluates its guard. -/
def Reaches (guard : σ → Prop) (body : σ → Option σ) : σ → σ → Prop :=
  Relation.ReflTransGen (Iterates guard body)

/-- The loop entered in `s` is left in `t` after finitely many iterations. -/
def Exits (guard : σ → Prop) (body : σ → Option σ) (s t : σ) : Prop :=
  Reaches guard body s t ∧ ¬ guard t

def Terminates (guard : σ → Prop) (body : σ → Option σ) (s : σ) : Prop :=
  ∃ t, Exits guard body s t

theorem exits_of_not_guard (hguard : ¬ guard s) : Exits guard body s s :=
  ⟨.refl, hguard⟩

theorem Iterates.exits (hfirst : Iterates guard body s t) (hexit : Exits guard body t u) :
    Exits guard body s u :=
  ⟨hexit.1.head hfirst, hexit.2⟩

/-- The body is a function, so the first iteration of a finished loop is the
one the loop takes. -/
theorem Exits.tail (hexit : Exits guard body s u) (hfirst : Iterates guard body s t) :
    Exits guard body t u := by
  obtain ⟨hreach, hdone⟩ := hexit
  cases hreach.cases_head with
  | inl heq =>
    subst heq
    exact absurd hfirst.1 hdone
  | inr hstep =>
    obtain ⟨next, hnext, hrest⟩ := hstep
    have heq : next = t := Option.some.inj (hnext.2.symm.trans hfirst.2)
    subst heq
    exact ⟨hrest, hdone⟩

theorem Exits.unique (hfirst : Exits guard body s t) (hsecond : Exits guard body s u) : t = u := by
  obtain ⟨hreach, hdone⟩ := hfirst
  induction hreach using Relation.ReflTransGen.head_induction_on with
  | refl =>
    cases hsecond.1.cases_head with
    | inl heq => exact heq
    | inr hstep =>
      obtain ⟨next, hnext, _⟩ := hstep
      exact absurd hnext.1 hdone
  | head hstep _ ih => exact ih (hsecond.tail hstep)

/-- What every iteration preserves holds at every evaluation of the guard. -/
theorem Reaches.invariant {Inv : σ → Prop} (hreach : Reaches guard body s t) (hinit : Inv s)
    (hstep : ∀ a b, Inv a → Iterates guard body a b → Inv b) : Inv t := by
  induction hreach with
  | refl => exact hinit
  | tail _ hlast ih => exact hstep _ _ ih hlast

/-- A loop that terminates also terminates from every state it passes. -/
theorem Reaches.terminates (hreach : Reaches guard body s t) (hterm : Terminates guard body s) :
    Terminates guard body t := by
  induction hreach using Relation.ReflTransGen.head_induction_on with
  | refl => exact hterm
  | head hstep _ ih =>
    obtain ⟨u, hexit⟩ := hterm
    exact ih ⟨u, hexit.tail hstep⟩

/-- A guard that is kept true by every iteration is never left. -/
theorem not_terminates_of_invariant (Inv : σ → Prop) (hinit : Inv s)
    (hguard : ∀ a, Inv a → guard a) (hstep : ∀ a b, Inv a → body a = some b → Inv b) :
    ¬ Terminates guard body s := by
  rintro ⟨t, hreach, hdone⟩
  have hinv : Inv t := hreach.invariant hinit (fun a b ha hab => hstep a b ha hab.2)
  exact hdone (hguard t hinv)

/-- A loop that only meets good states is left when its measure decreases from
each good state to the next one. -/
theorem terminates_of_forall_reaches (Good : σ → Prop) (measure : σ → Nat)
    (hgood : ∀ a, guard a → Good a → ∃ b, body a = some b ∧
      (guard b → Good b → measure b < measure a))
    (hall : ∀ t, Reaches guard body s t → guard t → Good t) : Terminates guard body s := by
  by_cases hguard : guard s
  · generalize hm : measure s = m
    induction m using Nat.strongRecOn generalizing s with
    | ind m ih =>
      obtain ⟨b, hbody, hless⟩ := hgood s hguard (hall s .refl hguard)
      have hfirst : Iterates guard body s b := ⟨hguard, hbody⟩
      have hrest : ∀ t, Reaches guard body b t → guard t → Good t :=
        fun t hreach => hall t (hreach.head hfirst)
      by_cases hnext : guard b
      · have hlt := hless hnext (hrest b .refl hnext)
        obtain ⟨t, hexit⟩ := ih (measure b) (by omega) hrest hnext rfl
        exact ⟨t, hfirst.exits hexit⟩
      · exact ⟨b, hfirst.exits (exits_of_not_guard hnext)⟩
  · exact ⟨s, exits_of_not_guard hguard⟩

/-- If moreover no bad state can be left, the loop terminates exactly when it
only meets good ones. -/
theorem terminates_iff_forall_reaches (Good : σ → Prop) (measure : σ → Nat)
    (hgood : ∀ a, guard a → Good a → ∃ b, body a = some b ∧
      (guard b → Good b → measure b < measure a))
    (hbad : ∀ a, guard a → ¬ Good a → ¬ Terminates guard body a) :
    Terminates guard body s ↔ ∀ t, Reaches guard body s t → guard t → Good t := by
  constructor
  · intro hterm t hreach hguard
    by_contra hnot
    exact hbad t hguard hnot (hreach.terminates hterm)
  · exact terminates_of_forall_reaches Good measure hgood

/-- Runs the loop for at most `fuel` evaluations of its guard. -/
def exec (guard : σ → Prop) [DecidablePred guard] (body : σ → Option σ) : Nat → σ → Option σ
  | 0, _ => none
  | fuel + 1, s => if guard s then (body s).bind (exec guard body fuel) else some s

theorem exits_of_exec [DecidablePred guard] {fuel : Nat}
    (h : exec guard body fuel s = some t) : Exits guard body s t := by
  induction fuel generalizing s with
  | zero => cases h
  | succ fuel ih =>
    by_cases hguard : guard s
    · simp only [exec, if_pos hguard, Option.bind_eq_some_iff] at h
      obtain ⟨next, hbody, hrest⟩ := h
      exact Iterates.exits ⟨hguard, hbody⟩ (ih hrest)
    · simp only [exec, if_neg hguard, Option.some.injEq] at h
      subst h
      exact exits_of_not_guard hguard

end WhileLoop
