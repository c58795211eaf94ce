import Mathlib.Tactic.Common

variable {α β ε τ : Type}

/-- What holds of a computation that may fail: of the value it returns, or of the
error it ends with. -/
def Outcome (Q : α → Prop) (E : ε → Prop) : Except ε α → Prop
  | .ok a => Q a
  | .error e => E e

namespace Outcome

variable {Q : α → Prop} {E F : ε → Prop} {x : Except ε α}

theorem ok (h : Outcome Q E x) {a : α} (hx : x = .ok a) : Q a := by
  subst hx
  exact h

theorem error (h : Outcome Q E x) {e : ε} (hx : x = .error e) : E e := by
  subst hx
  exact h

theorem toOption_eq_some_iff {a : α} : x.toOption = some a ↔ x = .ok a := by
  cases x with
  | ok b => exact ⟨fun h => congrArg _ (Option.some.inj h), fun h => congrArg _ (Except.ok.inj h)⟩
  | error e => exact ⟨nofun, nofun⟩

theorem toOption (h : Outcome Q E x) {a : α} (hx : x.toOption = some a) : Q a :=
  h.ok (toOption_eq_some_iff.mp hx)

/-- A computation for which no error is possible returns a value. -/
theorem returns (h : Outcome Q E x) (hnone : ∀ e, ¬ E e) : ∃ a, x = .ok a ∧ Q a := by
  cases x with
  | ok a => exact ⟨a, rfl, h⟩
  | error e => exact absurd h (hnone e)

theorem imp {R : α → Prop} (h : Outcome Q E x) (hQ : ∀ a, Q a → R a) (hE : ∀ e, E e → F e) :
    Outcome R F x := by
  cases x with
  | ok a => exact hQ a h
  | error e => exact hE e h

theorem and {R : α → Prop} (h : Outcome Q E x) (h' : Outcome R F x) : Outcome (fun a => Q a ∧ R a) E x := by
  cases x with
  | ok a => exact ⟨h, h'⟩
  | error e => exact h

theorem bind {R : β → Prop} {f : α → Except ε β} (h : Outcome Q E x)
    (hf : ∀ a, Q a → Outcome R E (f a)) : Outcome R E (x >>= f) := by
  cases x with
  | ok a => exact hf a h
  | error e => exact h

/-- A bind that returned, in its parts. -/
theorem bind_eq_ok_iff {f : α → Except ε β} {b : β} :
    (x >>= f) = .ok b ↔ ∃ a, x = .ok a ∧ f a = .ok b := by
  cases x with
  | ok a =>
    constructor
    · exact fun h => ⟨a, rfl, h⟩
    · rintro ⟨_, ⟨⟩, h⟩
      exact h
  | error e =>
    constructor
    · rintro ⟨⟩
    · rintro ⟨_, ⟨⟩, _⟩

/-- A bind that failed, in its parts. -/
theorem bind_eq_error_iff {f : α → Except ε β} {e : ε} :
    (x >>= f) = .error e ↔ x = .error e ∨ ∃ a, x = .ok a ∧ f a = .error e := by
  cases x with
  | ok a =>
    constructor
    · exact fun h => .inr ⟨a, rfl, h⟩
    · rintro (hx | ⟨_, ⟨⟩, h⟩)
      · cases hx
      · exact h
  | error e' =>
    constructor
    · exact fun h => .inl (congrArg _ (Except.error.inj h))
    · rintro (hx | ⟨_, ⟨⟩, _⟩)
      cases hx
      rfl

/-- A fold that may fail follows a fold that does not, where each of its steps
follows one step of it. -/
theorem foldlM {R : τ → α → Prop} {f : α → β → Except ε α} {g : τ → β → τ} {bs : List β} {a : α} {t : τ}
    (hinit : R t a) (hstep : ∀ t a b, b ∈ bs → R t a → Outcome (R (g t b)) E (f a b)) :
    Outcome (R (bs.foldl g t)) E (bs.foldlM f a) := by
  induction bs generalizing a t with
  | nil => exact hinit
  | cons b bs ih =>
    rw [List.foldlM_cons, List.foldl_cons]
    refine (hstep t a b List.mem_cons_self hinit).bind fun a' ha' => ih ha' ?_
    exact fun t a b hb => hstep t a b (List.mem_cons_of_mem _ hb)

/-- A fold keeps what each of its steps keeps. -/
theorem foldlM_keeps {I : α → Prop} {f : α → β → Except ε α} {bs : List β} {a : α} (hinit : I a)
    (hstep : ∀ a b, b ∈ bs → I a → Outcome I E (f a b)) : Outcome I E (bs.foldlM f a) := by
  let R : Unit → α → Prop := fun _ => I
  have hfold : Outcome (R (bs.foldl (fun _ _ => ()) ())) E (bs.foldlM f a) :=
    foldlM hinit fun _ => hstep
  exact hfold

end Outcome

namespace Except

variable {ε α β γ δ : Type}

/-- Two computations one after the other, each of which does to a part of the value what another
one does. -/
theorem map_bind {p : α → γ} {q : β → δ} {x : Except ε α} {y : Except ε γ} {f : α → Except ε β} {g : γ → Except ε δ}
    (hx : x.map p = y) (hf : ∀ a, (f a).map q = g (p a)) : (x >>= f).map q = y >>= g := by
  subst hx
  cases x with
  | ok a => exact hf a
  | error e => rfl

/-- A fold in which every step does to a part of the value what another one does. -/
theorem map_foldlM {p : α → γ} {f : α → β → Except ε α} {g : γ → β → Except ε γ}
    (hstep : ∀ a b, (f a b).map p = g (p a) b) (bs : List β) (a : α) :
    (bs.foldlM f a).map p = bs.foldlM g (p a) := by
  induction bs generalizing a with
  | nil => rfl
  | cons b bs ih =>
    rw [List.foldlM_cons, List.foldlM_cons]
    exact map_bind (hstep a b) ih

/-- The values that were computed one after the other. -/
theorem forall₂_of_mapM {f : α → Except ε β} {as : List α} {bs : List β} (h : as.mapM f = .ok bs) :
    List.Forall₂ (fun a b => f a = .ok b) as bs := by
  induction as generalizing bs with
  | nil =>
    cases h
    exact .nil
  | cons a as ih =>
    rw [List.mapM_cons] at h
    obtain ⟨b, hb, h⟩ := Outcome.bind_eq_ok_iff.mp h
    obtain ⟨bs', hbs, h⟩ := Outcome.bind_eq_ok_iff.mp h
    cases h
    exact .cons hb (ih hbs)

end Except
