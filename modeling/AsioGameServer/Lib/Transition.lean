import Mathlib.Data.List.Basic
import Mathlib.Tactic.Common

namespace Transition

variable {σ ℓ : Type} {step : σ → ℓ → σ → Prop} {s t u : σ} {l : ℓ} {ls ms : List ℓ}

/-- A finite run of a labelled step relation and the labels it takes. -/
inductive Run (step : σ → ℓ → σ → Prop) : σ → List ℓ → σ → Prop where
  | nil (s : σ) : Run step s [] s
  | cons {s t u : σ} {l : ℓ} {ls : List ℓ} (hstep : step s l t) (htail : Run step t ls u) :
      Run step s (l :: ls) u

/-- Restricts a step relation to the steps taken from a state that meets a
condition on that state and the label. -/
def Guarded (ok : σ → ℓ → Prop) (step : σ → ℓ → σ → Prop) (s : σ) (l : ℓ) (t : σ) : Prop :=
  ok s l ∧ step s l t

/-- Restricts a step relation to the steps that do something to the state. -/
def Keeping (P : σ → ℓ → σ → Prop) (step : σ → ℓ → σ → Prop) (s : σ) (l : ℓ) (t : σ) : Prop :=
  P s l t ∧ step s l t

/-- The step relation of a function on states that may have no result. -/
def OfOption (next : σ → ℓ → Option σ) (s : σ) (l : ℓ) (t : σ) : Prop :=
  next s l = some t

theorem run_append_iff : Run step s (ls ++ ms) u ↔ ∃ t, Run step s ls t ∧ Run step t ms u := by
  induction ls generalizing s with
  | nil =>
    constructor
    · exact fun h => ⟨s, .nil s, h⟩
    · rintro ⟨t, ⟨⟩, h⟩
      exact h
  | cons l ls ih =>
    constructor
    · rintro (_ | ⟨hstep, htail⟩)
      obtain ⟨t, hfirst, hsecond⟩ := ih.mp htail
      exact ⟨t, .cons hstep hfirst, hsecond⟩
    · rintro ⟨t, (_ | ⟨hstep, htail⟩), hsecond⟩
      exact .cons hstep (ih.mpr ⟨t, htail, hsecond⟩)

theorem run_singleton_iff : Run step s [l] t ↔ step s l t := by
  constructor
  · rintro (_ | ⟨hstep, ⟨⟩⟩)
    exact hstep
  · exact fun hstep => .cons hstep (.nil t)

theorem run_concat_iff : Run step s (ls ++ [l]) u ↔ ∃ t, Run step s ls t ∧ step t l u := by
  rw [run_append_iff]
  simp only [run_singleton_iff]

theorem run_ofOption_iff {next : σ → ℓ → Option σ} :
    Run (OfOption next) s ls t ↔ ls.foldlM next s = some t := by
  induction ls generalizing s with
  | nil =>
    constructor
    · rintro ⟨⟩
      rfl
    · intro h
      cases h
      exact .nil _
  | cons l ls ih =>
    rw [List.foldlM_cons, Option.bind_eq_bind, Option.bind_eq_some_iff]
    constructor
    · rintro (_ | ⟨hstep, htail⟩)
      exact ⟨_, hstep, ih.mp htail⟩
    · rintro ⟨_, hstep, htail⟩
      exact .cons hstep (ih.mpr htail)

/-- A guard that can be decided is checked as part of the function. -/
theorem guarded_ofOption {ok : σ → ℓ → Prop} [∀ a l, Decidable (ok a l)] {next : σ → ℓ → Option σ} :
    Guarded ok (OfOption next) = OfOption fun a l => if ok a l then next a l else none := by
  funext a l b
  simp [Guarded, OfOption, Option.ite_none_right_eq_some]

theorem run_guarded_ofOption_iff {ok : σ → ℓ → Prop} [∀ a l, Decidable (ok a l)]
    {next : σ → ℓ → Option σ} :
    Run (Guarded ok (OfOption next)) s ls t ↔
      ls.foldlM (fun a l => if ok a l then next a l else none) s = some t := by
  rw [guarded_ofOption, run_ofOption_iff]

/-- What every step preserves holds in every state a run reaches. -/
theorem Run.invariant {Inv : σ → Prop} (hrun : Run step s ls t) (hinit : Inv s)
    (hstep : ∀ a l b, Inv a → step a l b → Inv b) : Inv t := by
  induction hrun with
  | nil => exact hinit
  | cons hfirst _ ih => exact ih (hstep _ _ _ hinit hfirst)

/-- The same rule for an invariant that also speaks of the labels taken so far. -/
theorem Run.invariant_trace (Inv : List ℓ → σ → Prop) (hrun : Run step s ls t) (hinit : Inv [] s)
    (hstep : ∀ past a l b, Inv past a → step a l b → Inv (past ++ [l]) b) : Inv ls t := by
  suffices h : ∀ past, Inv past s → Inv (past ++ ls) t by simpa using h [] hinit
  clear hinit
  induction hrun with
  | nil => simp
  | @cons a b c l ls hfirst _ ih =>
    intro past hpast
    simpa using ih (past ++ [l]) (hstep past a l b hpast hfirst)

theorem Run.mono {other : σ → ℓ → σ → Prop} (hrun : Run step s ls t)
    (himp : ∀ a l b, step a l b → other a l b) : Run other s ls t := by
  induction hrun with
  | nil => exact .nil _
  | cons hfirst _ ih => exact .cons (himp _ _ _ hfirst) ih

theorem Run.of_guarded {ok : σ → ℓ → Prop} (hrun : Run (Guarded ok step) s ls t) :
    Run step s ls t :=
  hrun.mono (fun _ _ _ h => h.2)

theorem Run.of_keeping {P : σ → ℓ → σ → Prop} (hrun : Run (Keeping P step) s ls t) : Run step s ls t :=
  hrun.mono (fun _ _ _ h => h.2)

/-- What the steps of a run are, where an invariant holds. -/
theorem Run.mono_of_invariant (Inv : σ → Prop) {other : σ → ℓ → σ → Prop} (hrun : Run step s ls t) (hinit : Inv s)
    (hstep : ∀ a l b, Inv a → step a l b → Inv b ∧ other a l b) : Run other s ls t := by
  induction hrun with
  | nil => exact .nil _
  | cons hfirst _ ih =>
    obtain ⟨hinv, hother⟩ := hstep _ _ _ hinit hfirst
    exact .cons hother (ih hinv)

/-- Where the condition on a step says exactly what the step does, the runs whose steps all do
it are the guarded ones. -/
theorem run_guarded_iff_keeping (Inv : σ → Prop) {ok : σ → ℓ → Prop} {P : σ → ℓ → σ → Prop}
    (hinv : ∀ a l b, Inv a → step a l b → Inv b)
    (hok : ∀ a l b, Inv a → step a l b → (ok a l ↔ P a l b)) (hinit : Inv s) :
    Run (Guarded ok step) s ls t ↔ Run (Keeping P step) s ls t := by
  constructor
  · intro hrun
    refine hrun.mono_of_invariant Inv hinit ?_
    rintro a l b ha ⟨hcond, hstep⟩
    exact ⟨hinv a l b ha hstep, (hok a l b ha hstep).mp hcond, hstep⟩
  · intro hrun
    refine hrun.mono_of_invariant Inv hinit ?_
    rintro a l b ha ⟨hdoes, hstep⟩
    exact ⟨hinv a l b ha hstep, (hok a l b ha hstep).mpr hdoes, hstep⟩

/-- A label leads from a state to at most one other. -/
def Deterministic (step : σ → ℓ → σ → Prop) : Prop :=
  ∀ a l b c, step a l b → step a l c → b = c

theorem deterministic_ofOption (next : σ → ℓ → Option σ) : Deterministic (OfOption next) :=
  fun _ _ _ _ h h' => Option.some.inj (h.symm.trans h')

theorem Deterministic.run_unique (hdet : Deterministic step)
    (h : Run step s ls t) (h' : Run step s ls u) : t = u := by
  induction h with
  | nil =>
    cases h'
    rfl
  | cons hstep _ ih =>
    obtain _ | ⟨hstep', htail⟩ := h'
    obtain rfl := hdet _ _ _ _ hstep hstep'
    exact ih htail

/-- Where the condition on a step says exactly what the step must meet to keep a
property of states, the runs that keep the property throughout are the guarded
ones. The invariant may use the condition. -/
theorem run_guarded_iff_throughout {ok : σ → ℓ → Prop} {Inv P : σ → Prop}
    (hdet : Deterministic step)
    (hinv : ∀ a l b, Inv a → ok a l → step a l b → Inv b)
    (hok : ∀ a l b, Inv a → step a l b → (ok a l ↔ P b))
    (hinit : Inv s) (hfirst : P s) (hrun : Run step s ls t) :
    Run (Guarded ok step) s ls t ↔
      ∀ past future u, ls = past ++ future → Run step s past u → P u := by
  constructor
  · intro hguarded past future u hsplit hpast
    subst hsplit
    obtain ⟨v, hprefix, _⟩ := run_append_iff.mp hguarded
    obtain rfl := hdet.run_unique hpast hprefix.of_guarded
    suffices h : Inv u ∧ P u from h.2
    apply hprefix.invariant ⟨hinit, hfirst⟩
    intro a l b ⟨ha, _⟩ ⟨hcond, hstep⟩
    exact ⟨hinv a l b ha hcond hstep, (hok a l b ha hstep).mp hcond⟩
  · intro hall
    induction hrun with
    | nil => exact .nil _
    | @cons a b c l ls hstep htail ih =>
      have hnext : P b := hall [l] ls b rfl (run_singleton_iff.mpr hstep)
      have hcond : ok a l := (hok a l b hinit hstep).mpr hnext
      refine .cons ⟨hcond, hstep⟩ (ih (hinv a l b hinit hcond hstep) hnext ?_)
      intro past future u hsplit hpast
      exact hall (l :: past) future u (by rw [hsplit]; rfl) (.cons hstep hpast)

/-- Where the condition on a step says exactly when there is a step that keeps a property of
states, guarded runs are there exactly where the property can be kept throughout. -/
theorem exists_run_guarded_iff {ok : σ → ℓ → Prop} {Inv P : σ → Prop} {L : ℓ → Prop}
    (hdet : Deterministic step)
    (hinv : ∀ a l b, Inv a → L l → ok a l → step a l b → Inv b)
    (hok : ∀ a l, Inv a → L l → (ok a l ↔ ∃ b, step a l b ∧ P b))
    (hinit : Inv s) (hfirst : P s) (hlabels : ∀ l ∈ ls, L l) :
    (∃ t, Run (Guarded ok step) s ls t) ↔
      ∀ past future, ls = past ++ future → ∃ u, Run step s past u ∧ P u := by
  induction ls generalizing s with
  | nil =>
    refine ⟨fun _ past future hsplit => ?_, fun _ => ⟨s, .nil s⟩⟩
    obtain ⟨rfl, rfl⟩ := List.append_eq_nil_iff.mp hsplit.symm
    exact ⟨s, .nil s, hfirst⟩
  | cons l ls ih =>
    have hl : L l := hlabels l List.mem_cons_self
    have htail : ∀ l ∈ ls, L l := fun l' hl' => hlabels l' (List.mem_cons_of_mem l hl')
    constructor
    · rintro ⟨t, _ | ⟨⟨hcond, hstep⟩, hrest⟩⟩ past future hsplit
      rename_i b
      cases past with
      | nil => exact ⟨s, .nil s, hfirst⟩
      | cons l' past =>
        obtain ⟨rfl, hrest'⟩ := List.cons_eq_cons.mp hsplit
        obtain ⟨b', hstep', hb'⟩ := (hok s l hinit hl).mp hcond
        obtain rfl := hdet _ _ _ _ hstep hstep'
        obtain ⟨u, hrun, hu⟩ := (ih (hinv s l b hinit hl hcond hstep) hb' htail).mp ⟨t, hrest⟩ past future hrest'
        exact ⟨u, .cons hstep hrun, hu⟩
    · intro hall
      obtain ⟨b, hrun, hb⟩ := hall [l] ls rfl
      have hstep : step s l b := run_singleton_iff.mp hrun
      have hcond : ok s l := (hok s l hinit hl).mpr ⟨b, hstep, hb⟩
      obtain ⟨t, hrest⟩ := (ih (hinv s l b hinit hl hcond hstep) hb htail).mpr fun past future hsplit => by
        obtain ⟨u, _ | ⟨hfirst', hrun'⟩, hu⟩ := hall (l :: past) future (by rw [hsplit]; rfl)
        obtain rfl := hdet _ _ _ _ hstep hfirst'
        exact ⟨u, hrun', hu⟩
      exact ⟨t, .cons ⟨hcond, hstep⟩ hrest⟩

/-- The element at a position of a list of processes, with the processes around
it: what is left without it, and with another one in its place. -/
theorem split_of_getElem? {α : Type} {l : List α} {i : Nat} {x : α} (h : l[i]? = some x) :
    ∃ before after, l = before ++ x :: after ∧ l.eraseIdx i = before ++ after ∧
      ∀ y, l.set i y = before ++ y :: after := by
  obtain ⟨hi, rfl⟩ := List.getElem?_eq_some_iff.mp h
  refine ⟨l.take i, l.drop (i + 1), ?_, List.eraseIdx_eq_take_drop_succ _ _, ?_⟩
  · rw [List.getElem_cons_drop, List.take_append_drop]
  · exact fun y => List.set_eq_take_append_cons_drop.trans (if_pos hi)

end Transition
