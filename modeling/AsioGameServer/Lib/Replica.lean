import Mathlib.Logic.Function.Basic
import Mathlib.Tactic.Common

open Function

namespace Replica

variable {κ ν : Type} [DecidableEq κ] {view state state' : κ → Option ν} {log new : List (κ × ν)} {k : κ} {x : ν}

/-- The value that a log wrote last for a key. -/
def last : List (κ × ν) → κ → Option ν
  | [], _ => none
  | w :: log, k => (last log k).or (if w.1 = k then some w.2 else none)

/-- What is known where a log is read after what was known before. -/
def apply (view : κ → Option ν) (log : List (κ × ν)) : κ → Option ν :=
  log.foldl (fun view w => update view w.1 (some w.2)) view

theorem last_append (log new : List (κ × ν)) (k : κ) : last (log ++ new) k = (last new k).or (last log k) := by
  induction log with
  | nil => rw [List.nil_append, last, Option.or_none]
  | cons w log ih => rw [List.cons_append, last, last, ih, Option.or_assoc]

/-- The last write wins. -/
theorem apply_eq (view : κ → Option ν) (log : List (κ × ν)) (k : κ) : apply view log k = (last log k).or (view k) := by
  unfold apply
  induction log generalizing view with
  | nil => rfl
  | cons w log ih =>
    rw [List.foldl_cons, ih, last, Option.or_assoc]
    by_cases hw : w.1 = k
    · subst hw
      simp
    · rw [update_of_ne (Ne.symm hw), if_neg hw, Option.none_or]

theorem apply_append (view : κ → Option ν) (log new : List (κ × ν)) :
    apply view (log ++ new) = apply (apply view log) new := List.foldl_append

/-- A log that is read twice tells nothing more. -/
theorem apply_apply (view : κ → Option ν) (log : List (κ × ν)) : apply (apply view log) log = apply view log := by
  funext k
  rw [apply_eq, apply_eq, ← Option.or_assoc, Option.or_self]

theorem last_eq_none (hnone : ∀ w ∈ log, w.1 ≠ k) : last log k = none := by
  induction log with
  | nil => rfl
  | cons w log ih =>
    rw [last, ih fun w' hw' => hnone w' (List.mem_cons_of_mem _ hw'), if_neg (hnone w List.mem_cons_self)]
    rfl

/-- A log that says the same of a key wherever it speaks of it. -/
theorem last_eq_some (hsome : ∃ w ∈ log, w.1 = k) (hsame : ∀ w ∈ log, w.1 = k → w.2 = x) : last log k = some x := by
  induction log with
  | nil => simp at hsome
  | cons w log ih =>
    have hrest : ∀ w' ∈ log, w'.1 = k → w'.2 = x := fun w' hw' => hsame w' (List.mem_cons_of_mem _ hw')
    rw [last]
    by_cases hlater : ∃ w' ∈ log, w'.1 = k
    · rw [ih hlater hrest, Option.some_or]
    · have hnone : last log k = none := last_eq_none fun w' hw' heq => hlater ⟨w', hw', heq⟩
      have hw : w.1 = k := by
        obtain ⟨w', hw', heq⟩ := hsome
        obtain rfl | hw' := List.mem_cons.mp hw'
        · exact heq
        · exact absurd ⟨w', hw', heq⟩ hlater
      rw [hnone, Option.none_or, if_pos hw, hsame w List.mem_cons_self hw]

/-- Logs of different keys may be exchanged. -/
theorem last_append_comm {other : List (κ × ν)} (hother : ∀ w ∈ log, ∀ w' ∈ other, w.1 ≠ w'.1) (k : κ) :
    last (log ++ other) k = last (other ++ log) k := by
  rw [last_append, last_append]
  by_cases hk : ∃ w ∈ log, w.1 = k
  · obtain ⟨w, hw, rfl⟩ := hk
    have hnone : last other w.1 = none := last_eq_none fun w' hw' heq => hother w hw w' hw' heq.symm
    rw [hnone, Option.none_or, Option.or_none]
  · have hnone : last log k = none := last_eq_none fun w hw heq => hk ⟨w, hw, heq⟩
    rw [hnone, Option.none_or, Option.or_none]

theorem last_congr {log' : List (κ × ν)} (h : last log' k = last log k) (before after : List (κ × ν)) :
    last (before ++ log' ++ after) k = last (before ++ log ++ after) k := by
  rw [last_append, last_append before, last_append, last_append before, h]

/-- What is known after a log is right, wherever the state says something. -/
def Leads (view : κ → Option ν) (log : List (κ × ν)) (state : κ → Option ν) : Prop :=
  ∀ k x, state k = some x → apply view log k = some x

namespace Leads

theorem refl (state : κ → Option ν) : Leads state [] state := fun _ _ hx => hx

/-- The change of the state is appended to the log. -/
theorem write (h : Leads view log state) (hnew : Leads state new state') : Leads view (log ++ new) state' := by
  intro k x hx
  have hsaid := hnew k x hx
  rw [apply_eq] at hsaid
  rw [apply_append, apply_eq]
  cases hlast : last new k with
  | some y => rwa [hlast] at hsaid
  | none =>
    rw [hlast, Option.none_or] at hsaid
    rw [Option.none_or]
    exact h k x hsaid

/-- Only the last writes matter. -/
theorem congr {log' : List (κ × ν)} (h : Leads view log state) (hlast : ∀ k, last log' k = last log k) :
    Leads view log' state := by
  intro k x hx
  rw [apply_eq, hlast, ← apply_eq]
  exact h k x hx

/-- A part of the log was read. -/
theorem read (h : Leads view (log ++ new) state) : Leads (apply view log) new state := by
  intro k x hx
  rw [← apply_append]
  exact h k x hx

/-- Who knows the state when he begins to read knows it when he is done. -/
theorem join (h : Leads state log state) (hview : ∀ k x, state k = some x → view k = some x) :
    Leads view log state := by
  intro k x hx
  have hsaid := h k x hx
  rw [apply_eq] at hsaid ⊢
  cases hlast : last log k with
  | some y => rwa [hlast] at hsaid
  | none => rw [Option.none_or, hview k x hx]

/-- The log that leads from the old state leads from the new one as well: what it wrote was
not written otherwise. -/
theorem self (h : Leads state log state) (hnew : Leads state new state') : Leads state' (log ++ new) state' := by
  intro k x hx
  have hsaid := hnew k x hx
  rw [apply_eq] at hsaid
  rw [apply_append, apply_eq, apply_eq]
  cases hlast : last new k with
  | some y => rwa [hlast] at hsaid
  | none =>
    rw [hlast, Option.none_or] at hsaid
    have hkept := h k x hsaid
    rw [apply_eq] at hkept
    rw [Option.none_or, hx]
    cases hlog : last log k with
    | some y => rwa [hlog] at hkept
    | none => rfl

end Leads

/-- A state that changes, the writes that were not read yet, and what the readers know. -/
structure Consistent (state : κ → Option ν) (pending : List (κ × ν)) (views : List (κ → Option ν)) : Prop where
  self : Leads state pending state
  views : ∀ view ∈ views, Leads view pending state

namespace Consistent

variable {pending : List (κ × ν)} {views : List (κ → Option ν)}

theorem start (state : κ → Option ν) : Consistent state [] [] := ⟨.refl state, by simp⟩

theorem write (h : Consistent state pending views) (hnew : Leads state new state') :
    Consistent state' (pending ++ new) views :=
  ⟨h.self.self hnew, fun view hview => (h.views view hview).write hnew⟩

theorem join (h : Consistent state pending views) (hview : ∀ k x, state k = some x → view k = some x) :
    Consistent state pending (views ++ [view]) := by
  refine ⟨h.self, fun other hother => ?_⟩
  obtain hother | hother := List.mem_append.mp hother
  · exact h.views other hother
  · rw [List.mem_singleton.mp hother]
    exact h.self.join hview

theorem leave {rest : List (κ → Option ν)} (h : Consistent state pending views) (hrest : ∀ view ∈ rest, view ∈ views) :
    Consistent state pending rest := ⟨h.self, fun view hview => h.views view (hrest view hview)⟩

/-- Everything that waits is read by everybody. -/
theorem deliver (h : Consistent state pending views) :
    Consistent state [] (views.map fun view => apply view pending) := by
  refine ⟨.refl state, fun view hview => ?_⟩
  obtain ⟨before, hbefore, rfl⟩ := List.mem_map.mp hview
  have hall : Leads before (pending ++ []) state := by
    rw [List.append_nil]
    exact h.views before hbefore
  exact hall.read

end Consistent

end Replica
