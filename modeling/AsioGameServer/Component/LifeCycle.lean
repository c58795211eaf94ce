import AsioGameServer.Component.Graph

open Function Relation Transition

namespace AsioGameServer.component

variable {s t : System} {e : Event} {c d p r x : Nat} {hooks : List Hook}

/-- `BeginPlay`, then any number of `Tick`, then `EndPlay`, cut off anywhere. -/
def LifeCycle (hooks : List Hook) : Prop := ∃ n, hooks <+: .BeginPlay :: List.replicate n .Tick ++ [.EndPlay]

namespace LifeCycle

theorem nil : LifeCycle [] := ⟨0, List.nil_prefix⟩

theorem begin : LifeCycle [.BeginPlay] := ⟨0, [.EndPlay], rfl⟩

/-- Before `EndPlay` there is nothing, or `BeginPlay` and some `Tick`. -/
theorem eq_of_not_ended (h : LifeCycle hooks) (hend : .EndPlay ∉ hooks) (hne : hooks ≠ []) :
    ∃ n, hooks = .BeginPlay :: List.replicate n .Tick := by
  obtain ⟨n, hprefix⟩ := h
  obtain rfl | hprefix := List.prefix_concat_iff.mp hprefix
  · simp at hend
  · obtain rfl | ⟨ticks, rfl, hticks⟩ := List.prefix_cons_iff.mp hprefix
    · exact absurd rfl hne
    · exact ⟨ticks.length, congrArg _ (List.prefix_replicate_iff.mp hticks).2⟩

theorem tick (h : LifeCycle hooks) (hend : .EndPlay ∉ hooks) (hne : hooks ≠ []) :
    LifeCycle (hooks ++ [.Tick]) := by
  obtain ⟨n, rfl⟩ := h.eq_of_not_ended hend hne
  exact ⟨n + 1, [.EndPlay], by rw [List.replicate_succ', List.cons_append]⟩

theorem finish (h : LifeCycle hooks) (hend : .EndPlay ∉ hooks) (hne : hooks ≠ []) :
    LifeCycle (hooks ++ [.EndPlay]) := by
  obtain ⟨n, rfl⟩ := h.eq_of_not_ended hend hne
  exact ⟨n, List.prefix_rfl⟩

end LifeCycle

namespace System

/-- The components that the game thread may still come to: those under the root and those
under the components it is at. -/
def reach (r : Nat) (s : System) : List Nat := (r :: s.stack.map Frame.owner).flatMap s.heap.subtree

theorem mem_reach_iff (hw : s.heap.WellFormed) :
    c ∈ s.reach r ↔ ∃ a, (a = r ∨ ∃ f ∈ s.stack, f.owner = a) ∧ s.heap.family.Below c a := by
  simp [reach, List.mem_flatMap, hw.mem_subtree_iff, or_and_right, exists_or]

theorem hooksOf_append (f : Nat) (hook : Hook) {heap heap' : Heap} {stack stack' : List Frame}
    {hooks : List (Nat × Hook)} : hooksOf ⟨heap, stack, hooks ++ [(f, hook)]⟩ c =
      hooksOf ⟨heap', stack', hooks⟩ c ++ if c = f then [hook] else [] := by
  by_cases hc : c = f
  · simp [hooksOf, hc]
  · simp [hooksOf, hc, Ne.symm hc]

end System

/-- The runs in question: only the root is updated, only fresh components are attached,
none of them above its new parent, and none is detached. -/
def passesFrom (r : Nat) (s : System) : Event → Prop
  | .Attach p c => c ∉ s.heap.ancestors p ∧ c ≠ r ∧
      ∀ d ∈ s.heap.subtree c, s.hooksOf d = [] ∧ (s.heap.get d).state = .Create
  | .Detach _ _ => False
  | .Update c => c = r
  | _ => True

/-- Nothing under a component that is to be destroyed still waits for its `BeginPlay`, and
there is no further pass from a root that has ended. -/
def endsBegun (r : Nat) (s : System) : Event → Prop
  | .Distroy x => ∀ c ∈ s.heap.subtree x, c ∈ s.reach r → s.hooksOf c ≠ []
  | .Update c => .EndPlay ∉ s.hooksOf c
  | _ => True

instance : Decidable (passesFrom r s e) :=
  match e with
  | .Attach p c => inferInstanceAs (Decidable (c ∉ s.heap.ancestors p ∧ c ≠ r ∧
      ∀ d ∈ s.heap.subtree c, s.hooksOf d = [] ∧ (s.heap.get d).state = .Create))
  | .Update c => inferInstanceAs (Decidable (c = r))
  | .Detach _ _ => .isFalse id
  | .construct | .CreateComponent | .Distroy _ | .SetTag _ _ | .RemoveTag _ _ | .run => .isTrue trivial

instance : Decidable (endsBegun r s e) :=
  match e with
  | .Distroy x => inferInstanceAs (Decidable (∀ c ∈ s.heap.subtree x, c ∈ s.reach r → s.hooksOf c ≠ []))
  | .Update c => inferInstanceAs (Decidable (.EndPlay ∉ s.hooksOf c))
  | .construct | .CreateComponent | .Attach _ _ | .Detach _ _ | .SetTag _ _ | .RemoveTag _ _ | .run => .isTrue trivial

/-- How the hooks of a component, its state and its place go together. -/
structure Staged (r : Nat) (s : System) : Prop where
  wf : s.WellFormed
  lifeCycle : ∀ c, LifeCycle (s.hooksOf c)
  unbegun : ∀ c ∈ s.reach r, s.hooksOf c = [] → (s.heap.get c).state = .Create
  begun : ∀ c, s.hooksOf c ≠ [] → (s.heap.get c).state ≠ .Create ∨ s.stack.head? = some (.hook c .BeginPlay)
  ended : ∀ c, .EndPlay ∈ s.hooksOf c → (s.heap.get c).parent = none ∨
    s.stack.head? = some (.hook c .EndPlay) ∨ s.stack.head? = some (.Remove c)
  entered : ∀ c, s.stack.head? = some (.Update c) → .EndPlay ∉ s.hooksOf c
  hooked : ∀ c hook, s.stack.head? = some (.hook c hook) → s.hooksOf c ≠ []
  loops : ∀ f ∈ s.stack.tail, ∃ c iter, f = .loop c iter

namespace Staged

theorem start : Staged r .start := by
  refine ⟨.start, fun c => .nil, fun c _ _ => rfl, fun c hne => absurd rfl hne, fun c hend => ?_,
    fun c hhead => ?_, fun c hook hhead => ?_, fun f hf => ?_⟩
  · cases hend
  · cases hhead
  · cases hhead
  · cases hf

/-- Events that change the components only, and hand a parent only to those that have not
ended. -/
theorem of_heap (hs : Staged r s) {heap : Heap} (hw : System.WellFormed { s with heap })
    (hunbegun : ∀ c ∈ System.reach r { s with heap }, s.hooksOf c = [] → (heap.get c).state = .Create)
    (hbegun : ∀ c, (s.heap.get c).state ≠ .Create → (heap.get c).state ≠ .Create)
    (hended : ∀ c, .EndPlay ∈ s.hooksOf c → (heap.get c).parent = (s.heap.get c).parent) :
    Staged r { s with heap } := by
  refine ⟨hw, hs.lifeCycle, hunbegun, fun c hne => ?_, fun c hend => ?_, hs.entered, hs.hooked, hs.loops⟩
  · exact (hs.begun c hne).imp_left (hbegun c)
  · rw [hended c hend]
    exact hs.ended c hend

/-- The same where the family stays as it is. -/
theorem of_family (hs : Staged r s) {heap : Heap} (hw : System.WellFormed { s with heap })
    (hfamily : heap.family = s.heap.family) (hstate : ∀ c, (heap.get c).state = (s.heap.get c).state) :
    Staged r { s with heap } := by
  refine hs.of_heap hw (fun c hc hnone => ?_) (fun c => by rw [hstate c]; exact id) fun c _ => ?_
  · rw [hstate c]
    refine hs.unbegun c ?_ hnone
    rw [System.mem_reach_iff hs.wf.heap]
    rw [System.mem_reach_iff hw.heap] at hc
    rwa [← hfamily]
  · exact congrFun (congrArg Family.parent hfamily) c

/-- What the game thread may come to does not grow where no parent is new and it is only at
components that it might have come to. -/
theorem unbegun_of_reach (hs : Staged r s) (hw : t.heap.WellFormed)
    (hup : ∀ c p, t.heap.family.Under c p → s.heap.family.Under c p)
    (howners : ∀ f ∈ t.stack, f.owner ∈ s.reach r) (hc : c ∈ t.reach r) (hnone : s.hooksOf c = []) :
    (s.heap.get c).state = .Create := by
  refine hs.unbegun c ?_ hnone
  obtain ⟨a, ha, hbelow⟩ := (System.mem_reach_iff hw).mp hc
  have hold : s.heap.family.Below c a := hbelow.lift id hup
  obtain rfl | ⟨f, hf, rfl⟩ := ha
  · exact (System.mem_reach_iff hs.wf.heap).mpr ⟨a, .inl rfl, hold⟩
  · obtain ⟨b, hb, hout⟩ := (System.mem_reach_iff hs.wf.heap).mp (howners f hf)
    exact (System.mem_reach_iff hs.wf.heap).mpr ⟨b, hb, hold.trans hout⟩

theorem owner_mem_reach (hs : Staged r s) {f : Frame} (hf : f ∈ s.stack) : f.owner ∈ s.reach r :=
  (System.mem_reach_iff hs.wf.heap).mpr ⟨_, .inr ⟨f, hf, rfl⟩, .refl⟩

section Run

variable {heap : Heap} {rest : List Frame} {hooks : List (Nat × Hook)} {f g : Frame}

/-- The innermost call goes on in the same component, with nothing but its own state
changed. -/
theorem owners_of_same (hs : Staged r ⟨heap, f :: rest, hooks⟩) (howner : g.owner = f.owner) :
    ∀ f' ∈ g :: rest, f'.owner ∈ System.reach r ⟨heap, f :: rest, hooks⟩ := by
  intro f' hf'
  obtain rfl | hrest := List.mem_cons.mp hf'
  · rw [howner]
    exact hs.owner_mem_reach List.mem_cons_self
  · exact hs.owner_mem_reach (List.mem_cons_of_mem _ hrest)

/-- `Update` calls the hook of the state. -/
theorem run_Update (hs : Staged r ⟨heap, .Update c :: rest, hooks⟩)
    (hw : System.WellFormed ⟨heap, .hook c (hookOf (heap.get c).state) :: rest,
      hooks ++ [(c, hookOf (heap.get c).state)]⟩) :
    Staged r ⟨heap, .hook c (hookOf (heap.get c).state) :: rest, hooks ++ [(c, hookOf (heap.get c).state)]⟩ := by
  have hhooks : ∀ d, System.hooksOf ⟨heap, .hook c (hookOf (heap.get c).state) :: rest,
      hooks ++ [(c, hookOf (heap.get c).state)]⟩ d = System.hooksOf ⟨heap, .Update c :: rest, hooks⟩ d ++
        if d = c then [hookOf (heap.get c).state] else [] := fun d => System.hooksOf_append c _
  have hend := hs.entered c rfl
  have hbegun : ∀ d, System.hooksOf ⟨heap, .Update c :: rest, hooks⟩ d ≠ [] → (heap.get d).state ≠ .Create :=
    fun d hne => (hs.begun d hne).resolve_right (by simp)
  have hended : ∀ d, .EndPlay ∈ System.hooksOf ⟨heap, .Update c :: rest, hooks⟩ d → (heap.get d).parent = none :=
    fun d hmem => (hs.ended d hmem).resolve_right (by simp)
  refine ⟨hw, fun d => ?_, fun d hd hnone => ?_, fun d hne => ?_, fun d hmem => ?_, fun d hhead => ?_,
    fun d hook hhead => ?_, hs.loops⟩
  · rw [hhooks]
    by_cases hd : d = c
    · subst hd
      rw [if_pos rfl]
      by_cases hfirst : System.hooksOf ⟨heap, .Update d :: rest, hooks⟩ d = []
      · rw [hfirst, hs.unbegun d (hs.owner_mem_reach (f := .Update d) List.mem_cons_self) hfirst]
        exact .begin
      · cases hstate : (heap.get d).state with
        | Create => exact absurd hstate (hbegun d hfirst)
        | Alive => exact (hs.lifeCycle d).tick hend hfirst
        | Destroy => exact (hs.lifeCycle d).finish hend hfirst
    · rw [if_neg hd, List.append_nil]
      exact hs.lifeCycle d
  · rw [hhooks] at hnone
    exact hs.unbegun_of_reach hw.heap (fun _ _ => id) (owners_of_same hs rfl) hd (List.append_eq_nil_iff.mp hnone).1
  · by_cases hd : d = c
    · subst hd
      cases hstate : (heap.get d).state with
      | Create => exact .inr rfl
      | Alive => exact .inl (by simp)
      | Destroy => exact .inl (by simp)
    · rw [hhooks, if_neg hd, List.append_nil] at hne
      exact .inl (hbegun d hne)
  · rw [hhooks] at hmem
    by_cases hd : d = c
    · subst hd
      rw [if_pos rfl, List.mem_append, List.mem_singleton] at hmem
      rw [← hmem.resolve_left hend]
      exact .inr (.inl rfl)
    · rw [if_neg hd, List.append_nil] at hmem
      exact .inl (hended d hmem)
  · cases hhead
  · obtain ⟨rfl, _⟩ : c = d ∧ _ := by simpa using hhead
    rw [hhooks, if_pos rfl]
    simp

/-- A hook, the loop or the call itself returns, which changes no component. -/
theorem run_return (hs : Staged r ⟨heap, f :: rest, hooks⟩) (hw : System.WellFormed ⟨heap, g :: rest, hooks⟩)
    (howner : g.owner = f.owner) (hbegin : ∀ c, f ≠ .hook c .BeginPlay)
    (hend : ∀ c, f = .hook c .EndPlay → g = .Remove c) (hremove : ∀ c, f ≠ .Remove c)
    (hentered : ∀ c, g ≠ .Update c) (hhooked : ∀ c hook, g ≠ .hook c hook) :
    Staged r ⟨heap, g :: rest, hooks⟩ := by
  refine ⟨hw, hs.lifeCycle, fun d hd hnone => ?_, fun d hne => ?_, fun d hmem => ?_, fun d hhead => ?_,
    fun d hook hhead => ?_, hs.loops⟩
  · exact hs.unbegun_of_reach hw.heap (fun _ _ => id) (owners_of_same hs howner) hd hnone
  · exact .inl ((hs.begun d hne).resolve_right fun hhead => hbegin d (Option.some.inj hhead))
  · obtain hnone | hhead | hhead := hs.ended d hmem
    · exact .inl hnone
    · exact .inr (.inr (congrArg some (hend d (Option.some.inj hhead))))
    · exact absurd (Option.some.inj hhead) (hremove d)
  · exact absurd (Option.some.inj hhead) (hentered d)
  · exact absurd (Option.some.inj hhead) (hhooked d hook)

/-- A component is alive once its `BeginPlay` returned, whatever happened meanwhile. -/
theorem run_BeginPlay (hs : Staged r ⟨heap, .hook c .BeginPlay :: rest, hooks⟩)
    (hw : System.WellFormed ⟨heap.onComponent c ({ · with state := .Alive }), .children c :: rest, hooks⟩) :
    Staged r ⟨heap.onComponent c ({ · with state := .Alive }), .children c :: rest, hooks⟩ := by
  have hother : ∀ d, d ≠ c → (heap.onComponent c ({ · with state := .Alive })).get d = heap.get d :=
    fun d hd => Heap.onComponent_of_ne hd
  have hup : ∀ d, ((heap.onComponent c ({ · with state := .Alive })).get d).parent = (heap.get d).parent := by
    refine Heap.onComponent_same Component.parent ?_
    exact fun _ => rfl
  refine ⟨hw, hs.lifeCycle, fun d hd hnone => ?_, fun d hne => ?_, fun d hmem => ?_, fun d hhead => ?_,
    fun d hook hhead => ?_, hs.loops⟩
  · have hne : d ≠ c := by
      rintro rfl
      exact hs.hooked d .BeginPlay rfl hnone
    change ((heap.onComponent c ({ · with state := .Alive })).get d).state = .Create
    rw [hother d hne]
    refine hs.unbegun_of_reach hw.heap (fun e p hunder => ?_) (owners_of_same hs rfl) hd hnone
    exact (hup e).symm.trans hunder
  · by_cases hd : d = c
    · subst hd
      simp
    · refine .inl ?_
      change ((heap.onComponent c ({ · with state := .Alive })).get d).state ≠ .Create
      rw [hother d hd]
      refine (hs.begun d hne).resolve_right fun hhead => hd ?_
      simpa using (Option.some.inj hhead).symm
  · obtain hnone | hhead | hhead := hs.ended d hmem
    · exact .inl ((hup d).trans hnone)
    · simp at hhead
    · simp at hhead
  · cases hhead
  · cases hhead

theorem run_Remove (hs : Staged r ⟨heap, .Remove c :: rest, hooks⟩)
    (hw : System.WellFormed ⟨heap.removed c, .children c :: rest, hooks⟩) :
    Staged r ⟨heap.removed c, .children c :: rest, hooks⟩ := by
  refine ⟨hw, hs.lifeCycle, fun d hd hnone => ?_, fun d hne => ?_, fun d hmem => ?_, fun d hhead => ?_,
    fun d hook hhead => ?_, hs.loops⟩
  · refine hs.unbegun_of_reach hw.heap (fun e p hunder => ?_) (owners_of_same hs rfl) hd hnone
    have hparent : (if e = c then none else (heap.get e).parent) = some p := hunder
    split at hparent
    · cases hparent
    · exact hparent
  · exact .inl ((hs.begun d hne).resolve_right (by simp))
  · refine .inl ?_
    change (if d = c then none else (heap.get d).parent) = none
    obtain hnone | hhead | hhead := hs.ended d hmem
    · rw [hnone, ite_self]
    · simp at hhead
    · obtain rfl : c = d := by simpa using hhead
      exact if_pos rfl
  · cases hhead
  · cases hhead

/-- The loop is over, and the call it is in returns to the loop that made it. -/
theorem run_pop (hs : Staged r ⟨heap, .loop c none :: rest, hooks⟩) (hw : System.WellFormed ⟨heap, rest, hooks⟩) :
    Staged r ⟨heap, rest, hooks⟩ := by
  have hloop : ∀ f, rest.head? = some f → ∃ c iter, f = .loop c iter := fun f hhead =>
    hs.loops f (List.mem_of_mem_head? hhead)
  refine ⟨hw, hs.lifeCycle, fun d hd hnone => ?_, fun d hne => ?_, fun d hmem => ?_, fun d hhead => ?_,
    fun d hook hhead => ?_, fun f hf => hs.loops f (List.mem_of_mem_tail hf)⟩
  · exact hs.unbegun_of_reach hw.heap (fun _ _ => id)
      (fun f hf => hs.owner_mem_reach (List.mem_cons_of_mem _ hf)) hd hnone
  · exact .inl ((hs.begun d hne).resolve_right (by simp))
  · exact .inl ((hs.ended d hmem).resolve_right (by simp))
  · obtain ⟨_, _, hf⟩ := hloop _ hhead
    cases hf
  · obtain ⟨_, _, hf⟩ := hloop _ hhead
    cases hf

/-- The loop calls `Update` of a child, which has a parent and therefore has not ended. -/
theorem run_loop {com : Nat} {iter : Option Nat} (hs : Staged r ⟨heap, .loop c (some com) :: rest, hooks⟩)
    (hw : System.WellFormed ⟨heap, .Update com :: .loop c iter :: rest, hooks⟩) (hcom : com ∈ (heap.get c).children) :
    Staged r ⟨heap, .Update com :: .loop c iter :: rest, hooks⟩ := by
  have hparent : (heap.get com).parent = some c := (hs.wf.heap.forest.mem_children c com).mp hcom
  refine ⟨hw, hs.lifeCycle, fun d hd hnone => ?_, fun d hne => ?_, fun d hmem => ?_, fun d hhead hmem => ?_,
    fun d hook hhead => ?_, fun f hf => ?_⟩
  · refine hs.unbegun_of_reach hw.heap (fun _ _ => id) (fun f hf => ?_) hd hnone
    obtain rfl | hf := List.mem_cons.mp hf
    · exact (System.mem_reach_iff hs.wf.heap).mpr ⟨c, .inr ⟨_, List.mem_cons_self, rfl⟩, .single hparent⟩
    · exact owners_of_same hs (g := .loop c iter) rfl f hf
  · exact .inl ((hs.begun d hne).resolve_right (by simp))
  · exact .inl ((hs.ended d hmem).resolve_right (by simp))
  · obtain rfl : com = d := by simpa using hhead
    have hnone := (hs.ended com hmem).resolve_right (by simp)
    exact Option.some_ne_none c (hparent.symm.trans hnone)
  · cases hhead
  · obtain rfl | hf := List.mem_cons.mp hf
    · exact ⟨c, iter, rfl⟩
    · exact hs.loops f hf

end Run

theorem run (hs : Staged r s) (hrun : s.run = some t) : Staged r t := by
  have hw := hs.wf.run hrun
  obtain ⟨heap, stack, hooks⟩ := s
  obtain _ | ⟨f, rest⟩ := stack
  · cases hrun
  cases f with
  | Update c =>
    cases hrun
    exact hs.run_Update hw
  | hook c hook =>
    cases hook with
    | BeginPlay =>
      cases hrun
      exact hs.run_BeginPlay hw
    | Tick =>
      cases hrun
      exact hs.run_return hw rfl (by simp) (by simp) (by simp) (by simp) (by simp)
    | EndPlay =>
      cases hrun
      exact hs.run_return hw rfl (by simp) (by simp) (by simp) (by simp) (by simp)
  | Remove c =>
    have hgone : heap.Remove c = heap.removed c := hs.wf.heap.Remove_eq c
    simp only [System.run, hgone, Option.some.injEq] at hrun
    subst hrun
    exact hs.run_Remove hw
  | children c =>
    cases hrun
    exact hs.run_return hw rfl (by simp) (by simp) (by simp) (by simp) (by simp)
  | loop c iter =>
    cases iter with
    | none =>
      cases hrun
      exact hs.run_pop hw
    | some com =>
      simp only [System.run] at hrun
      split at hrun
      · cases hrun
        exact hs.run_loop hw ‹_›
      · cases hrun

/-- What is attached waits for its `BeginPlay`, with all that is under it. -/
theorem Attach (hs : Staged r s) (hw : System.WellFormed { s with heap := s.heap.Attach p c })
    (hnot : c ∉ s.heap.ancestors p)
    (hfresh : ∀ d ∈ s.heap.subtree c, s.hooksOf d = [] ∧ (s.heap.get d).state = .Create) :
    Staged r { s with heap := s.heap.Attach p c } := by
  have hstate : ∀ d, ((s.heap.Attach p c).get d).state = (s.heap.get d).state :=
    Heap.Attach_same Component.state (fun _ _ => rfl) fun _ _ => rfl
  by_cases hroot : (s.heap.get c).parent = none
  · have hfamily := Heap.family_Attach (p := p) hroot
    have hapart : ¬ s.heap.family.Below p c := fun hbelow => hnot (hs.wf.heap.mem_ancestors_iff.mpr hbelow)
    refine hs.of_heap hw (fun d hd hnone => ?_) (fun d => by rw [hstate d]; exact id) fun d hend => ?_
    · rw [hstate d]
      obtain ⟨a, ha, hbelow⟩ := (System.mem_reach_iff hw.heap).mp hd
      have hsplit : s.heap.family.Below d a ∨ s.heap.family.Below d c := by
        change (s.heap.Attach p c).family.Below d a at hbelow
        rw [hfamily] at hbelow
        obtain rfl | habove := reflTransGen_iff_eq_or_transGen.mp hbelow
        · exact .inl .refl
        · exact (Family.transGen_attach hapart habove).imp (fun hold => hold.to_reflTransGen) fun hnew => hnew.1
      obtain hold | hunder := hsplit
      · exact hs.unbegun d ((System.mem_reach_iff hs.wf.heap).mpr ⟨a, ha, hold⟩) hnone
      · exact (hfresh d (hs.wf.heap.mem_subtree_iff.mpr hunder)).2
    · have hne : d ≠ c := by
        rintro rfl
        rw [(hfresh d (hs.wf.heap.mem_subtree_self d)).1] at hend
        cases hend
      exact (congrFun (congrArg Family.parent hfamily) d).trans (update_of_ne hne _ _)
  · have hsame : s.heap.Attach p c = s.heap := if_neg hroot
    rwa [hsame]

/-- What is destroyed and may still be updated has begun. -/
theorem marked (hs : Staged r s) (hw : System.WellFormed { s with heap := s.heap.marked (s.heap.subtree x) })
    (hbegun : ∀ c ∈ s.heap.subtree x, c ∈ s.reach r → s.hooksOf c ≠ []) :
    Staged r { s with heap := s.heap.marked (s.heap.subtree x) } := by
  refine hs.of_heap hw (fun d hd hnone => ?_) (fun d hstate => ?_) fun d _ => ?_
  · have hreach : d ∈ s.reach r := by
      rw [System.mem_reach_iff hw.heap] at hd
      rw [System.mem_reach_iff hs.wf.heap]
      simpa using hd
    have hnot : d ∉ s.heap.subtree x := fun hmem => hbegun d hmem hreach hnone
    simp only [Heap.marked, if_neg hnot]
    exact hs.unbegun d hreach hnone
  · simp only [Heap.marked]
    split
    · simp
    · exact hstate
  · exact Heap.marked_same Component.parent (fun _ _ => rfl) _ d

/-- A pass starts from the root, which has not ended. -/
theorem Update (hs : Staged r s) (hw : System.WellFormed { s with stack := [.Update r] }) (hidle : s.stack = [])
    (hroot : .EndPlay ∉ s.hooksOf r) : Staged r { s with stack := [.Update r] } := by
  refine ⟨hw, hs.lifeCycle, fun d hd hnone => ?_, fun d hne => ?_, fun d hmem => ?_, fun d hhead => ?_,
    fun d hook hhead => ?_, fun f hf => ?_⟩
  · refine hs.unbegun_of_reach hw.heap (fun _ _ => id) (fun f hf => ?_) hd hnone
    rw [List.mem_singleton.mp hf]
    exact (System.mem_reach_iff hs.wf.heap).mpr ⟨r, .inl rfl, .refl⟩
  · exact .inl ((hs.begun d hne).resolve_right (by simp [hidle]))
  · exact .inl ((hs.ended d hmem).resolve_right (by simp [hidle]))
  · obtain rfl : r = d := by simpa using hhead
    exact hroot
  · cases hhead
  · cases hf

theorem next (hs : Staged r s) (hok : endsBegun r s e) (hpasses : passesFrom r s e) (hnext : s.next e = some t) :
    Staged r t := by
  have hw : t.WellFormed := by
    refine hs.wf.next ?_ hnext
    cases e with
    | Attach p c => exact hpasses.1
    | _ => trivial
  unfold System.next at hnext
  split at hnext
  · cases e with
    | construct =>
      cases hnext
      exact hs.of_family hw rfl fun _ => rfl
    | CreateComponent =>
      cases hnext
      exact hs.of_family hw rfl fun _ => rfl
    | Attach p c =>
      cases hnext
      exact hs.Attach hw hpasses.1 hpasses.2.2
    | Detach p c => exact hpasses.elim
    | Distroy x =>
      simp only [System.step, hs.wf.heap.Distroy_eq, Option.map_some, Option.some.injEq] at hnext
      subst hnext
      exact hs.marked hw hok
    | SetTag tag c =>
      cases hnext
      exact hs.of_family hw Heap.family_SetTag (Heap.SetTag_same Component.state fun _ _ => rfl)
    | RemoveTag tag c =>
      cases hnext
      exact hs.of_family hw Heap.family_RemoveTag fun d => by rw [Heap.RemoveTag_get]
    | Update c =>
      simp only [System.step] at hnext
      split at hnext
      · rename_i hidle
        cases hnext
        obtain rfl : c = r := hpasses
        exact hs.Update hw hidle hok
      · cases hnext
    | run => exact hs.run hnext
  · cases hnext

end Staged

/-- As long as whatever is destroyed in the tree has begun, and no pass is made from a root
that has ended, the hooks of every component are those of a life cycle. -/
theorem hooks_follow_life_cycle {events : List Event}
    (hrun : Run (Guarded (endsBegun r) (Guarded (passesFrom r) (OfOption System.next))) .start events s) (c : Nat) :
    LifeCycle (s.hooksOf c) := by
  have hstaged : Staged r s := hrun.invariant .start fun _ _ _ hs ⟨hok, hpasses, hstep⟩ =>
    hs.next hok hpasses hstep
  exact hstaged.lifeCycle c

/-- A parent with a child, both alive. -/
def begunChild : List Event :=
  [.CreateComponent, .CreateComponent, .Attach 1 3, .Update 1] ++ List.replicate 9 .run

theorem hooks_follow_life_cycle_child :
    ∃ s, Run (Guarded (endsBegun 1) (Guarded (passesFrom 1) (OfOption System.next))) .start
      (begunChild ++ [.Update 1, .run, .Distroy 3] ++ List.replicate 9 .run) s ∧
      s.hooksOf 1 = [.BeginPlay, .Tick] ∧ s.hooksOf 3 = [.BeginPlay, .EndPlay] ∧ LifeCycle (s.hooksOf 3) := by
  have hrun : ∃ s, Run (Guarded (endsBegun 1) (Guarded (passesFrom 1) (OfOption System.next))) .start
      (begunChild ++ [.Update 1, .run, .Distroy 3] ++ List.replicate 9 .run) s ∧
      s.hooksOf 1 = [.BeginPlay, .Tick] ∧ s.hooksOf 3 = [.BeginPlay, .EndPlay] := by
    simp only [guarded_ofOption, run_ofOption_iff]
    exact ⟨_, rfl, by decide, by decide⟩
  obtain ⟨s, hrun, hfirst, hsecond⟩ := hrun
  exact ⟨s, hrun, hfirst, hsecond, hooks_follow_life_cycle hrun 3⟩

/-- A child that is destroyed before its first pass ends without a beginning, and a destroyed
root ends in every pass. -/
theorem hooks_leave_life_cycle :
    (∃ s, Run (Guarded (passesFrom 1) (OfOption System.next)) .start
      ([.CreateComponent, .CreateComponent, .Attach 1 3, .Distroy 3, .Update 1] ++ List.replicate 10 .run) s ∧
      s.hooksOf 3 = [.EndPlay] ∧ ¬ LifeCycle (s.hooksOf 3)) ∧
    ∃ s, Run (Guarded (passesFrom 1) (OfOption System.next)) .start
      ([.CreateComponent, .Update 1] ++ List.replicate 4 .run ++ [.Distroy 1, .Update 1] ++ List.replicate 5 .run ++
        [.Update 1] ++ List.replicate 5 .run) s ∧
      s.hooksOf 1 = [.BeginPlay, .EndPlay, .EndPlay] ∧ ¬ LifeCycle (s.hooksOf 1) := by
  have hno : ¬ LifeCycle [.EndPlay] ∧ ¬ LifeCycle [.BeginPlay, .EndPlay, .EndPlay] := by
    constructor
    · rintro ⟨n, hprefix⟩
      simp at hprefix
    · rintro ⟨n, hprefix⟩
      cases n with
      | zero => simp at hprefix
      | succ n => simp [List.replicate_succ] at hprefix
  simp only [guarded_ofOption, run_ofOption_iff]
  constructor
  · refine ⟨_, rfl, by decide, ?_⟩
    exact hno.1
  · refine ⟨_, rfl, by decide, ?_⟩
    exact hno.2

end AsioGameServer.component
