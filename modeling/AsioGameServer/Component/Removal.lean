import AsioGameServer.Component.Graph

open Function Relation Transition

namespace AsioGameServer.component

variable {h : Heap} {hooks : List (Nat × Hook)} {c d r x : Nat} {D : List Nat}

namespace System

/-- A pass over some components calls one hook of each of them. -/
theorem hooksOf_append_of_mem {s t : System} (hooks : t.hooks = s.hooks ++ hooksIn h D) (hnodup : D.Nodup)
    (hd : d ∈ D) : t.hooksOf d = s.hooksOf d ++ [hookOf (h.get d).state] := by
  have hone : (hooksIn h D).filter (·.1 = d) = [(d, hookOf (h.get d).state)] := by
    rw [hooksIn, List.filter_map]
    have honly : D.filter ((fun p : Nat × Hook => decide (p.1 = d)) ∘ fun e => (e, hookOf (h.get e).state)) = [d] := by
      change D.filter (fun e => decide (e = d)) = [d]
      rw [List.filter_eq, List.count_eq_one_of_mem hnodup hd, List.replicate_one]
    rw [honly]
    rfl
  simp [hooksOf, hooks, List.filter_append, hone]

theorem hooksOf_append_of_not_mem {s t : System} (hooks : t.hooks = s.hooks ++ hooksIn h D) (hd : d ∉ D) :
    t.hooksOf d = s.hooksOf d := by
  have hnone : (hooksIn h D).filter (·.1 = d) = [] := by
    refine List.filter_eq_nil_iff.mpr fun p hp => ?_
    obtain ⟨e, he, rfl⟩ := List.mem_map.mp hp
    have hne : e ≠ d := fun heq => hd (heq ▸ he)
    simpa using hne
  simp [hooksOf, hooks, List.filter_append, hnone]

end System

/-- What one pass over `r` did after `Distroy` of `x`, between the state before both and the
state after them. -/
structure Swept (r x : Nat) (s t : System) : Prop where
  /-- The destroyed component and everything under it ended, and is off its parent and all
  maps. -/
  ended : ∀ d ∈ s.heap.subtree x, t.hooksOf d = s.hooksOf d ++ [.EndPlay] ∧ (t.heap.get d).parent = none ∧
    d ∉ t.heap.Components ∧ ∀ tag, d ∉ t.heap.TagComponents tag
  /-- Every other component of the tree was updated once. -/
  updated : ∀ d ∈ s.heap.subtree r, d ∉ s.heap.subtree x →
    t.hooksOf d = s.hooksOf d ++ [hookOf (s.heap.get d).state]
  /-- Components that nobody destroyed keep their parents and their places in the maps. -/
  kept : ∀ d, d ∉ s.heap.subtree x → (s.heap.get d).state ≠ .Destroy →
    (t.heap.get d).parent = (s.heap.get d).parent ∧ (d ∈ t.heap.Components ↔ d ∈ s.heap.Components) ∧
      ∀ tag, d ∈ t.heap.TagComponents tag ↔ d ∈ s.heap.TagComponents tag
  /-- The lists of children keep their order and lose only what was destroyed. -/
  children : ∀ d, (t.heap.get d).children = (s.heap.get d).children.filter fun c =>
    ! decide (c ∈ s.heap.subtree x ∨ c ∈ s.heap.subtree r ∧ (s.heap.get c).state = .Destroy)
  /-- No component loses a tag of its own. -/
  tag : ∀ d, (t.heap.get d).tag = (s.heap.get d).tag
  /-- Components outside the tree are not touched. -/
  outside : ∀ d, d ∉ s.heap.subtree r → t.heap.get d = s.heap.get d ∧ t.hooksOf d = s.hooksOf d

theorem Heap.subtree_marked : (h.marked D).subtree c = h.subtree c := by
  unfold Heap.subtree
  rw [family_marked]
  rfl

/-- What is destroyed when the pass begins, within the tree. -/
theorem Heap.doomed_marked (hbelow : ∀ d ∈ h.subtree x, d ∈ h.subtree r) :
    (h.marked (h.subtree x)).doomed (h.subtree r) c =
      decide (c ∈ h.subtree x ∨ c ∈ h.subtree r ∧ (h.get c).state = .Destroy) := by
  simp only [Heap.doomed, Heap.marked]
  by_cases hx : c ∈ h.subtree x
  · simp [hx, hbelow c hx]
  · simp [hx]

/-- Everything under a component that has a parent has one. -/
theorem Heap.WellFormed.parent_of_mem_subtree (hw : h.WellFormed) (hx : x ∈ h.subtree r) (hne : x ≠ r)
    (hd : d ∈ h.subtree x) : (h.get d).parent.isSome := by
  obtain rfl | ⟨p, hparent, _⟩ := ReflTransGen.cases_head (hw.mem_subtree_iff.mp hd)
  · obtain rfl | ⟨p, hparent, _⟩ := ReflTransGen.cases_head (hw.mem_subtree_iff.mp hx)
    · exact absurd rfl hne
    · exact Option.isSome_of_eq_some hparent
  · exact Option.isSome_of_eq_some hparent

/-- The children of a component outside a tree are outside it. -/
theorem Heap.WellFormed.child_not_mem_subtree (hw : h.WellFormed) (hroot : (h.get r).parent = none)
    (hd : d ∉ h.subtree r) (hc : c ∈ (h.get d).children) : c ∉ h.subtree r := by
  intro hmem
  have hup : h.family.parent c = some d := (hw.forest.mem_children d c).mp hc
  obtain rfl | ⟨p, hparent, habove⟩ := ReflTransGen.cases_head (hw.mem_subtree_iff.mp hmem)
  · exact Option.some_ne_none d (hup.symm.trans hroot)
  · obtain rfl := Option.some.inj (hup.symm.trans hparent)
    exact hd (hw.mem_subtree_iff.mpr habove)

/-- The pass that follows `Distroy` of a component below the one it starts from. -/
theorem Heap.WellFormed.swept (hw : h.WellFormed) (hroot : (h.get r).parent = none) (hx : x ∈ h.subtree r)
    (hne : x ≠ r) :
    Swept r x ⟨h, [], hooks⟩ ⟨(h.marked (h.subtree x)).updated (h.subtree r), [],
      hooks ++ System.hooksIn (h.marked (h.subtree x)) (h.subtree r)⟩ := by
  have hbelow : ∀ d ∈ h.subtree x, d ∈ h.subtree r := fun d hd =>
    hw.mem_subtree_iff.mpr ((hw.mem_subtree_iff.mp hd).trans (hw.mem_subtree_iff.mp hx))
  have hparent : ∀ d, ((h.marked (h.subtree x)).get d).parent = (h.get d).parent :=
    marked_same Component.parent (fun _ _ => rfl) _
  have htag : ∀ d, ((h.marked (h.subtree x)).get d).tag = (h.get d).tag :=
    marked_same Component.tag (fun _ _ => rfl) _
  have hdoomed : ∀ d ∈ h.subtree x, (h.marked (h.subtree x)).doomed (h.subtree r) d = true := fun d hd => by
    rw [doomed_marked hbelow]
    simp [hd]
  have hspared : ∀ d, d ∉ h.subtree x → (d ∉ h.subtree r ∨ (h.get d).state ≠ .Destroy) →
      (h.marked (h.subtree x)).doomed (h.subtree r) d = false := fun d hd hor => by
    rw [doomed_marked hbelow]
    obtain hnot | hstate := hor
    · simp [hd, hnot]
    · simp [hd, hstate]
  refine ⟨fun d hd => ⟨?_, ?_, fun hmem => ?_, fun tag hmem => ?_⟩, fun d hr hd => ?_,
    fun d hd hstate => ⟨?_, ?_, fun tag => ?_⟩, fun d => ?_, fun d => htag d, fun d hd => ⟨?_, ?_⟩⟩
  · refine (System.hooksOf_append_of_mem (s := ⟨h, [], hooks⟩) rfl (hw.nodup_subtree r) (hbelow d hd)).trans ?_
    simp [Heap.marked, hd, hookOf]
  · exact if_pos (hdoomed d hd)
  · have hfalse := (List.mem_filter.mp hmem).2
    rw [hdoomed d hd, hparent, hw.parent_of_mem_subtree hx hne hd] at hfalse
    cases hfalse
  · obtain ⟨hentry, hfalse⟩ := List.mem_filter.mp hmem
    rw [hdoomed d hd, htag, decide_eq_true (hw.tagged tag d hentry)] at hfalse
    cases hfalse
  · refine (System.hooksOf_append_of_mem (s := ⟨h, [], hooks⟩) rfl (hw.nodup_subtree r) hr).trans ?_
    simp [Heap.marked, hd]
  · exact (if_neg (by simp [hspared d hd (.inr hstate)])).trans (hparent d)
  · refine List.mem_filter.trans ?_
    simp only [hspared d hd (.inr hstate), Bool.false_and, Bool.not_false, and_true]
    rfl
  · refine List.mem_filter.trans ?_
    simp only [hspared d hd (.inr hstate), Bool.false_and, Bool.not_false, and_true]
    rfl
  · change ((h.marked (h.subtree x)).get d).children.filter _ = _
    rw [marked_same Component.children (fun _ _ => rfl)]
    exact List.filter_congr fun c _ => by rw [doomed_marked hbelow]
  · have hstate : d ∉ h.subtree x := fun hmem => hd (hbelow d hmem)
    refine Component.ext ?_ ?_ ?_ (htag d)
    · exact (if_neg fun hand => hd hand.1).trans (by simp [Heap.marked, hstate])
    · exact (if_neg (by simp [hspared d hstate (.inl hd)])).trans (hparent d)
    · change ((h.marked (h.subtree x)).get d).children.filter _ = _
      rw [marked_same Component.children (fun _ _ => rfl), List.filter_eq_self.mpr fun c hc => ?_]
      have hout := hw.child_not_mem_subtree hroot hd hc
      simp [hspared c (fun hmem => hout (hbelow c hmem)) (.inl hout)]
  · exact System.hooksOf_append_of_not_mem rfl hd

/-- The game thread gets to one end only. -/
theorem System.Runs.unique {s t u : System} (ht : System.Runs s t) (hu : System.Runs s u) (htop : t.stack = [])
    (hutop : u.stack = []) : t = u := by
  have hend : ∀ {t u : System}, t.stack = [] → System.Runs t u → t = u := by
    intro t u htop hruns
    obtain hsame | ⟨v, hrun, _⟩ := ReflTransGen.cases_head hruns
    · exact hsame
    · simp [System.run, htop] at hrun
  obtain hon | hon := ReflTransGen.total_of_right_unique
    (fun _ _ _ h h' => Option.some.inj (h.symm.trans h')) ht hu
  · exact hend htop hon
  · exact (hend hutop hon).symm

/-- After `Distroy` of a component below a root, the next pass from the root ends, and it
removes what is under the component, and otherwise only what an earlier `Distroy` marked. -/
theorem update_removes_distroyed {s : System} {events : List Event}
    (hrun : Run (Guarded attachesApart (OfOption System.next)) .start events s) (hidle : s.stack = [])
    (hroot : (s.heap.get r).parent = none) (hx : x ∈ s.heap.subtree r) (hne : x ≠ r) :
    ∃ u v, s.next (.Distroy x) = some u ∧ u.next (.Update r) = some v ∧
      (∃ t, System.Runs v t ∧ t.stack = []) ∧
      ∀ t, System.Runs v t → t.stack = [] → Swept r x s t := by
  obtain ⟨h, stack, hooks⟩ := s
  obtain rfl : stack = [] := hidle
  have hw : h.WellFormed := (System.WellFormed.of_run hrun).heap
  obtain rfl | ⟨p, hparent, _⟩ := ReflTransGen.cases_tail (hw.mem_subtree_iff.mp hx)
  · exact absurd rfl hne
  have hlt : r < h.count := (hw.bounded p r ‹_›).2
  have hmarked : (h.marked (h.subtree x)).WellFormed :=
    hw.marked fun d hd => hw.subtree_lt (hw.subtree_lt hlt x hx) d hd
  have hpass : System.Runs ⟨h.marked (h.subtree x), [.Update r], hooks⟩ _ := System.runs_update hmarked hlt
  rw [Heap.subtree_marked] at hpass
  refine ⟨⟨h.marked (h.subtree x), [], hooks⟩, ⟨h.marked (h.subtree x), [.Update r], hooks⟩, ?_, ?_,
    ⟨_, hpass, rfl⟩, fun t ht htop => ?_⟩
  · simp [System.next, System.step, Event.components, hw.subtree_lt hlt x hx, hw.Distroy_eq]
  · have hcount : r < (h.marked (h.subtree x)).count := hlt
    simp [System.next, System.step, Event.components, hcount]
  · rw [ht.unique hpass htop rfl]
    exact hw.swept hroot hx hne

/-- A component with one child and one sibling, which are all alive. -/
def grownTree : List Event :=
  [.CreateComponent, .CreateComponent, .CreateComponent, .CreateComponent, .Attach 1 3, .Attach 3 5, .Attach 1 7,
    .SetTag "tag" 3, .Update 1] ++ List.replicate 19 .run

theorem update_removes_distroyed_child :
    ∃ s u v, Run (Guarded attachesApart (OfOption System.next)) .start grownTree s ∧
      s.next (.Distroy 3) = some u ∧ u.next (.Update 1) = some v ∧
      s.heap.TagComponents "tag" = [3] ∧ s.heap.subtree 3 = [3, 5] ∧
      ∀ t, System.Runs v t → t.stack = [] → Swept 1 3 s t := by
  have hrun : ∃ s, Run (Guarded attachesApart (OfOption System.next)) .start grownTree s ∧ s.stack = [] ∧
      s.heap.TagComponents "tag" = [3] ∧ s.heap.subtree 3 = [3, 5] ∧ (s.heap.get 1).parent = none ∧
      3 ∈ s.heap.subtree 1 := by
    simp only [run_guarded_ofOption_iff]
    exact ⟨_, rfl, by decide, by decide, by decide, by decide, by decide⟩
  obtain ⟨s, hrun, hidle, htag, hsubtree, hroot, hx⟩ := hrun
  obtain ⟨u, v, hu, hv, _, hswept⟩ := update_removes_distroyed hrun hidle hroot hx (by decide)
  exact ⟨s, u, v, hrun, hu, hv, htag, hsubtree, hswept⟩

/-- A pass also removes a component that another call of `Distroy` marked. -/
theorem update_removes_others :
    ¬ ∀ (s u v t : System) (events : List Event) (r x : Nat),
      Run (Guarded attachesApart (OfOption System.next)) .start events s → s.stack = [] →
      (s.heap.get r).parent = none → x ∈ s.heap.subtree r → x ≠ r → (s.heap.get x).state = .Alive →
      s.next (.Distroy x) = some u → u.next (.Update r) = some v → System.Runs v t → t.stack = [] →
      ∀ d ∈ s.heap.subtree r, d ∉ s.heap.subtree x → (t.heap.get d).parent = (s.heap.get d).parent := by
  intro hall
  have hrun : ∃ s u v, Run (Guarded attachesApart (OfOption System.next)) .start (grownTree ++ [.Distroy 7]) s ∧
      s.next (.Distroy 3) = some u ∧ u.next (.Update 1) = some v ∧ s.stack = [] ∧
      (s.heap.get 1).parent = none ∧ 3 ∈ s.heap.subtree 1 ∧ (s.heap.get 3).state = .Alive ∧
      7 ∈ s.heap.subtree 1 ∧ 7 ∉ s.heap.subtree 3 ∧ (s.heap.get 7).parent = some 1 ∧
      v.stack = [.Update 1] ∧ ((v.heap.updated (v.heap.subtree 1)).get 7).parent = none ∧ 1 < v.heap.count := by
    simp only [run_guarded_ofOption_iff]
    exact ⟨_, _, _, rfl, rfl, rfl, by decide, by decide, by decide, by decide, by decide, by decide, by decide,
      by decide, by decide, by decide⟩
  obtain ⟨s, u, v, hrun, hu, hv, hidle, hroot, hx, hstate, hd, hnot, hold, hstack, hnew, hlt⟩ := hrun
  have hwu := (System.WellFormed.of_run hrun).next (e := .Distroy 3) trivial hu
  have hw := (hwu.next (e := .Update 1) trivial hv).heap
  obtain ⟨h, stack, hooks⟩ := v
  obtain rfl : stack = [.Update 1] := hstack
  have hsame := hall s u _ _ _ 1 3 hrun hidle hroot hx (by decide) hstate hu hv
    (System.runs_update hw hlt) rfl 7 hd hnot
  rw [hnew, hold] at hsame
  cases hsame

end AsioGameServer.component
