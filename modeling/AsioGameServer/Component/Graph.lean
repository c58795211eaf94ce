import AsioGameServer.Component.Pass

open Function Relation Transition

namespace AsioGameServer.component

section Searches

variable {h : Heap} {isT : Nat → Bool} {c : Nat} {depth : Nat}

/-- A loop whose body returns for each element returns. -/
theorem isSome_foldlM {α β : Type} {f : α → β → Option α} {l : List β}
    (hbody : ∀ b ∈ l, ∀ a, (f a b).isSome) (a : α) : (l.foldlM f a).isSome := by
  induction l generalizing a with
  | nil => rfl
  | cons b l ih =>
    obtain ⟨a', ha'⟩ := Option.isSome_iff_exists.mp (hbody b List.mem_cons_self a)
    rw [List.foldlM_cons, ha']
    exact ih (fun b hb => hbody b (List.mem_cons_of_mem _ hb)) a'

namespace Heap

theorem GetComponentFrom_isSome (hforest : h.family.Forest) (hdepth : h.family.height c < depth) :
    (GetComponentFrom isT depth c h).isSome := by
  induction depth generalizing c with
  | zero => omega
  | succ depth ih =>
    rw [GetComponentFrom]
    refine isSome_foldlM (fun com hcom retval => ?_) none
    have hlt := hforest.height_lt ((hforest.mem_children c com).mp hcom)
    split
    · rfl
    · split
      · rfl
      · exact ih (by omega)

theorem GetComponentsFrom_isSome (hforest : h.family.Forest) (hdepth : h.family.height c < depth)
    (vec : List Nat) : (GetComponentsFrom isT depth c vec h).isSome := by
  induction depth generalizing c vec with
  | zero => omega
  | succ depth ih =>
    rw [GetComponentsFrom]
    refine isSome_foldlM (fun com hcom vec => ?_) vec
    have hlt := hforest.height_lt ((hforest.mem_children c com).mp hcom)
    exact ih (by omega) _

theorem GetParentComponentFrom_isSome (hforest : h.family.Forest) (hdepth : h.family.depth c < depth) :
    (GetParentComponentFrom isT depth c h).isSome := by
  induction depth generalizing c with
  | zero => omega
  | succ depth ih =>
    rw [GetParentComponentFrom]
    cases hparent : (h.get c).parent with
    | none => rfl
    | some parent =>
      have hlt := hforest.depth_lt (show h.family.parent c = some parent from hparent)
      dsimp only
      split
      · rfl
      · exact ih (by omega)

end Heap

end Searches

section Runs

/-- The component that a call of `Update` is for. -/
def Frame.owner : Frame → Nat
  | .Update c | .hook c _ | .Remove c | .children c | .loop c _ => c

/-- `Attach` is called with a component that is neither the target nor above it. -/
def attachesApart (s : System) : Event → Prop
  | .Attach p c => c ∉ s.heap.ancestors p
  | _ => True

instance (s : System) (e : Event) : Decidable (attachesApart s e) :=
  match e with
  | .Attach p c => inferInstanceAs (Decidable (c ∉ s.heap.ancestors p))
  | .construct | .CreateComponent | .Detach _ _ | .Distroy _ | .SetTag _ _ | .RemoveTag _ _ | .Update _ | .run =>
    .isTrue trivial

/-- The components are a forest, and the calls of `Update` are for constructed ones. -/
structure System.WellFormed (s : System) : Prop where
  heap : s.heap.WellFormed
  stack : ∀ f ∈ s.stack, f.owner < s.heap.count

namespace System.WellFormed

variable {s t : System} {e : Event}

theorem start : System.start.WellFormed := ⟨Heap.WellFormed.start, by simp [System.start]⟩

/-- A step changes the components only. -/
theorem of_heap (hw : s.WellFormed) {heap : Heap} (hheap : heap.WellFormed) (hcount : s.heap.count ≤ heap.count) :
    System.WellFormed { s with heap } :=
  ⟨hheap, fun f hf => Nat.lt_of_lt_of_le (hw.stack f hf) hcount⟩

/-- A step replaces the innermost call. -/
theorem of_stack {f : Frame} {rest : List Frame} {heap : Heap} {hooks : List (Nat × Hook)}
    (hw : s.WellFormed) (frames : List Frame) (hstack : s.stack = f :: rest) (hheap : heap.WellFormed)
    (hcount : heap.count = s.heap.count)
    (hframes : ∀ g ∈ frames, g.owner < s.heap.count) : System.WellFormed ⟨heap, frames ++ rest, hooks⟩ := by
  refine ⟨hheap, fun g hg => ?_⟩
  rw [hcount]
  obtain hnew | hold := List.mem_append.mp hg
  · exact hframes g hnew
  · exact hw.stack g (by simp [hstack, hold])

theorem run (hw : s.WellFormed) (hrun : s.run = some t) : t.WellFormed := by
  obtain ⟨heap, stack, hooks⟩ := s
  cases stack with
  | nil => cases hrun
  | cons f rest =>
    have hf : f.owner < heap.count := hw.stack f List.mem_cons_self
    have hone : ∀ {g : Frame}, g.owner = f.owner → ∀ g' ∈ [g], g'.owner < heap.count := by
      intro g hg g' hg'
      rw [List.mem_singleton.mp hg', hg]
      exact hf
    cases f with
    | Update c =>
      cases hrun
      exact hw.of_stack [_] rfl hw.heap rfl (hone rfl)
    | hook c hook =>
      cases hook with
      | BeginPlay =>
        cases hrun
        exact hw.of_stack [_] rfl (hw.heap.setState hf .Alive) rfl (hone rfl)
      | Tick =>
        cases hrun
        exact hw.of_stack [_] rfl hw.heap rfl (hone rfl)
      | EndPlay =>
        cases hrun
        exact hw.of_stack [_] rfl hw.heap rfl (hone rfl)
    | Remove c =>
      cases hrun
      have hgone : heap.Remove c = heap.removed c := hw.heap.Remove_eq c
      exact hw.of_stack [_] rfl (hgone ▸ hw.heap.removed hf) (by simp [hgone, Heap.removed]) (hone rfl)
    | children c =>
      cases hrun
      exact hw.of_stack [_] rfl hw.heap rfl (hone rfl)
    | loop c iter =>
      cases iter with
      | none =>
        cases hrun
        exact hw.of_stack [] rfl hw.heap rfl (by simp)
      | some com =>
        simp only [System.run] at hrun
        split at hrun
        · rename_i hcom
          cases hrun
          have hlt := hw.heap.bounded com c ((hw.heap.forest.mem_children c com).mp hcom)
          refine hw.of_stack [_, _] rfl hw.heap rfl fun g hg => ?_
          obtain rfl | hg := List.mem_cons.mp hg
          · exact hlt.1
          · exact hone (g := .loop c (successor com (heap.get c).children)) rfl g hg
        · cases hrun

theorem next (hw : s.WellFormed) (hok : attachesApart s e) (hnext : s.next e = some t) : t.WellFormed := by
  unfold System.next at hnext
  split at hnext
  · rename_i hlt
    cases e with
    | construct =>
      cases hnext
      exact hw.of_heap hw.heap.construct (Nat.le_succ _)
    | CreateComponent =>
      cases hnext
      exact hw.of_heap hw.heap.CreateComponent (Nat.le_add_right _ _)
    | Attach p c =>
      cases hnext
      refine hw.of_heap
        (hw.heap.Attach (hlt p (by simp [Event.components])) (hlt c (by simp [Event.components])) hok) ?_
      unfold Heap.Attach
      split <;> exact Nat.le_refl _
    | Detach p c =>
      cases hnext
      refine hw.of_heap (hw.heap.Detach p c) ?_
      unfold Heap.Detach
      split <;> exact Nat.le_refl _
    | Distroy c =>
      simp only [step, hw.heap.Distroy_eq, Option.map_some, Option.some.injEq] at hnext
      subst hnext
      exact hw.of_heap (hw.heap.marked (hw.heap.subtree_lt (hlt c (by simp [Event.components])))) (Nat.le_refl _)
    | SetTag tag c =>
      cases hnext
      refine hw.of_heap (hw.heap.SetTag (hlt c (by simp [Event.components]))) ?_
      unfold Heap.SetTag
      split <;> exact Nat.le_refl _
    | RemoveTag tag c =>
      cases hnext
      refine hw.of_heap (hw.heap.RemoveTag tag) ?_
      unfold Heap.RemoveTag
      split <;> exact Nat.le_refl _
    | Update c =>
      simp only [step] at hnext
      split at hnext
      · cases hnext
        refine ⟨hw.heap, fun f hf => ?_⟩
        rw [List.mem_singleton.mp hf]
        exact hlt c (by simp [Event.components])
      · cases hnext
    | run => exact hw.run hnext
  · cases hnext

theorem of_run {events : List Event} (hrun : Run (Guarded attachesApart (OfOption System.next)) .start events s) :
    s.WellFormed :=
  hrun.invariant .start fun _ _ _ hw ⟨hok, hstep⟩ => hw.next hok hstep

end System.WellFormed

/-- As long as no component is attached to itself or below itself, parents and lists of
children agree, each child is in one list and once, no component is its own ancestor, and
every recursion over the graph returns. -/
theorem component_graph_stays_forest {s : System} {events : List Event}
    (hrun : Run (Guarded attachesApart (OfOption System.next)) .start events s) :
    (∀ p c, c ∈ (s.heap.get p).children ↔ (s.heap.get c).parent = some p) ∧
    (∀ p c, (s.heap.get p).children.count c = 1 ↔ (s.heap.get c).parent = some p) ∧
    (∀ p q c, c ∈ (s.heap.get p).children → c ∈ (s.heap.get q).children → p = q) ∧
    (∀ c, ¬ TransGen s.heap.family.Under c c) ∧
    (∀ isT c, (s.heap.GetComponent isT c).isSome ∧ (s.heap.GetComponents isT c).isSome ∧
      (s.heap.GetParentComponent isT c).isSome ∧ (s.heap.Distroy c).isSome) ∧
    ∀ c < s.heap.count, ∃ t, System.Runs { s with stack := .Update c :: s.stack } t ∧ t.stack = s.stack := by
  have hw := System.WellFormed.of_run hrun
  have hforest := hw.heap.forest
  have hmem : ∀ p c, c ∈ (s.heap.get p).children ↔ (s.heap.get c).parent = some p := hforest.mem_children
  refine ⟨hmem, fun p c => ?_, fun p q c hp hq => ?_, hforest.acyclic, fun isT c => ⟨?_, ?_, ?_, ?_⟩,
    fun c hc => ⟨_, System.runs_update hw.heap hc, rfl⟩⟩
  · rw [← hmem p c]
    constructor
    · intro hcount
      exact List.count_pos_iff.mp (by omega)
    · exact fun hlisted => List.count_eq_one_of_mem (hforest.nodup p) hlisted
  · exact Option.some.inj (((hmem p c).mp hp).symm.trans ((hmem q c).mp hq))
  · exact Heap.GetComponentFrom_isSome hforest (hw.heap.height_lt c)
  · exact Heap.GetComponentsFrom_isSome hforest (hw.heap.height_lt c) []
  · exact Heap.GetParentComponentFrom_isSome hforest (hw.heap.depth_lt c)
  · rw [hw.heap.Distroy_eq]
    rfl

/-- A leaf is moved from one parent to another while a pass is between hooks. -/
theorem component_graph_stays_forest_moved :
    ∃ s, Run (Guarded attachesApart (OfOption System.next)) .start
      [.CreateComponent, .CreateComponent, .CreateComponent, .Attach 1 3, .Attach 3 5, .Update 1, .run, .run,
        .Detach 3 5, .Attach 1 5, .Distroy 3, .run, .run] s ∧
      (s.heap.get 1).children = [3, 5] ∧ (s.heap.get 5).parent = some 1 ∧ (s.heap.get 3).state = .Destroy ∧
      s.stack = [.Update 3, .loop 1 (some 5)] ∧ (s.heap.Distroy 1).isSome := by
  have hrun : ∃ s, Run (Guarded attachesApart (OfOption System.next)) .start
      [.CreateComponent, .CreateComponent, .CreateComponent, .Attach 1 3, .Attach 3 5, .Update 1, .run, .run,
        .Detach 3 5, .Attach 1 5, .Distroy 3, .run, .run] s ∧
      (s.heap.get 1).children = [3, 5] ∧ (s.heap.get 5).parent = some 1 ∧ (s.heap.get 3).state = .Destroy ∧
      s.stack = [.Update 3, .loop 1 (some 5)] := by
    simp only [run_guarded_ofOption_iff]
    exact ⟨_, rfl, by decide, by decide, by decide, by decide⟩
  obtain ⟨s, hrun, hchildren, hparent, hstate, hstack⟩ := hrun
  exact ⟨s, hrun, hchildren, hparent, hstate, hstack,
    ((component_graph_stays_forest hrun).2.2.2.2.1 (fun _ => false) 1).2.2.2⟩

end Runs

end AsioGameServer.component
