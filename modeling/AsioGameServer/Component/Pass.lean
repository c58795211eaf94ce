import AsioGameServer.Component.WellFormed

open Function Relation Transition

namespace AsioGameServer.component

namespace Heap

variable {h : Heap} {c d : Nat} {D E : List Nat}

/-- A component of a list is destroyed. -/
def doomed (D : List Nat) (h : Heap) (c : Nat) : Bool := c ∈ D ∧ (h.get c).state = .Destroy

/-- The heap after one call of `Update` for each component of a list, apart from the
children: the new ones are alive, the destroyed ones are off their parents,
unregistered and without entries in the maps of their tags. -/
def updated (D : List Nat) (h : Heap) : Heap where
  count := h.count
  get c :=
    { state := if c ∈ D ∧ (h.get c).state = .Create then .Alive else (h.get c).state
      parent := if h.doomed D c then none else (h.get c).parent
      children := (h.get c).children.filter fun d => ! h.doomed D d
      tag := (h.get c).tag }
  Components := h.Components.filter fun c => ! (h.doomed D c && (h.get c).parent.isSome)
  TagComponents tag := (h.TagComponents tag).filter fun c => ! (h.doomed D c && decide (tag ∈ (h.get c).tag))

theorem doomed_eq_false (hc : c ∉ D) : h.doomed D c = false := by simp [doomed, hc]

theorem doomed_append : h.doomed (D ++ E) c = (h.doomed D c || h.doomed E c) := by
  by_cases hD : c ∈ D <;> by_cases hE : c ∈ E <;> simp [doomed, hD, hE]

theorem doomed_updated : (h.updated D).doomed E c = h.doomed E c := by
  simp only [doomed, updated]
  split
  · rename_i hnew
    simp [hnew.2]
  · rfl

/-- Two rounds of updates are one. -/
theorem updated_updated : (h.updated D).updated E = h.updated (D ++ E) := by
  have hget : ((h.updated D).updated E).get = (h.updated (D ++ E)).get := by
    funext c
    have hstate : (((h.updated D).updated E).get c).state = ((h.updated (D ++ E)).get c).state := by
      simp only [updated, List.mem_append]
      by_cases hD : c ∈ D <;> by_cases hE : c ∈ E <;> by_cases hnew : (h.get c).state = .Create <;>
        simp [hD, hE, hnew]
    have hparent : (((h.updated D).updated E).get c).parent = ((h.updated (D ++ E)).get c).parent := by
      change (if (h.updated D).doomed E c then none else ((h.updated D).get c).parent) = _
      rw [doomed_updated]
      simp only [updated, doomed_append]
      cases h.doomed D c <;> cases h.doomed E c <;> rfl
    have hchildren : (((h.updated D).updated E).get c).children = ((h.updated (D ++ E)).get c).children := by
      change ((h.get c).children.filter fun d => ! h.doomed D d).filter
        (fun d => ! (h.updated D).doomed E d) = (h.get c).children.filter fun d => ! h.doomed (D ++ E) d
      rw [List.filter_filter]
      refine List.filter_congr fun d _ => ?_
      rw [doomed_updated, doomed_append]
      cases h.doomed D d <;> cases h.doomed E d <;> rfl
    exact Component.ext hstate hparent hchildren rfl
  have hComponents : ((h.updated D).updated E).Components = (h.updated (D ++ E)).Components := by
    change (h.Components.filter fun c => ! (h.doomed D c && (h.get c).parent.isSome)).filter
      (fun c => ! ((h.updated D).doomed E c && ((h.updated D).get c).parent.isSome)) =
        h.Components.filter fun c => ! (h.doomed (D ++ E) c && (h.get c).parent.isSome)
    rw [List.filter_filter]
    refine List.filter_congr fun c _ => ?_
    rw [doomed_updated, doomed_append]
    simp only [updated]
    cases h.doomed D c <;> cases h.doomed E c <;> simp
  have hTags : ((h.updated D).updated E).TagComponents = (h.updated (D ++ E)).TagComponents := by
    funext tag
    change ((h.TagComponents tag).filter fun c => ! (h.doomed D c && decide (tag ∈ (h.get c).tag))).filter
      (fun c => ! ((h.updated D).doomed E c && decide (tag ∈ (h.get c).tag))) =
        (h.TagComponents tag).filter fun c => ! (h.doomed (D ++ E) c && decide (tag ∈ (h.get c).tag))
    rw [List.filter_filter]
    refine List.filter_congr fun c _ => ?_
    rw [doomed_updated, doomed_append]
    cases h.doomed D c <;> cases h.doomed E c <;> simp
  exact Heap.ext rfl hget hComponents hTags

theorem family_updated : (h.updated D).family = h.family.prune (h.doomed D) := rfl

theorem WellFormed.updated (hw : h.WellFormed) (hD : ∀ c ∈ D, c < h.count) : (h.updated D).WellFormed := by
  refine hw.of_same (family_updated ▸ hw.forest.prune _) (Nat.le_refl _) (fun c p hparent => ?_) (fun c hc => ?_)
    fun tag c hmem => hw.tagged tag c (List.mem_of_mem_filter hmem)
  · simp only [Heap.updated] at hparent
    split at hparent
    · cases hparent
    · exact hw.bounded c p hparent
  · have hnot : c ∉ D := fun hmem => by
      have hlt := hD c hmem
      omega
    simp [Heap.updated, hw.fresh c hc, Component.new, hnot]

/-- A component that is not touched keeps its subtree. -/
theorem WellFormed.subtree_updated (hw : h.WellFormed) (hD : ∀ c ∈ D, c < h.count)
    (hapart : ∀ e ∈ h.subtree c, e ∉ D) : (h.updated D).subtree c = h.subtree c := by
  induction hn : h.family.height c using Nat.strong_induction_on generalizing c with
  | _ n ih =>
    have hchildren : ((h.updated D).get c).children = (h.get c).children := by
      refine List.filter_eq_self.mpr fun d hd => ?_
      have hmem : d ∈ h.subtree c :=
        hw.mem_subtree_iff.mpr (.single ((hw.forest.mem_children c d).mp hd))
      simp [doomed_eq_false (hapart d hmem)]
    rw [(hw.updated hD).subtree_eq, hw.subtree_eq, hchildren]
    congr 1
    refine List.flatMap_congr fun d hd => ?_
    have hparent := (hw.forest.mem_children c d).mp hd
    refine ih _ (hn ▸ hw.forest.height_lt hparent) (fun e he => hapart e ?_) rfl
    exact hw.mem_subtree_iff.mpr ((hw.mem_subtree_iff.mp he).tail hparent)

theorem removed_eq_updated (hstate : (h.get c).state = .Destroy) : h.removed c = h.updated [c] := by
  have hdoomed : ∀ d, h.doomed [c] d = decide (d = c) := by
    intro d
    by_cases hd : d = c
    · simp [doomed, hd, hstate]
    · simp [doomed, hd]
  refine Heap.ext rfl (funext fun d => Component.ext ?_ ?_ ?_ rfl) ?_ (funext fun tag => ?_)
  · by_cases hd : d = c
    · simp [removed, updated, hd, hstate]
    · simp [removed, updated, hd]
  · simp only [removed, updated, hdoomed, decide_eq_true_eq]
  · simp only [removed, updated, hdoomed]
    exact List.filter_congr fun e _ => by simp
  · simp only [removed, updated, hdoomed]
    cases hparent : (h.get c).parent with
    | none =>
      rw [if_pos rfl, List.filter_eq_self.mpr fun e _ => ?_]
      by_cases he : e = c
      · simp [he, hparent]
      · simp [he]
    | some p =>
      rw [if_neg (by simp)]
      refine List.filter_congr fun e _ => ?_
      by_cases he : e = c
      · simp [he, hparent]
      · simp [he]
  · simp only [removed, updated, hdoomed]
    by_cases htag : tag ∈ (h.get c).tag
    · rw [if_pos htag]
      refine List.filter_congr fun e _ => ?_
      by_cases he : e = c
      · simp [he, htag]
      · simp [he]
    · rw [if_neg htag, List.filter_eq_self.mpr fun e _ => ?_]
      by_cases he : e = c
      · simp [he, htag]
      · simp [he]

/-- A new component becomes alive, and one that is alive stays as it is. -/
theorem updated_of_not_destroyed (hstate : (h.get c).state ≠ .Destroy) :
    h.updated [c] = h.onComponent c ({ · with state := .Alive }) := by
  have hdoomed : ∀ d, h.doomed [c] d = false := by
    intro d
    by_cases hd : d = c
    · simp [doomed, hd, hstate]
    · simp [doomed, hd]
  refine Heap.ext rfl (funext fun d => Component.ext ?_ ?_ ?_ ?_) ?_ (funext fun tag => ?_)
  · by_cases hd : d = c
    · subst hd
      cases hd : (h.get d).state with
      | Create => simp [updated, hd]
      | Alive => simp [updated, hd]
      | Destroy => exact absurd hd hstate
    · simp [updated, hd, onComponent_of_ne hd]
  · rw [onComponent_same Component.parent fun _ => by rfl]
    simp [updated, hdoomed]
  · rw [onComponent_same Component.children fun _ => by rfl]
    simp [updated, hdoomed]
  · rw [onComponent_same Component.tag fun _ => by rfl]
    rfl
  · simp [updated, hdoomed, onComponent]
  · simp [updated, hdoomed, onComponent]

theorem WellFormed.mem_subtree_self (hw : h.WellFormed) (c : Nat) : c ∈ h.subtree c :=
  hw.mem_subtree_iff.mpr .refl

theorem WellFormed.subtree_lt (hw : h.WellFormed) (hc : c < h.count) : ∀ d ∈ h.subtree c, d < h.count := by
  intro d hd
  obtain rfl | ⟨p, hparent, _⟩ := ReflTransGen.cases_head (hw.mem_subtree_iff.mp hd)
  · exact hc
  · exact (hw.bounded d p hparent).1

end Heap

theorem successor_append {com : Nat} {before after : List Nat} (hcom : com ∉ before) :
    successor com (before ++ com :: after) = after.head? := by
  induction before with
  | nil => simp [successor]
  | cons head before ih =>
    have hhead : head ≠ com := fun heq => hcom (heq ▸ List.mem_cons_self)
    rw [List.cons_append, successor, if_neg hhead, ih fun hmem => hcom (List.mem_cons_of_mem _ hmem)]

namespace System

variable {h : Heap} {rest : List Frame} {hooks : List (Nat × Hook)} {c d : Nat} {done todo : List Nat}

/-- A call of `Update` up to its loop. -/
theorem runs_own (hw : h.WellFormed) : Runs ⟨h, .Update c :: rest, hooks⟩
    ⟨h.updated [c], .children c :: rest, hooks ++ [(c, hookOf (h.get c).state)]⟩ := by
  refine .head rfl ?_
  cases hstate : (h.get c).state with
  | Alive =>
    have hsame : h.updated [c] = h := by
      rw [Heap.updated_of_not_destroyed (by simp [hstate]), Heap.onComponent, ← hstate]
      exact Heap.ext rfl (update_eq_self c _) rfl rfl
    rw [hsame]
    exact .single rfl
  | Create =>
    rw [Heap.updated_of_not_destroyed (by simp [hstate])]
    exact .single rfl
  | Destroy =>
    rw [← Heap.removed_eq_updated hstate, ← hw.Remove_eq]
    exact .head rfl (.single rfl)

/-- The hooks that a pass over some components calls. -/
def hooksIn (h : Heap) (D : List Nat) : List (Nat × Hook) := D.map fun d => (d, hookOf (h.get d).state)

/-- What a pass did to the components before a child does not matter to the child. -/
theorem apart_of_split (hw : h.WellFormed) (hsplit : (h.get c).children = done ++ d :: todo) :
    ∀ e ∈ h.subtree d ++ todo.flatMap h.subtree, e ∉ c :: done.flatMap h.subtree := by
  have hnodup := hw.nodup_subtree c
  rw [hw.subtree_eq, hsplit, List.flatMap_append, List.flatMap_cons, ← List.cons_append] at hnodup
  exact fun e he hmem => (List.nodup_append.mp hnodup).2.2 e hmem e he rfl

/-- The loop finds the next child where the iterator was left, and the one after it. -/
theorem children_of_split (hw : h.WellFormed) (hsplit : (h.get c).children = done ++ d :: todo) :
    ∃ before, ((h.updated (c :: done.flatMap h.subtree)).get c).children = before ++ d :: todo ∧ d ∉ before := by
  refine ⟨done.filter fun e => ! h.doomed (c :: done.flatMap h.subtree) e, ?_, fun hmem => ?_⟩
  · have hkept : (d :: todo).filter (fun e => ! h.doomed (c :: done.flatMap h.subtree) e) = d :: todo := by
      refine List.filter_eq_self.mpr fun e he => ?_
      have hlater : e ∈ h.subtree d ++ todo.flatMap h.subtree := by
        obtain rfl | hrest := List.mem_cons.mp he
        · exact List.mem_append_left _ (hw.mem_subtree_self e)
        · exact List.mem_append_right _ (List.mem_flatMap.mpr ⟨e, hrest, hw.mem_subtree_self e⟩)
      simp [Heap.doomed_eq_false (apart_of_split hw hsplit e hlater)]
    change (h.get c).children.filter _ = _
    rw [hsplit, List.filter_append, hkept]
  · have hnodup := hw.forest.nodup c
    rw [show h.family.children c = done ++ d :: todo from hsplit, List.nodup_append] at hnodup
    exact hnodup.2.2 d (List.mem_of_mem_filter hmem) d List.mem_cons_self rfl

/-- A pass over a component calls one hook for each component of its subtree, in the order
of the traversal, and returns. -/
theorem runs_update (hw : h.WellFormed) (hc : c < h.count) : Runs ⟨h, .Update c :: rest, hooks⟩
    ⟨h.updated (h.subtree c), rest, hooks ++ hooksIn h (h.subtree c)⟩ := by
  induction hn : (h.subtree c).length using Nat.strong_induction_on generalizing h c rest hooks with
  | _ n ih =>
    have hloop : ∀ todo done, (h.get c).children = done ++ todo →
        Runs ⟨h.updated (c :: done.flatMap h.subtree), .loop c todo.head? :: rest,
            hooks ++ hooksIn h (c :: done.flatMap h.subtree)⟩
          ⟨h.updated (h.subtree c), rest, hooks ++ hooksIn h (h.subtree c)⟩ := by
      intro todo
      induction todo with
      | nil =>
        intro done hsplit
        rw [hw.subtree_eq c, hsplit, List.append_nil]
        exact .single rfl
      | cons d todo ihtodo =>
        intro done hsplit
        let D := c :: done.flatMap h.subtree
        have hD : ∀ e ∈ D, e < h.count := fun e he => hw.subtree_lt hc e (by
          rw [hw.subtree_eq, hsplit, List.flatMap_append, ← List.cons_append]
          exact List.mem_append_left _ he)
        obtain ⟨before, hchildren, hbefore⟩ := children_of_split hw hsplit
        have happart := apart_of_split hw hsplit
        have hsubtree : (h.updated D).subtree d = h.subtree d :=
          hw.subtree_updated hD fun e he => happart e (List.mem_append_left _ he)
        have hshort : (h.subtree d).length < n := by
          rw [← hn, hw.subtree_eq c, hsplit]
          simp
          omega
        have hsame : hooksIn (h.updated D) (h.subtree d) = hooksIn h (h.subtree d) := by
          refine List.map_congr_left fun e he => ?_
          have hnot : e ∉ D := happart e (List.mem_append_left _ he)
          simp [Heap.updated, hnot]
        have hd : d < h.count := (hw.bounded d c ((hw.forest.mem_children c d).mp (by
          rw [show h.family.children c = done ++ d :: todo from hsplit]
          simp))).1
        have hcall : Runs ⟨h.updated D, .Update d :: .loop c todo.head? :: rest, hooks ++ hooksIn h D⟩ _ :=
          ih _ (hsubtree.symm ▸ hshort) (hw.updated hD) hd rfl
        rw [hsubtree, hsame, Heap.updated_updated] at hcall
        have hnext := ihtodo (done ++ [d]) (by simp [hsplit])
        have hdone : c :: (done ++ [d]).flatMap h.subtree = D ++ h.subtree d := by simp [D]
        rw [hdone] at hnext
        refine .head ?_ (.trans hcall ?_)
        · simp only [run, List.head?_cons, hchildren]
          rw [if_pos (by simp), successor_append hbefore]
        · rw [List.append_assoc, hooksIn, hooksIn, ← List.map_append]
          exact hnext
    have hfirst := hloop (h.get c).children [] rfl
    refine (runs_own hw).trans (.head ?_ hfirst)
    have hkept : ((h.updated [c]).get c).children = (h.get c).children := by
      refine List.filter_eq_self.mpr fun d hd => ?_
      have hne : d ≠ c := hw.forest.ne_of_child hd
      simp [Heap.doomed, hne]
    simp only [run, hkept]
    rfl

end System

end AsioGameServer.component
