import Mathlib.Data.List.Nodup
import Mathlib.Data.Set.Card
import Mathlib.Logic.Function.Basic
import Mathlib.Logic.Relation

open Function Relation

/-- Nodes that refer to their parents, next to the lists of children that the parents
keep. -/
@[ext] structure Family (ι : Type) where
  parent : ι → Option ι
  children : ι → List ι

namespace Family

variable {ι : Type} {f : Family ι} {a b c d p : ι} {n : Nat}

/-- The first node refers to the second as its parent. -/
def Under (f : Family ι) (c p : ι) : Prop := f.parent c = some p

/-- The first node is the second one, or its parents lead there. -/
def Below (f : Family ι) : ι → ι → Prop := ReflTransGen f.Under

/-- Parents and lists of children say the same, each child is listed once, and no node
is its own ancestor. -/
structure Forest (f : Family ι) : Prop where
  mem_children : ∀ p c, c ∈ f.children p ↔ f.parent c = some p
  nodup : ∀ p, (f.children p).Nodup
  acyclic : ∀ c, ¬ TransGen f.Under c c
  finite : {c | f.parent c ≠ none}.Finite

/-- The nodes that a traversal from a node visits, to a depth: each node before its
children, and these in their order. -/
def subtree (f : Family ι) : Nat → ι → List ι
  | 0, _ => []
  | n + 1, c => c :: (f.children c).flatMap (f.subtree n)

/-- The nodes that are met on the way up from a node, itself first. -/
def ancestors (f : Family ι) : Nat → ι → List ι
  | 0, _ => []
  | n + 1, c => c :: (f.parent c).elim [] (f.ancestors n)

/-- How many nodes are strictly below a node. -/
noncomputable def height (f : Family ι) (c : ι) : Nat := {d | TransGen f.Under d c}.ncard

/-- How many nodes are strictly above a node. -/
noncomputable def depth (f : Family ι) (c : ι) : Nat := {d | TransGen f.Under c d}.ncard

/-- No more nodes are below a node than have parents. -/
theorem height_le {s : Finset ι} (hs : ∀ d p, f.parent d = some p → d ∈ s) (c : ι) : f.height c ≤ s.card := by
  rw [← Set.ncard_coe_finset]
  refine Set.ncard_le_ncard (fun d hd => ?_) s.finite_toSet
  obtain ⟨p, hparent, _⟩ := TransGen.head'_iff.mp hd
  exact hs d p hparent

/-- No more nodes are above a node than are parents. -/
theorem depth_le {s : Finset ι} (hs : ∀ d p, f.parent d = some p → p ∈ s) (c : ι) : f.depth c ≤ s.card := by
  rw [← Set.ncard_coe_finset]
  refine Set.ncard_le_ncard (fun d hd => ?_) s.finite_toSet
  obtain ⟨e, _, hparent⟩ := TransGen.tail'_iff.mp hd
  exact hs e d hparent

namespace Forest

variable (h : f.Forest)
include h

theorem finite_below (c : ι) : {d | TransGen f.Under d c}.Finite := by
  refine h.finite.subset fun d hd => ?_
  obtain ⟨p, hp, _⟩ := TransGen.head'_iff.mp hd
  simp [show f.parent d = some p from hp]

theorem finite_above (c : ι) : {d | TransGen f.Under c d}.Finite := by
  refine (h.finite.image fun d => (f.parent d).getD d).subset fun d hd => ?_
  obtain ⟨e, _, he⟩ := TransGen.tail'_iff.mp hd
  have hparent : f.parent e = some d := he
  exact ⟨e, by simp [hparent], by simp [hparent]⟩

theorem height_lt (hparent : f.parent d = some c) : f.height d < f.height c := by
  refine Set.ncard_lt_ncard ⟨fun e he => ?_, fun hall => ?_⟩ (h.finite_below c)
  · exact TransGen.tail he hparent
  · exact h.acyclic d (hall (TransGen.single hparent))

theorem depth_lt (hparent : f.parent d = some c) : f.depth c < f.depth d := by
  refine Set.ncard_lt_ncard ⟨fun e he => ?_, fun hall => ?_⟩ (h.finite_above d)
  · exact TransGen.head hparent he
  · exact h.acyclic c (hall (TransGen.single hparent))

theorem ne_of_child (hchild : d ∈ f.children c) : d ≠ c := by
  rintro rfl
  exact h.acyclic d (TransGen.single ((h.mem_children d d).mp hchild))

/-- A traversal of enough depth does not depend on the depth. -/
theorem subtree_eq {m : Nat} (hn : f.height c < n) (hm : f.height c < m) :
    f.subtree n c = f.subtree m c := by
  induction n generalizing m c with
  | zero => omega
  | succ n ih =>
    obtain _ | m := m
    · omega
    · rw [subtree, subtree]
      congr 1
      refine List.flatMap_congr fun d hd => ?_
      have hlt := h.height_lt ((h.mem_children c d).mp hd)
      exact ih (by omega) (by omega)

/-- The nodes of a subtree are those from which the parents lead to its root. -/
theorem mem_subtree_iff (hn : f.height c < n) : d ∈ f.subtree n c ↔ f.Below d c := by
  induction n generalizing c with
  | zero => omega
  | succ n ih =>
    rw [subtree, List.mem_cons, List.mem_flatMap]
    constructor
    · rintro (rfl | ⟨e, he, hd⟩)
      · exact .refl
      · have hparent := (h.mem_children c e).mp he
        have hlt := h.height_lt hparent
        exact ReflTransGen.tail ((ih (by omega)).mp hd) hparent
    · intro hbelow
      obtain rfl | ⟨e, he, hparent⟩ := ReflTransGen.cases_tail_iff _ _ _ |>.mp hbelow
      · exact .inl rfl
      · have hlt := h.height_lt hparent
        exact .inr ⟨e, (h.mem_children c e).mpr hparent, (ih (by omega)).mpr he⟩

/-- The nodes that are met on the way up are those that the parents lead to. -/
theorem mem_ancestors_iff (hn : f.depth c < n) : d ∈ f.ancestors n c ↔ f.Below c d := by
  induction n generalizing c with
  | zero => omega
  | succ n ih =>
    rw [ancestors, List.mem_cons, Below, ReflTransGen.cases_head_iff, eq_comm]
    refine or_congr_right ?_
    cases hparent : f.parent c with
    | none => simp [Under, hparent]
    | some p =>
      have hlt := h.depth_lt hparent
      simp only [Option.elim_some, Under, hparent, Option.some.injEq, exists_eq_left']
      exact ih (by omega)

omit h in
/-- Two nodes above the same one are above each other, one way or the other. -/
theorem below_or_below (hb : f.Below a b) (hc : f.Below a c) : f.Below b c ∨ f.Below c b := by
  refine ReflTransGen.total_of_right_unique (fun d e e' he he' => ?_) hb hc
  exact Option.some.inj (he.symm.trans he')

theorem not_below_of_parent (hparent : f.parent d = some p) : ¬ f.Below p d := fun hbelow =>
  h.acyclic d (TransGen.head' hparent hbelow)

/-- The subtrees of two children of one node have no node in common. -/
theorem not_below_siblings (hd : f.parent d = some p) (hc : f.parent c = some p) (hne : d ≠ c)
    (had : f.Below a d) (hac : f.Below a c) : False := by
  have hstrict : ∀ d c, f.parent d = some p → f.parent c = some p → d ≠ c → ¬ f.Below d c := by
    intro d c hd hc hne hbelow
    obtain hsame | ⟨e, he, hup⟩ := ReflTransGen.cases_head_iff.mp hbelow
    · exact hne hsame
    · obtain rfl := Option.some.inj (hd.symm.trans he)
      exact h.not_below_of_parent hc hup
  obtain hbelow | hbelow := below_or_below had hac
  · exact hstrict d c hd hc hne hbelow
  · exact hstrict c d hc hd hne.symm hbelow

/-- A traversal visits no node twice. -/
theorem nodup_subtree (hn : f.height c < n) : (f.subtree n c).Nodup := by
  induction n generalizing c with
  | zero => omega
  | succ n ih =>
    have hlt : ∀ d ∈ f.children c, f.height d < n := fun d hd => by
      have hless := h.height_lt ((h.mem_children c d).mp hd)
      omega
    have hbelow : ∀ d ∈ f.children c, ∀ e ∈ f.subtree n d, f.Below e d := fun d hd e he =>
      (h.mem_subtree_iff (hlt d hd)).mp he
    rw [subtree, List.nodup_cons, List.nodup_flatMap]
    refine ⟨fun hmem => ?_, fun d hd => ih (hlt d hd), ?_⟩
    · obtain ⟨d, hd, hc⟩ := List.mem_flatMap.mp hmem
      exact h.not_below_of_parent ((h.mem_children c d).mp hd) (hbelow d hd c hc)
    · refine (h.nodup c).imp_of_mem fun {d e} hd he hne => ?_
      intro x hxd hxe
      exact h.not_below_siblings ((h.mem_children c d).mp hd) ((h.mem_children c e).mp he) hne
        (hbelow d hd x hxd) (hbelow e he x hxe)

end Forest

section Changes

variable [DecidableEq ι]

/-- Gives a node a parent, as its last child. -/
def attach (f : Family ι) (p c : ι) : Family ι :=
  ⟨update f.parent c (some p), update f.children p (f.children p ++ [c])⟩

/-- Takes a node off its parent. -/
def detach (f : Family ι) (p c : ι) : Family ι :=
  ⟨update f.parent c none, update f.children p ((f.children p).erase c)⟩

/-- Takes the nodes of a kind off their parents. -/
def prune (f : Family ι) (q : ι → Bool) : Family ι :=
  ⟨fun c => if q c then none else f.parent c, fun p => (f.children p).filter fun c => ! q c⟩

omit [DecidableEq ι] in
theorem Under.of_prune {q : ι → Bool} (hunder : (f.prune q).Under c p) : q c = false ∧ f.Under c p := by
  unfold Under prune at hunder
  dsimp only at hunder
  split at hunder
  · cases hunder
  · exact ⟨by simpa using ‹¬ q c = true›, hunder⟩

omit [DecidableEq ι] in
theorem Forest.prune (h : f.Forest) (q : ι → Bool) : (f.prune q).Forest := by
  refine ⟨fun p c => ?_, fun p => (h.nodup p).filter _, fun c hcycle => ?_, h.finite.subset fun c hc => ?_⟩
  · simp only [Family.prune, List.mem_filter, h.mem_children]
    cases q c <;> simp
  · exact h.acyclic c (hcycle.lift id fun _ _ hunder => (Under.of_prune hunder).2)
  · intro hnone
    simp [Family.prune, hnone] at hc

/-- In a forest a child is taken off where it is listed. -/
theorem Forest.detach_eq (h : f.Forest) (hparent : f.parent c = some p) :
    f.detach p c = f.prune (· = c) := by
  refine Family.ext ?_ ?_
  · funext d
    by_cases hd : d = c
    · simp [detach, Family.prune, hd]
    · simp [detach, Family.prune, hd]
  · funext q
    simp only [detach, Family.prune]
    by_cases hq : q = p
    · rw [hq, update_self, (h.nodup p).erase_eq_filter]
      exact List.filter_congr fun d _ => by by_cases hd : d = c <;> simp [hd]
    · rw [update_of_ne hq, List.filter_eq_self.mpr fun d hd => ?_]
      have hother : d ≠ c := by
        rintro rfl
        exact hq (Option.some.inj (((h.mem_children q d).mp hd).symm.trans hparent))
      simpa using hother

/-- A node that is attached is below whatever was below it or above its new parent. -/
theorem transGen_attach (hnot : ¬ f.Below p c) (habove : TransGen (f.attach p c).Under a b) :
    TransGen f.Under a b ∨ f.Below a c ∧ f.Below p b := by
  have hunder : ∀ d e, (f.attach p c).Under d e → d = c ∧ e = p ∨ f.Under d e := by
    intro d e hup
    by_cases hd : d = c
    · subst hd
      have hsome : update f.parent d (some p) d = some e := hup
      rw [update_self] at hsome
      exact .inl ⟨rfl, (Option.some.inj hsome).symm⟩
    · exact .inr ((update_of_ne hd _ _).symm.trans hup)
  induction habove with
  | single hup =>
    obtain ⟨rfl, rfl⟩ | hold := hunder _ _ hup
    · exact .inr ⟨.refl, .refl⟩
    · exact .inl (.single hold)
  | tail _ hup ih =>
    obtain ⟨rfl, rfl⟩ | hold := hunder _ _ hup
    · obtain hpath | ⟨_, hloop⟩ := ih
      · exact .inr ⟨hpath.to_reflTransGen, .refl⟩
      · exact absurd hloop hnot
    · obtain hpath | ⟨hfirst, hsecond⟩ := ih
      · exact .inl (hpath.tail hold)
      · exact .inr ⟨hfirst, hsecond.tail hold⟩

/-- A root may be attached to any node that is not below it. -/
theorem Forest.attach (h : f.Forest) (hroot : f.parent c = none) (hnot : ¬ f.Below p c) :
    (f.attach p c).Forest := by
  have hunlisted : ∀ q, c ∉ f.children q := fun q hmem => by
    have hparent := (h.mem_children q c).mp hmem
    rw [hroot] at hparent
    cases hparent
  refine ⟨fun q d => ?_, fun q => ?_, fun d hcycle => ?_, ?_⟩
  · simp only [Family.attach]
    by_cases hd : d = c
    · subst hd
      by_cases hq : q = p
      · simp [hq]
      · simp [update_of_ne hq, hunlisted q, Ne.symm hq]
    · by_cases hq : q = p
      · simp [hq, hd, h.mem_children]
      · simp [update_of_ne hq, update_of_ne hd, h.mem_children]
  · simp only [Family.attach]
    by_cases hq : q = p
    · rw [hq, update_self, List.nodup_append]
      refine ⟨h.nodup p, List.nodup_singleton c, fun d hd e he => ?_⟩
      rw [List.mem_singleton.mp he]
      rintro rfl
      exact hunlisted p hd
    · rw [update_of_ne hq]
      exact h.nodup q
  · obtain hold | ⟨hdown, hup⟩ := transGen_attach hnot hcycle
    · exact h.acyclic d hold
    · exact hnot (hup.trans hdown)
  · refine (h.finite.insert c).subset fun d hd => ?_
    by_cases hsame : d = c
    · exact .inl hsame
    · exact .inr fun hnone => hd ((update_of_ne hsame _ _).trans hnone)

end Changes

end Family
