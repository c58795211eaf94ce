import AsioGameServer.Component.Update

open Function Relation Transition

namespace AsioGameServer.component

namespace Heap

variable {h h' : Heap} {c d p : Nat} {tag : String}

/-- The graph of the components is a forest, and only constructed components take part. -/
structure WellFormed (h : Heap) : Prop where
  forest : h.family.Forest
  bounded : ∀ c p, (h.get c).parent = some p → c < h.count ∧ p < h.count
  fresh : ∀ c, h.count ≤ c → h.get c = .new
  tagged : ∀ tag c, c ∈ h.TagComponents tag → tag ∈ (h.get c).tag

@[simp] theorem onComponent_self {f : Component → Component} : (h.onComponent c f).get c = f (h.get c) :=
  update_self _ _ _

/-- A change of one component leaves all others as they are. -/
theorem onComponent_of_ne {f : Component → Component} (hne : d ≠ c) : (h.onComponent c f).get d = h.get d :=
  update_of_ne hne _ _

@[simp] theorem onComponent_count {f : Component → Component} : (h.onComponent c f).count = h.count := rfl

/-- The family depends on the parents and children only. -/
theorem family_congr (hsame : ∀ c, (h'.get c).parent = (h.get c).parent ∧
    (h'.get c).children = (h.get c).children) : h'.family = h.family :=
  Family.ext (funext fun c => (hsame c).1) (funext fun c => (hsame c).2)

namespace WellFormed

variable (hw : h.WellFormed)
include hw

/-- A component has at most `count` others below it, so that a search to a depth of `count + 1`
calls reaches them all. -/
theorem height_lt (c : Nat) : h.family.height c < h.count + 1 := by
  have hle : h.family.height c ≤ (Finset.range h.count).card :=
    Family.height_le (fun d p hparent => Finset.mem_range.mpr (hw.bounded d p hparent).1) c
  rw [Finset.card_range] at hle
  omega

/-- A component has at most `count` others above it. -/
theorem depth_lt (c : Nat) : h.family.depth c < h.count + 1 := by
  have hle : h.family.depth c ≤ (Finset.range h.count).card :=
    Family.depth_le (fun d p hparent => Finset.mem_range.mpr (hw.bounded d p hparent).2) c
  rw [Finset.card_range] at hle
  omega

/-- The subtree of a component holds the component and what is below it in the forest. -/
theorem mem_subtree_iff : d ∈ h.subtree c ↔ h.family.Below d c := hw.forest.mem_subtree_iff (hw.height_lt c)

/-- The ancestors of a component are the component and what it is below of. -/
theorem mem_ancestors_iff : d ∈ h.ancestors c ↔ h.family.Below c d :=
  hw.forest.mem_ancestors_iff (hw.depth_lt c)

/-- No component is twice in a subtree, since every component has one parent. -/
theorem nodup_subtree (c : Nat) : (h.subtree c).Nodup := hw.forest.nodup_subtree (hw.height_lt c)

/-- A component comes before the subtrees of its children. -/
theorem subtree_eq (c : Nat) : h.subtree c = c :: (h.get c).children.flatMap h.subtree := by
  rw [subtree, Family.subtree]
  congr 1
  refine List.flatMap_congr fun d hd => ?_
  have hlt := hw.forest.height_lt ((hw.forest.mem_children c d).mp hd)
  have hle := hw.height_lt c
  exact hw.forest.subtree_eq (by omega) (hw.height_lt d)

end WellFormed

/-- What a change of one component leaves as it was. -/
theorem onComponent_same {α : Type} (field : Component → α) {f : Component → Component}
    (hfield : ∀ k, field (f k) = field k) (d : Nat) : field ((h.onComponent c f).get d) = field (h.get d) := by
  by_cases hd : d = c
  · rw [hd, onComponent_self, hfield]
  · rw [onComponent_of_ne hd]

section Attach

/-- A new list of children leaves all parents alone. -/
theorem parent_onComponent_children {f : Component → List Nat} :
    ((h.onComponent c fun k => { k with children := f k }).get d).parent = (h.get d).parent := by
  refine onComponent_same Component.parent ?_ d
  exact fun _ => rfl

/-- A new parent leaves all lists of children alone. `Attach` and `Detach` have to write both. -/
theorem children_onComponent_parent {parent : Option Nat} :
    ((h.onComponent c fun k => { k with parent := parent }).get d).children = (h.get d).children := by
  refine onComponent_same Component.children ?_ d
  exact fun _ => rfl

/-- A root is attached as the last child of its new parent. -/
theorem family_Attach (hroot : (h.get c).parent = none) : (h.Attach p c).family = h.family.attach p c := by
  rw [Attach, if_pos hroot]
  refine Family.ext (funext fun d => ?_) (funext fun d => ?_)
  · simp only [family, Family.attach]
    rw [parent_onComponent_children]
    by_cases hd : d = c
    · simp [hd]
    · rw [onComponent_of_ne hd, update_of_ne hd]
  · simp only [family, Family.attach]
    by_cases hd : d = p
    · simp [hd, children_onComponent_parent]
    · rw [onComponent_of_ne hd, update_of_ne hd, children_onComponent_parent]

/-- `Attach` changes parents and children only: any other part of a component is what it was. -/
theorem Attach_same {α : Type} (field : Component → α) (hparent : ∀ k p, field { k with parent := p } = field k)
    (hchildren : ∀ k cs, field { k with children := cs } = field k) (d : Nat) :
    field ((h.Attach p c).get d) = field (h.get d) := by
  unfold Attach
  split
  · rw [onComponent_same field fun _ => hchildren _ _, onComponent_same field fun _ => hparent _ _]
  · rfl

/-- The same for `Detach`. -/
theorem Detach_same {α : Type} (field : Component → α) (hparent : ∀ k p, field { k with parent := p } = field k)
    (hchildren : ∀ k cs, field { k with children := cs } = field k) (d : Nat) :
    field ((h.Detach p c).get d) = field (h.get d) := by
  unfold Detach
  split
  · rw [onComponent_same field fun _ => hchildren _ _, onComponent_same field fun _ => hparent _ _]
  · rfl

/-- A child is taken off the list of its parent, and has none afterwards. -/
theorem family_Detach (hlisted : c ∈ (h.get p).children) : (h.Detach p c).family = h.family.detach p c := by
  rw [Detach, if_pos hlisted]
  refine Family.ext (funext fun d => ?_) (funext fun d => ?_)
  · simp only [family, Family.detach]
    rw [parent_onComponent_children]
    by_cases hd : d = c
    · simp [hd]
    · rw [onComponent_of_ne hd, update_of_ne hd]
  · simp only [family, Family.detach]
    by_cases hd : d = p
    · simp [hd, children_onComponent_parent]
    · rw [onComponent_of_ne hd, update_of_ne hd, children_onComponent_parent]

end Attach

section Tags

/-- `SetTag` changes tags only. -/
theorem SetTag_same {α : Type} (field : Component → α) (htag : ∀ k t, field { k with tag := t } = field k) (d : Nat) :
    field ((h.SetTag tag c).get d) = field (h.get d) := by
  unfold SetTag
  split
  · rfl
  · exact onComponent_same field (fun _ => htag _ _) d

/-- Tags are no part of the forest. -/
@[simp] theorem family_SetTag : (h.SetTag tag c).family = h.family :=
  family_congr fun d => ⟨SetTag_same _ (fun _ _ => rfl) d, SetTag_same _ (fun _ _ => rfl) d⟩

/-- `RemoveTag` changes the map of the tag and no component at all. -/
@[simp] theorem RemoveTag_get : (h.RemoveTag c tag).get = h.get := by
  unfold RemoveTag
  split <;> rfl

@[simp] theorem family_RemoveTag : (h.RemoveTag c tag).family = h.family :=
  family_congr fun d => by simp

end Tags

section Distroy

/-- Some components are marked to be destroyed. -/
def marked (D : List Nat) (h : Heap) : Heap :=
  { h with get := fun c => if c ∈ D then { h.get c with state := .Destroy } else h.get c }

/-- Of a component that is marked, only the state is another one. -/
theorem marked_same {α : Type} (field : Component → α) (hstate : ∀ k s, field { k with state := s } = field k)
    (D : List Nat) (d : Nat) : field ((h.marked D).get d) = field (h.get d) := by
  simp only [marked]
  split
  · exact hstate _ _
  · rfl

@[simp] theorem family_marked (D : List Nat) : (h.marked D).family = h.family :=
  family_congr fun c => ⟨marked_same _ (fun _ _ => rfl) D c, marked_same _ (fun _ _ => rfl) D c⟩

/-- Marks add up, in whatever order they were made. -/
theorem marked_marked (D E : List Nat) : (h.marked D).marked E = h.marked (D ++ E) := by
  simp only [marked, List.mem_append]
  congr 1
  funext c
  by_cases hD : c ∈ D <;> by_cases hE : c ∈ E <;> simp [hD, hE]

/-- `Distroy` marks the component and everything under it. -/
theorem DistroyFrom_eq {depth : Nat} (hforest : h.family.Forest) (hdepth : h.family.height c < depth) :
    h.DistroyFrom depth c = some (h.marked (h.family.subtree depth c)) := by
  induction depth generalizing h c with
  | zero => omega
  | succ depth ih =>
    have hfirst : h.onComponent c ({ · with state := .Destroy }) = h.marked [c] := by
      unfold onComponent marked
      congr 1
      funext d
      by_cases hd : d = c
      · simp [hd]
      · simp [hd]
    have hloop : ∀ (rest : List Nat) (D : List Nat), (∀ d ∈ rest, d ∈ h.family.children c) →
        rest.foldlM (fun h com => DistroyFrom depth com h) (h.marked D) =
          some (h.marked (D ++ rest.flatMap (h.family.subtree depth))) := by
      intro rest
      induction rest with
      | nil =>
        intro D _
        simp
      | cons d rest ihrest =>
        intro D hrest
        have hlt := hforest.height_lt ((hforest.mem_children c d).mp (hrest d List.mem_cons_self))
        have hd : (h.marked D).DistroyFrom depth d = some ((h.marked D).marked (h.family.subtree depth d)) := by
          rw [ih (by simpa using hforest) (by simp only [family_marked]; omega), family_marked]
        rw [List.foldlM_cons, hd, marked_marked]
        simp only [Option.bind_eq_bind, Option.bind_some]
        rw [ihrest _ fun e he => hrest e (List.mem_cons_of_mem _ he), List.flatMap_cons, List.append_assoc]
    rw [DistroyFrom, hfirst]
    have hchildren : ((h.marked [c]).get c).children = h.family.children c := marked_same _ (fun _ _ => rfl) _ _
    rw [hchildren, hloop _ _ fun _ hd => hd, Family.subtree]
    rfl

/-- `Distroy` returns, and marks exactly the subtree of the component. -/
theorem WellFormed.Distroy_eq (hw : h.WellFormed) (c : Nat) : h.Distroy c = some (h.marked (h.subtree c)) :=
  DistroyFrom_eq hw.forest (hw.height_lt c)

end Distroy

section Remove

/-- A component that is off its parent, unregistered and without entries in the maps of its
tags. -/
def removed (c : Nat) (h : Heap) : Heap where
  count := h.count
  get d := { h.get d with
    parent := if d = c then none else (h.get d).parent
    children := (h.get d).children.filter (· ≠ c) }
  Components := if (h.get c).parent = none then h.Components else h.Components.filter (· ≠ c)
  TagComponents tag :=
    if tag ∈ (h.get c).tag then (h.TagComponents tag).filter (· ≠ c) else h.TagComponents tag

/-- The loop of `Remove` over the tags of the component, by induction on the tags that are left.
The component has them all to the end, because `RemoveTag` takes none from it. -/
theorem foldl_RemoveTag {tags : List String} (htags : ∀ tag ∈ tags, tag ∈ (h.get c).tag) :
    tags.foldl (RemoveTag c) h = { h with
      TagComponents := fun tag =>
        if tag ∈ tags then (h.TagComponents tag).filter (· ≠ c) else h.TagComponents tag } := by
  induction tags generalizing h with
  | nil => simp
  | cons tag tags ih =>
    have hfirst : h.RemoveTag c tag =
        { h with TagComponents := update h.TagComponents tag ((h.TagComponents tag).filter (· ≠ c)) } :=
      if_pos (htags tag List.mem_cons_self)
    have hrest := ih (h := h.RemoveTag c tag) fun other hother => by
      rw [hfirst]
      exact htags other (List.mem_cons_of_mem _ hother)
    rw [List.foldl_cons, hrest, hfirst]
    congr 1
    funext other
    by_cases hsame : other = tag
    · subst hsame
      by_cases hrest : other ∈ tags <;> simp [hrest]
    · by_cases hrest : other ∈ tags <;> simp [hrest, hsame]

/-- A detached component is off the list of its parent, and off no other list since it was
on none. -/
theorem WellFormed.get_Detach (hw : h.WellFormed) (hparent : (h.get c).parent = some p) :
    (h.Detach p c).get = (h.removed c).get := by
  have hlisted : c ∈ (h.get p).children := (hw.forest.mem_children p c).mpr hparent
  have hfamily : (h.Detach p c).family = h.family.prune (· = c) :=
    (family_Detach hlisted).trans (hw.forest.detach_eq hparent)
  funext d
  have hd : ((h.Detach p c).get d).parent = (if d = c then none else (h.get d).parent) ∧
      ((h.Detach p c).get d).children = (h.get d).children.filter (· ≠ c) := by
    refine ⟨(congrFun (congrArg Family.parent hfamily) d).trans ?_,
      (congrFun (congrArg Family.children hfamily) d).trans ?_⟩
    · simp [Family.prune, family]
    · simp [Family.prune, family]
  have hstate : ((h.Detach p c).get d).state = (h.get d).state :=
    Detach_same Component.state (fun _ _ => rfl) (fun _ _ => rfl) d
  have htag : ((h.Detach p c).get d).tag = (h.get d).tag :=
    Detach_same Component.tag (fun _ _ => rfl) (fun _ _ => rfl) d
  simp only [removed, ← hd.1, ← hd.2, ← hstate, ← htag]

/-- `Remove` as one change: the component is off its parent, its map and the maps of its tags. A
component without a parent stays in the map of the components. -/
theorem WellFormed.Remove_eq (hw : h.WellFormed) (c : Nat) : h.Remove c = h.removed c := by
  unfold Remove
  cases hparent : (h.get c).parent with
  | none =>
    dsimp only
    rw [foldl_RemoveTag fun _ htag => htag]
    simp only [removed, hparent]
    congr 1
    funext d
    have hunlisted : (h.get d).children.filter (· ≠ c) = (h.get d).children := by
      refine List.filter_eq_self.mpr fun e he => ?_
      have hne : e ≠ c := by
        rintro rfl
        have hsome := (hw.forest.mem_children d e).mp he
        rw [show h.family.parent e = (h.get e).parent from rfl, hparent] at hsome
        cases hsome
      simpa using hne
    by_cases hd : d = c
    · subst hd
      rw [if_pos rfl, hunlisted, ← hparent]
    · rw [if_neg hd, hunlisted]
  | some p =>
    have htag : ((h.Detach p c).get c).tag = (h.get c).tag :=
      Detach_same Component.tag (fun _ _ => rfl) (fun _ _ => rfl) c
    have hrest : (h.Detach p c).count = h.count ∧ (h.Detach p c).TagComponents = h.TagComponents := by
      unfold Detach
      split <;> exact ⟨rfl, rfl⟩
    dsimp only
    rw [foldl_RemoveTag fun _ htag => htag]
    simp only [hw.get_Detach hparent, hrest.1, hrest.2]
    simp only [removed, hparent, reduceCtorEq, if_false]

end Remove

namespace WellFormed

/-- Before any component is constructed there is nothing to be wrong. -/
theorem start : Heap.start.WellFormed := by
  refine ⟨⟨fun p c => ?_, fun p => List.nodup_nil, fun c hcycle => ?_, ?_⟩, fun c p hparent => ?_,
    fun _ _ => rfl, fun tag c hmem => ?_⟩
  · simp [family, Heap.start, Component.new]
  · obtain ⟨p, hparent, _⟩ := TransGen.head'_iff.mp hcycle
    cases hparent
  · simp [family, Heap.start, Component.new]
  · cases hparent
  · cases hmem

/-- What is kept where the family changes within the constructed components. -/
theorem of_same (hw : h.WellFormed) (hforest : h'.family.Forest) (hcount : h.count ≤ h'.count)
    (hparent : ∀ c p, (h'.get c).parent = some p → c < h'.count ∧ p < h'.count)
    (hfresh : ∀ c, h.count ≤ c → h'.get c = h.get c)
    (htagged : ∀ tag c, c ∈ h'.TagComponents tag → tag ∈ (h'.get c).tag) : h'.WellFormed :=
  ⟨hforest, hparent, fun c hc => (hfresh c (by omega)).trans (hw.fresh c (by omega)), htagged⟩

/-- Only the states, the tags or the number of components change. -/
theorem of_family (hw : h.WellFormed) (hfamily : h'.family = h.family) (hcount : h.count ≤ h'.count)
    (hfresh : ∀ c, h.count ≤ c → h'.get c = h.get c)
    (htagged : ∀ tag c, c ∈ h'.TagComponents tag → tag ∈ (h'.get c).tag) : h'.WellFormed := by
  refine hw.of_same (hfamily ▸ hw.forest) hcount (fun c p hparent => ?_) hfresh htagged
  have hold : (h.get c).parent = some p := (congrFun (congrArg Family.parent hfamily) c).symm.trans hparent
  have hlt := hw.bounded c p hold
  omega

/-- A new component stands alone. -/
theorem construct (hw : h.WellFormed) : h.construct.WellFormed :=
  hw.of_family rfl (Nat.le_succ _) (fun _ _ => rfl) hw.tagged

/-- The same for one that is entered in the map of the components. -/
theorem CreateComponent (hw : h.WellFormed) : h.CreateComponent.WellFormed :=
  hw.of_family rfl (Nat.le_add_right _ _) (fun _ _ => rfl) hw.tagged

/-- Marks do not change the forest, and are on constructed components only. -/
theorem marked (hw : h.WellFormed) {D : List Nat} (hD : ∀ c ∈ D, c < h.count) : (h.marked D).WellFormed := by
  refine hw.of_family (family_marked D) (Nat.le_refl _) (fun c hc => ?_) fun tag c hmem => ?_
  · have hnot : c ∉ D := fun hmem => by
      have hlt := hD c hmem
      omega
    simp [Heap.marked, hnot]
  · have htag : ((h.marked D).get c).tag = (h.get c).tag := marked_same _ (fun _ _ => rfl) D c
    rw [htag]
    exact hw.tagged tag c hmem

/-- The state of a component may be anything. -/
theorem setState (hw : h.WellFormed) (hc : c < h.count) (state : world.ComponentState) :
    (h.onComponent c ({ · with state := state })).WellFormed := by
  have hsame : ∀ {α : Type} (field : Component → α), (∀ k, field { k with state := state } = field k) →
      ∀ d, field ((h.onComponent c ({ · with state := state })).get d) = field (h.get d) :=
    fun field hfield => onComponent_same field hfield
  refine hw.of_family (family_congr fun d => ⟨hsame Component.parent (fun _ => rfl) d,
    hsame Component.children (fun _ => rfl) d⟩) (Nat.le_refl _) (fun d hd => ?_) fun tag d hmem => ?_
  · exact onComponent_of_ne (by omega)
  · rw [hsame Component.tag (fun _ => rfl) d]
    exact hw.tagged tag d hmem

/-- A component may be attached to one that it is not above. -/
theorem Attach (hw : h.WellFormed) (hp : p < h.count) (hc : c < h.count) (hnot : c ∉ h.ancestors p) :
    (h.Attach p c).WellFormed := by
  by_cases hroot : (h.get c).parent = none
  · have hfamily := family_Attach (p := p) hroot
    have hrest : (h.Attach p c).count = h.count ∧ (h.Attach p c).TagComponents = h.TagComponents := by
      rw [Heap.Attach, if_pos hroot]
      exact ⟨rfl, rfl⟩
    refine hw.of_same ?_ (Nat.le_of_eq hrest.1.symm) (fun d q hparent => ?_) (fun d hd => ?_) fun tag d hmem => ?_
    · rw [hfamily]
      exact hw.forest.attach hroot fun hbelow => hnot (hw.mem_ancestors_iff.mpr hbelow)
    · have hsome : update h.family.parent c (some p) d = some q :=
        (congrFun (congrArg Family.parent hfamily) d).symm.trans hparent
      rw [hrest.1]
      by_cases hd : d = c
      · rw [hd, update_self, Option.some.injEq] at hsome
        exact ⟨hd ▸ hc, hsome ▸ hp⟩
      · rw [update_of_ne hd] at hsome
        exact hw.bounded d q hsome
    · rw [Heap.Attach, if_pos hroot, onComponent_of_ne (by omega), onComponent_of_ne (by omega)]
    · rw [Attach_same Component.tag (fun _ _ => rfl) (fun _ _ => rfl)]
      exact hw.tagged tag d (hrest.2 ▸ hmem)
  · rwa [Heap.Attach, if_neg hroot]

/-- A component that is removed is pruned from the forest. What was under it stays attached to it.
-/
theorem removed (hw : h.WellFormed) (hc : c < h.count) : (h.removed c).WellFormed := by
  have hfamily : (h.removed c).family = h.family.prune (· = c) := by
    refine Family.ext (funext fun d => ?_) (funext fun d => ?_)
    · simp [Family.prune, family, Heap.removed]
    · simp [Family.prune, family, Heap.removed]
  refine hw.of_same (hfamily ▸ hw.forest.prune _) (Nat.le_refl _) (fun d p hparent => ?_) (fun d hd => ?_)
    fun tag d hmem => ?_
  · simp only [Heap.removed] at hparent ⊢
    split at hparent
    · cases hparent
    · exact hw.bounded d p hparent
  · have hne : d ≠ c := by omega
    simp [Heap.removed, hne, hw.fresh d hd, Component.new]
  · simp only [Heap.removed] at hmem ⊢
    split at hmem
    · exact hw.tagged tag d (List.mem_of_mem_filter hmem)
    · exact hw.tagged tag d hmem

/-- `Detach` is what `Remove` does to the forest, or nothing where the component is no child of
the other. -/
theorem Detach (hw : h.WellFormed) (p c : Nat) : (h.Detach p c).WellFormed := by
  by_cases hlisted : c ∈ (h.get p).children
  · have hparent : (h.get c).parent = some p := (hw.forest.mem_children p c).mp hlisted
    have hgone := hw.removed (hw.bounded c p hparent).1
    have hget := hw.get_Detach hparent
    have hrest : (h.Detach p c).count = h.count ∧ (h.Detach p c).TagComponents = h.TagComponents := by
      rw [Heap.Detach, if_pos hlisted]
      exact ⟨rfl, rfl⟩
    have hfamily : (h.Detach p c).family = (h.removed c).family := by
      simp only [family, hget]
    refine hgone.of_family hfamily (Nat.le_of_eq hrest.1.symm) (fun d _ => congrFun hget d) fun tag d hmem => ?_
    rw [Detach_same Component.tag (fun _ _ => rfl) (fun _ _ => rfl)]
    exact hw.tagged tag d (hrest.2 ▸ hmem)
  · rwa [Heap.Detach, if_neg hlisted]

/-- A tag that is set is with the component before it is in the map, so that every entry has its
tag. -/
theorem SetTag (hw : h.WellFormed) (hc : c < h.count) : (h.SetTag tag c).WellFormed := by
  by_cases hhas : tag ∈ (h.get c).tag
  · rwa [Heap.SetTag, if_pos hhas]
  · have hfamily : (h.SetTag tag c).family = h.family := family_SetTag
    rw [Heap.SetTag, if_neg hhas] at hfamily ⊢
    refine hw.of_family hfamily (Nat.le_refl _) (fun d hd => ?_) fun other d hmem => ?_
    · have hne : d ≠ c := by omega
      exact update_of_ne hne _ _
    have htag : other ∈ (h.get d).tag →
        other ∈ ((h.onComponent c fun k => { k with tag := k.tag ++ [tag] }).get d).tag := by
      intro hold
      by_cases hd : d = c
      · subst hd
        simp [hold]
      · rwa [onComponent_of_ne hd]
    by_cases hother : other = tag
    · subst hother
      simp only [update_self, List.mem_append, List.mem_singleton] at hmem
      obtain hold | rfl := hmem
      · exact htag (hw.tagged other d hold)
      · simp
    · simp only [update_of_ne hother] at hmem
      exact htag (hw.tagged other d hmem)

/-- A tag that is removed leaves fewer entries, and the component keeps it. -/
theorem RemoveTag (hw : h.WellFormed) (tag : String) : (h.RemoveTag c tag).WellFormed := by
  unfold Heap.RemoveTag
  split
  · refine hw.of_family rfl (Nat.le_refl _) (fun _ _ => rfl) fun other d hmem => ?_
    by_cases hother : other = tag
    · subst hother
      simp only [update_self] at hmem
      exact hw.tagged other d (List.mem_of_mem_filter hmem)
    · simp only [update_of_ne hother] at hmem
      exact hw.tagged other d hmem
  · exact hw

end WellFormed

end Heap

end AsioGameServer.component
