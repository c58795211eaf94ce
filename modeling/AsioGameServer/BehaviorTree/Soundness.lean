import AsioGameServer.BehaviorTree.Nesting
import Mathlib.Data.List.Forall2
import Mathlib.Data.List.Induction
import Mathlib.Logic.Relation

namespace AsioGameServer.behavior

variable {φ κ : Type}

namespace BTNode

/-- The nodes that `Run` may go on to. -/
def children : BTNode φ κ → List Nat
  | .BTRoot child => child.toList
  | .Sequence children => children
  | .Selector _ children => children.map Prod.snd
  | .Actor _ => []

/-- What an open node can take. -/
inductive Stands : BTNode φ κ → Opened → Prop
  | root (child : Option Nat) : Stands (.BTRoot child) (.root child.isSome)
  | sequence (children : List Nat) : Stands (.Sequence children) .sequence
  | selector (set_key : κ) (children : List (Int × Nat)) :
    Stands (.Selector set_key children) (.selector (children.map Prod.fst))

end BTNode

/-- A node is a child of another. -/
def ChildOf (heap : Heap φ κ) (p n : Nat) : Prop := ∃ node, heap[p]? = some node ∧ n ∈ node.children

/-- A node is reachable from the root. -/
def Reachable (heap : Heap φ κ) (root n : Nat) : Prop := Relation.ReflTransGen (ChildOf heap) root n

open BehaviorTreeBuilder

section Insert

variable {parent : BTNode φ κ} {top top' : Opened} {key : Option Int} {n m : Nat}

theorem mem_inserted (hmem : m ∈ (inserted key n parent).children) : m = n ∨ m ∈ parent.children := by
  cases key with
  | none => cases parent <;> simp_all [inserted, BTNode.Insert, BTNode.children, or_comm]
  | some k =>
    cases parent with
    | Selector set_key children =>
      simp only [inserted, Option.elim_some, BTNode.InsertKey, BTNode.children] at hmem ⊢
      split at hmem
      · exact .inr hmem
      · simpa [or_comm] using hmem
    | _ => exact .inr hmem

/-- A node that an open node takes is below it, with the children that were. -/
theorem BTNode.Stands.take (hstands : parent.Stands top) (htake : top.take key = some top') (n : Nat) :
    (inserted key n parent).Stands top' ∧
      ∀ m, m ∈ (inserted key n parent).children ↔ m = n ∨ m ∈ parent.children := by
  cases hstands with
  | root child =>
    cases key with
    | some k => cases htake
    | none =>
      cases child with
      | some child => cases htake
      | none =>
        cases htake
        exact ⟨.root (some n), fun m => by simp [inserted, BTNode.Insert, BTNode.children, eq_comm]⟩
  | sequence children =>
    cases key with
    | some k => cases htake
    | none =>
      cases htake
      exact ⟨.sequence _, fun m => by simp [inserted, BTNode.Insert, BTNode.children, or_comm]⟩
  | selector set_key children =>
    cases key with
    | none => cases htake
    | some k =>
      by_cases hk : k ∈ children.map Prod.fst
      · rw [Opened.take, if_pos hk] at htake
        cases htake
      · rw [Opened.take, if_neg hk] at htake
        have hentry : inserted (some k) n (.Selector set_key children : BTNode φ κ) =
            .Selector set_key (children ++ [(k, n)]) := by
          simp [inserted, BTNode.InsertKey, if_neg hk]
        have hkeys : top' = .selector ((children ++ [(k, n)]).map Prod.fst) := by
          simpa using (Option.some.inj htake).symm
        rw [hentry, hkeys]
        exact ⟨.selector _ _, fun m => by simp [BTNode.children, or_comm]⟩

/-- A node that an open node does not take is not below it, or took the place of another. -/
theorem BTNode.Stands.refuse (hstands : parent.Stands top) (htake : top.take key = none) (n : Nat) :
    (inserted key n parent).children = parent.children ∨
      ∃ child, parent.children = [child] ∧ (inserted key n parent).children = [n] := by
  cases hstands with
  | root child =>
    cases key with
    | some k => exact .inl rfl
    | none =>
      cases child with
      | none => cases htake
      | some child => exact .inr ⟨child, rfl, rfl⟩
  | sequence children =>
    cases key with
    | none => cases htake
    | some k => exact .inl rfl
  | selector set_key children =>
    cases key with
    | none => exact .inl rfl
    | some k =>
      have hk : k ∈ children.map Prod.fst := by
        by_contra hk
        simp [Opened.take, hk] at htake
      refine .inl ?_
      rw [inserted, Option.elim_some, BTNode.InsertKey, if_pos hk]

end Insert

section Calls

variable {b b' : BehaviorTreeBuilder} {heap heap' : Heap φ κ} {c : Call φ κ} {key : Option Int}
    {parent node : BTNode φ κ}
  {p n m : Nat}

theorem allocate_cases (h : b.allocate key node heap = some heap') :
    ∃ p ps parent, b.parents = p :: ps ∧ heap[p]? = some parent ∧
      heap' = heap.set p (inserted key heap.length parent) ++ [node] := by
  obtain ⟨p, hp, h⟩ := Option.bind_eq_some_iff.mp h
  obtain ⟨parent, hparent, h⟩ := Option.bind_eq_some_iff.mp h
  obtain ⟨ps, hps⟩ := List.head?_eq_some_iff.mp hp
  refine ⟨p, ps, parent, hps, hparent, (Option.some.inj h).symm.trans ?_⟩
  cases key <;> cases parent <;> simp [inserted, BTNode.type, BTNode.Insert, BTNode.InsertKey]

/-- What a call other than `end` does: there is a new node, below the open one where that takes
it, and it may be open from then on. -/
structure Creates (c : Call φ κ) (b b' : BehaviorTreeBuilder) (heap heap' : Heap φ κ) (p : Nat) (ps : List Nat)
    (parent node : BTNode φ κ) : Prop where
  stack : b.parents = p :: ps
  at_top : heap[p]? = some parent
  leaf : node.children = []
  grown : heap' = heap.set p (inserted c.key heap.length parent) ++ [node]
  opened : c.opens = [] ∧ b' = b ∨
    ∃ o, c.opens = [o] ∧ node.Stands o ∧ b' = { b with parents := heap.length :: b.parents }

theorem call_creates (hc : c ≠ .end) (h : b.call heap c = some (b', heap')) :
    ∃ p ps parent node, Creates c b b' heap heap' p ps parent node := by
  have hopen {key : Option Int} {node : BTNode φ κ} {o : Opened} (hkey : c.key = key) (hleaf : node.children = [])
      (hopens : c.opens = [o]) (hstands : node.Stands o) (h : b.open_ key node heap = some (b', heap')) :
      ∃ p ps parent node, Creates c b b' heap heap' p ps parent node := by
    obtain ⟨_, hallocate, heq⟩ := Option.map_eq_some_iff.mp h
    obtain ⟨rfl, rfl⟩ := Prod.mk.inj heq
    obtain ⟨p, ps, parent, hps, hparent, hheap⟩ := allocate_cases hallocate
    exact ⟨p, ps, parent, node, hps, hparent, hleaf, hkey ▸ hheap, .inr ⟨o, hopens, hstands, rfl⟩⟩
  have hactor {key : Option Int} {func : φ} (hkey : c.key = key) (hopens : c.opens = [])
      (h : (b.allocate key (.Actor func) heap).map (b, ·) = some (b', heap')) :
      ∃ p ps parent node, Creates c b b' heap heap' p ps parent node := by
    obtain ⟨_, hallocate, heq⟩ := Option.map_eq_some_iff.mp h
    obtain ⟨rfl, rfl⟩ := Prod.mk.inj heq
    obtain ⟨p, ps, parent, hps, hparent, hheap⟩ := allocate_cases hallocate
    exact ⟨p, ps, parent, .Actor func, hps, hparent, rfl, hkey ▸ hheap, .inl ⟨hopens, rfl⟩⟩
  cases c with
  | «end» => exact absurd rfl hc
  | sequence => exact hopen rfl rfl rfl (.sequence []) h
  | sequenceKey key => exact hopen rfl rfl rfl (.sequence []) h
  | selector set_key => exact hopen rfl rfl rfl (.selector set_key []) h
  | selectorKey key set_key => exact hopen rfl rfl rfl (.selector set_key []) h
  | actor func => exact hactor rfl rfl h
  | actorKey key func => exact hactor rfl rfl h

theorem call_end (h : b.call heap (.end : Call φ κ) = some (b', heap')) :
    ∃ p ps, b.parents = p :: ps ∧ b' = { b with parents := ps } ∧ heap' = heap := by
  change b.end_ heap = _ at h
  unfold end_ at h
  split at h
  · cases h
  · rename_i p ps hps
    cases h
    exact ⟨p, ps, hps, rfl, rfl⟩

/-- The edges after a new node was put below another. -/
theorem childOf_allocated {q : Nat} {x : BTNode φ κ} (hparent : heap[p]? = some parent) (hleaf : node.children = []) :
    ChildOf (heap.set p x ++ [node]) q m ↔ if q = p then m ∈ x.children else ChildOf heap q m := by
  obtain ⟨hext, hat, hnew⟩ := allocate_extends hparent node x
  obtain ⟨hp, _⟩ := List.getElem?_eq_some_iff.mp hparent
  unfold ChildOf
  split
  · rename_i hq
    rw [hq, hat]
    simp
  · rename_i hq
    by_cases hlt : q < heap.length
    · rw [hext.same q hlt hq]
    · by_cases hlast : q = heap.length
      · rw [hlast, hnew, List.getElem?_eq_none (Nat.le_refl heap.length)]
        simp [hleaf]
      · rw [List.getElem?_eq_none (by simp; omega), List.getElem?_eq_none (by omega)]

end Calls

section Chain

/-- The builder and the heap after some calls. -/
def after (chain : List (Call φ κ)) : Option (BehaviorTreeBuilder × Heap φ κ) :=
  let (b, heap) := Create []
  b.calls chain heap

/-- A call created a node below the node that was open. -/
def Created (chain : List (Call φ κ)) (p n : Nat) : Prop :=
  ∃ past c future b heap, chain = past ++ c :: future ∧ c ≠ .end ∧ after past = some (b, heap) ∧
    b.parents.head? = some p ∧ n = heap.length

variable {b b' : BehaviorTreeBuilder} {heap heap' : Heap φ κ} {c : Call φ κ} {chain past future : List (Call φ κ)}
  {p n m : Nat}

theorem build_eq_some {root : Option Nat} :
    build chain = some (root, heap) ↔ ∃ b, after chain = some (b, heap) ∧ b.Finish = root := by
  change ((after chain).bind fun (b, heap) => some (b.Finish, heap)) = _ ↔ _
  rw [Option.bind_eq_some_iff]
  constructor
  · rintro ⟨⟨b, heap⟩, hafter, heq⟩
    obtain ⟨rfl, rfl⟩ := Prod.mk.inj (Option.some.inj heq)
    exact ⟨b, hafter, rfl⟩
  · rintro ⟨b, hafter, rfl⟩
    exact ⟨_, hafter, rfl⟩

theorem after_concat (h : after (past ++ [c]) = some (b', heap')) :
    ∃ b heap, after past = some (b, heap) ∧ b.call heap c = some (b', heap') := by
  change (past ++ [c]).foldlM _ _ = _ at h
  rw [List.foldlM_append] at h
  obtain ⟨⟨b, heap⟩, hafter, hcall⟩ := Option.bind_eq_some_iff.mp h
  refine ⟨b, heap, hafter, ?_⟩
  simpa using hcall

theorem Created.append (h : Created past p n) (future : List (Call φ κ)) : Created (past ++ future) p n := by
  obtain ⟨earlier, c, later, b, heap, rfl, hc, hafter, hhead, hn⟩ := h
  exact ⟨earlier, c, later ++ future, b, heap, by simp, hc, hafter, hhead, hn⟩

theorem created_last (hc : c ≠ .end) (hafter : after past = some (b, heap)) (hstack : b.parents.head? = some p) :
    Created (past ++ [c]) p heap.length :=
  ⟨past, c, [], b, heap, rfl, hc, hafter, hstack, rfl⟩

/-- A child of a node was created below it, before any node that is new. -/
theorem childOf_step (h : b.call heap c = some (b', heap')) (hchild : ChildOf heap' p m) :
    ChildOf heap p m ∨ c ≠ .end ∧ b.parents.head? = some p ∧ m = heap.length := by
  by_cases hc : c = .end
  · subst hc
    obtain ⟨_, _, _, _, rfl⟩ := call_end h
    exact .inl hchild
  · obtain ⟨q, qs, parent, node, hcreates⟩ := call_creates hc h
    rw [hcreates.grown, childOf_allocated hcreates.at_top hcreates.leaf] at hchild
    split at hchild
    · rename_i heq
      obtain hnew | hold := mem_inserted hchild
      · exact .inr ⟨hc, by rw [hcreates.stack, heq]; rfl, hnew⟩
      · exact .inl ⟨parent, by rw [heq, hcreates.at_top], hold⟩
    · exact .inl hchild

theorem length_step (h : b.call heap c = some (b', heap')) :
    heap.length ≤ heap'.length ∧ (c ≠ .end → heap.length < heap'.length) := by
  by_cases hc : c = .end
  · subst hc
    obtain ⟨_, _, _, _, rfl⟩ := call_end h
    exact ⟨Nat.le_refl _, fun hne => absurd rfl hne⟩
  · obtain ⟨q, qs, parent, node, hcreates⟩ := call_creates hc h
    simp [hcreates.grown]

/-- The heap only grows. -/
theorem length_after (hpast : after past = some (b, heap)) (hafter : after (past ++ future) = some (b', heap')) :
    heap.length ≤ heap'.length := by
  induction future using List.reverseRecOn generalizing b' heap' with
  | nil =>
    rw [List.append_nil, hpast] at hafter
    cases hafter
    exact Nat.le_refl _
  | append_singleton future c ih =>
    rw [← List.append_assoc] at hafter
    obtain ⟨b₁, heap₁, hbefore, hcall⟩ := after_concat hafter
    exact Nat.le_trans (ih hbefore) (length_step hcall).1

theorem not_childOf_start : ¬ ChildOf (Create ([] : Heap φ κ)).2 p n := by
  rintro ⟨node, hnode, hn⟩
  obtain rfl | hp := Nat.eq_zero_or_pos p
  · cases hnode
    cases hn
  · change ([BTNode.BTRoot none] : Heap φ κ)[p]? = some node at hnode
    rw [List.getElem?_eq_none (show ([BTNode.BTRoot none] : Heap φ κ).length ≤ p from hp)] at hnode
    cases hnode

/-- The children of a node were created below it. -/
theorem childOf_after (hafter : after chain = some (b, heap)) (hchild : ChildOf heap p n) :
    Created chain p n ∧ n < heap.length := by
  induction chain using List.reverseRecOn generalizing b heap with
  | nil =>
    cases hafter
    exact absurd hchild not_childOf_start
  | append_singleton past c ih =>
    obtain ⟨b₁, heap₁, hpast, hcall⟩ := after_concat hafter
    have hlength := length_step hcall
    obtain hold | ⟨hc, hhead, rfl⟩ := childOf_step hcall hchild
    · obtain ⟨hcreated, hlt⟩ := ih hpast hold
      exact ⟨hcreated.append [c], Nat.lt_of_lt_of_le hlt hlength.1⟩
    · exact ⟨created_last hc hpast hhead, hlength.2 hc⟩

/-- A node that is there does not become the child of another. -/
theorem childOf_earlier (hpast : after past = some (b, heap)) (hafter : after (past ++ future) = some (b', heap'))
    (hn : n < heap.length) (hchild : ChildOf heap' p n) : ChildOf heap p n := by
  induction future using List.reverseRecOn generalizing b' heap' with
  | nil =>
    rw [List.append_nil, hpast] at hafter
    cases hafter
    exact hchild
  | append_singleton future c ih =>
    rw [← List.append_assoc] at hafter
    obtain ⟨b₁, heap₁, hbefore, hcall⟩ := after_concat hafter
    obtain hold | ⟨_, _, hnew⟩ := childOf_step hcall hchild
    · exact ih hbefore hold
    · have hlength := length_after hpast hbefore
      omega

end Chain

section Follow

/-- The open nodes of the builder can take what they are said to. -/
structure Follows (b : BehaviorTreeBuilder) (heap : Heap φ κ) (stack : List Opened) : Prop where
  root : b.root = 0
  bottom : ∀ p, b.parents.getLast? = some p → p = 0
  order : (heap.length :: b.parents).Pairwise (· > ·)
  stands : List.Forall₂ (fun p o => ∃ node, heap[p]? = some node ∧ node.Stands o) b.parents stack

variable {b b' : BehaviorTreeBuilder} {heap heap' : Heap φ κ} {c : Call φ κ} {chain : List (Call φ κ)} {p n : Nat}
  {stack stack' : List Opened}

theorem Follows.start : Follows (Create ([] : Heap φ κ)).1 (Create ([] : Heap φ κ)).2 [.root false] := by
  refine ⟨rfl, fun p hp => (Option.some.inj hp).symm, ?_, ?_⟩
  · simp [Create]
  · exact .cons ⟨_, rfl, .root none⟩ .nil

theorem Follows.end (hf : Follows b heap stack) (hcall : b.call heap (.end : Call φ κ) = some (b', heap'))
    (hnest : (.end : Call φ κ).nest stack = some stack') :
    Follows b' heap' stack' ∧ heap' = heap ∧ ∀ q ∈ b'.parents, q ∈ b.parents := by
  obtain ⟨p, ps, hstack, rfl, rfl⟩ := call_end hcall
  have hstands := hf.stands
  have horder := hf.order
  rw [hstack] at hstands horder
  obtain ⟨top, rest, _, hrest, rfl⟩ := List.forall₂_cons_left_iff.mp hstands
  cases hnest
  refine ⟨⟨hf.root, fun q hq => hf.bottom q ?_, horder.sublist (by simp), hrest⟩, rfl, fun q hq => ?_⟩
  · rw [hstack, List.getLast?_cons, hq]
    rfl
  · rw [hstack]
    exact List.mem_cons_of_mem _ hq

section Creates

variable {ps : List Nat} {parent node : BTNode φ κ} {top top' : Opened}

/-- A node that the open node takes leaves the edges that were. -/
theorem Creates.edges (h : Creates c b b' heap heap' p ps parent node) (htop : parent.Stands top)
    (htake : top.take c.key = some top') :
    (∀ q n, ChildOf heap q n → ChildOf heap' q n) ∧ ChildOf heap' p heap.length := by
  obtain ⟨_, hchildren⟩ := htop.take htake heap.length
  rw [h.grown]
  refine ⟨fun q n hchild => ?_, ?_⟩
  · rw [childOf_allocated h.at_top h.leaf]
    split
    · rename_i hq
      obtain ⟨_, hnode, hn⟩ := hchild
      obtain rfl := Option.some.inj (h.at_top.symm.trans (hq ▸ hnode))
      exact (hchildren n).mpr (.inr hn)
    · exact hchild
  · rw [childOf_allocated h.at_top h.leaf, if_pos rfl]
    exact (hchildren _).mpr (.inl rfl)

theorem Creates.follows (h : Creates c b b' heap heap' p ps parent node) (hf : Follows b heap (top :: stack))
    (htop : parent.Stands top) (htake : top.take c.key = some top') :
    Follows b' heap' (c.opens ++ top' :: stack) := by
  obtain ⟨hext, hat, hnew⟩ := allocate_extends h.at_top node (inserted c.key heap.length parent)
  rw [← h.grown] at hext hat hnew
  have hlength : heap'.length = heap.length + 1 := by simp [h.grown]
  have horder := hf.order
  have hstands := hf.stands
  rw [h.stack] at horder hstands
  -- Below the open node there are older ones, which nothing changes.
  have hbelow : List.Forall₂ (fun p o => ∃ node, heap'[p]? = some node ∧ node.Stands o) b.parents (top' :: stack) := by
    rw [h.stack]
    refine .cons ⟨_, hat, (htop.take htake heap.length).1⟩ ?_
    obtain ⟨hall, hps, _⟩ := List.pairwise_cons.mp horder |>.imp_right List.pairwise_cons.mp
    refine ((List.forall₂_and_left _ _).mpr ⟨hps, (List.forall₂_cons.mp hstands).2⟩).imp fun q o hq => ?_
    obtain ⟨hlt, node, hnode, hstands⟩ := hq
    have hbound := hall p List.mem_cons_self
    exact ⟨node, (hext.same q (by omega) (by omega)).trans hnode, hstands⟩
  rw [← h.stack] at horder
  obtain ⟨hopens, rfl⟩ | ⟨o, hopens, hleaf, rfl⟩ := h.opened
  · rw [hopens]
    refine ⟨hf.root, hf.bottom, ?_, hbelow⟩
    obtain ⟨hall, hrest⟩ := List.pairwise_cons.mp horder
    rw [hlength]
    exact List.pairwise_cons.mpr ⟨fun q hq => Nat.lt_succ_of_lt (hall q hq), hrest⟩
  · rw [hopens]
    refine ⟨hf.root, fun q hq => hf.bottom q ?_, ?_, .cons ⟨node, hnew, hleaf⟩ hbelow⟩
    · rw [h.stack, List.getLast?_cons_cons] at hq
      rwa [h.stack]
    · rw [hlength]
      refine List.pairwise_cons.mpr ⟨fun q hq => ?_, horder⟩
      obtain rfl | hold := List.mem_cons.mp hq
      · exact Nat.lt_succ_self _
      · exact Nat.lt_succ_of_lt ((List.pairwise_cons.mp horder).1 q hold)

end Creates

/-- Where the new node has a place, no node loses its own. -/
theorem Follows.step (hf : Follows b heap stack) (hcall : b.call heap c = some (b', heap'))
    (hnest : c.nest stack = some stack') :
    Follows b' heap' stack' ∧ (∀ p n, ChildOf heap p n → ChildOf heap' p n) ∧
      (∀ q ∈ b'.parents, q ∈ b.parents ∨ ∃ p ∈ b.parents, ChildOf heap' p q) ∧
      (c ≠ .end → ∀ p, b.parents.head? = some p → ChildOf heap' p heap.length) := by
  by_cases hc : c = .end
  · subst hc
    obtain ⟨hfollows, rfl, hparents⟩ := hf.end hcall hnest
    exact ⟨hfollows, fun _ _ h => h, fun q hq => .inl (hparents q hq), fun hne => absurd rfl hne⟩
  · obtain ⟨p, ps, parent, node, hcreates⟩ := call_creates hc hcall
    have hstands := hf.stands
    rw [hcreates.stack] at hstands
    obtain ⟨top, rest, ⟨_, hparent, htop⟩, hrest, rfl⟩ := List.forall₂_cons_left_iff.mp hstands
    obtain rfl := Option.some.inj (hcreates.at_top.symm.trans hparent)
    obtain ⟨top', htake, rfl⟩ := nest_eq_some hc hnest
    obtain ⟨hgrows, hadded⟩ := hcreates.edges htop htake
    refine ⟨hcreates.follows hf htop htake, hgrows, fun q hq => ?_, fun _ q hq => ?_⟩
    · obtain ⟨_, rfl⟩ | ⟨o, _, _, rfl⟩ := hcreates.opened
      · exact .inl hq
      · obtain rfl | hold := List.mem_cons.mp hq
        · exact .inr ⟨p, by rw [hcreates.stack]; exact List.mem_cons_self, hadded⟩
        · exact .inl hold
    · rw [hcreates.stack] at hq
      cases hq
      exact hadded

/-- Where the new node has no place, that or the child that it replaces is not below the open
node. -/
theorem Follows.refuse (hf : Follows b heap stack) (hcall : b.call heap c = some (b', heap'))
    (hbounded : ∀ p n, ChildOf heap p n → n < heap.length) (hnest : c.nest stack = none) :
    c ≠ .end ∧ ∃ p n, b.parents.head? = some p ∧ (n = heap.length ∨ ChildOf heap p n) ∧ ¬ ChildOf heap' p n := by
  by_cases hc : c = .end
  · subst hc
    obtain ⟨p, ps, hstack, _, _⟩ := call_end hcall
    have hstands := hf.stands
    rw [hstack] at hstands
    cases hstands
    cases hnest
  · obtain ⟨p, ps, parent, node, hcreates⟩ := call_creates hc hcall
    have hstands := hf.stands
    rw [hcreates.stack] at hstands
    cases hstands with
    | cons htop hrest =>
      obtain ⟨_, hparent, hstands⟩ := htop
      obtain rfl := Option.some.inj (hcreates.at_top.symm.trans hparent)
      have htake := (nest_eq_none_iff hc).mp hnest
      have hold : ∀ n ∈ parent.children, n < heap.length := fun n hn => hbounded p n ⟨parent, hparent, hn⟩
      refine ⟨hc, p, ?_⟩
      rw [hcreates.stack, hcreates.grown]
      simp only [childOf_allocated hparent hcreates.leaf, if_pos]
      obtain hsame | ⟨child, hchild, hnew⟩ := hstands.refuse htake heap.length
      · refine ⟨heap.length, rfl, .inl rfl, fun hmem => ?_⟩
        have hlt := hold heap.length (hsame ▸ hmem)
        omega
      · refine ⟨child, rfl, .inr ⟨parent, hparent, by simp [hchild]⟩, fun hmem => ?_⟩
        have hlt := hold child (by simp [hchild])
        rw [hnew, List.mem_singleton] at hmem
        omega

end Follow

/-- A finished tree: its root has a child, every node that a call created is below the one that
was open then, and it runs to its end. -/
structure Sound (chain : List (Call φ κ)) (root : Nat) (heap : Heap φ κ) : Prop where
  child : ∃ child, heap[root]? = some (.BTRoot (some child))
  kept : ∀ p n, Created chain p n → Reachable heap root p ∧ ChildOf heap p n
  runs : ∃ n, ∀ depth ≥ n, ∀ (δ σ : Type) (a : Actors φ κ δ σ) (delta : δ) (e : Env φ σ),
    (Run a heap delta depth root e).isSome

section Sound

variable {b : BehaviorTreeBuilder} {heap : Heap φ κ} {c : Call φ κ} {chain past : List (Call φ κ)} {root p n : Nat}
  {stack : List Opened}

theorem created_concat (h : Created (past ++ [c]) p n) :
    Created past p n ∨
      c ≠ .end ∧ ∃ b heap, after past = some (b, heap) ∧ b.parents.head? = some p ∧ n = heap.length := by
  obtain ⟨earlier, c', later, b, heap, hsplit, hc, hafter, hhead, hn⟩ := h
  obtain rfl | ⟨later, last, rfl⟩ := List.eq_nil_or_concat later
  · obtain ⟨rfl, hlast⟩ := List.append_inj' hsplit rfl
    obtain rfl := List.singleton_inj.mp hlast
    exact .inr ⟨hc, b, heap, hafter, hhead, hn⟩
  · have hassoc : past ++ [c] = (earlier ++ c' :: later) ++ [last] := by simpa using hsplit
    obtain ⟨rfl, _⟩ := List.append_inj' hassoc rfl
    exact .inl ⟨earlier, c', later, b, heap, rfl, hc, hafter, hhead, hn⟩

/-- Where all nodes have a place, none is lost. -/
theorem kept_of_nest (hafter : after chain = some (b, heap)) (hnest : nestAll [.root false] chain = some stack) :
    Follows b heap stack ∧ (∀ p ∈ b.parents, Reachable heap 0 p) ∧
      ∀ p n, Created chain p n → Reachable heap 0 p ∧ ChildOf heap p n := by
  induction chain using List.reverseRecOn generalizing b heap stack with
  | nil =>
    cases hafter
    cases hnest
    refine ⟨.start, fun p hp => ?_, fun p n hcreated => ?_⟩
    · rw [List.mem_singleton.mp hp]
      exact .refl
    · obtain ⟨_, _, _, _, _, hsplit, _⟩ := hcreated
      simp at hsplit
  | append_singleton past c ih =>
    obtain ⟨b₁, heap₁, hpast, hcall⟩ := after_concat hafter
    rw [nestAll_concat] at hnest
    obtain ⟨stack₁, hnest₁, hlast⟩ := Option.bind_eq_some_iff.mp hnest
    obtain ⟨hfollows, hopen, hkept⟩ := ih hpast hnest₁
    obtain ⟨hfollows', hgrows, hparents, hadded⟩ := hfollows.step hcall hlast
    have hreach {q : Nat} (h : Reachable heap₁ 0 q) : Reachable heap 0 q :=
      Relation.ReflTransGen.mono hgrows _ _ h
    refine ⟨hfollows', fun q hq => ?_, fun q m hcreated => ?_⟩
    · obtain hold | ⟨p, hp, hchild⟩ := hparents q hq
      · exact hreach (hopen q hold)
      · exact (hreach (hopen p hp)).tail hchild
    · obtain hold | ⟨hc, b₂, heap₂, hsame, hhead, rfl⟩ := created_concat hcreated
      · exact ⟨hreach (hkept q m hold).1, hgrows q m (hkept q m hold).2⟩
      · obtain ⟨rfl, rfl⟩ := Prod.mk.inj (Option.some.inj (hpast.symm.trans hsame))
        exact ⟨hreach (hopen q (List.mem_of_head? hhead)), hadded hc q hhead⟩

/-- Where no node is lost, all have a place. -/
theorem nest_of_kept (hafter : after chain = some (b, heap)) (hkept : ∀ p n, Created chain p n → ChildOf heap p n) :
    ∀ past future, chain = past ++ future → ∀ b₁ heap₁, after past = some (b₁, heap₁) →
      ∃ stack, nestAll [.root false] past = some stack ∧ Follows b₁ heap₁ stack := by
  intro past
  induction past using List.reverseRecOn with
  | nil =>
    intro _ _ b₁ heap₁ hpast
    cases hpast
    exact ⟨_, rfl, .start⟩
  | append_singleton past c ih =>
    intro future hsplit b₁ heap₁ hpast
    obtain ⟨b₀, heap₀, hbefore, hcall⟩ := after_concat hpast
    obtain ⟨stack, hnest, hfollows⟩ := ih (c :: future) (by simpa using hsplit) b₀ heap₀ hbefore
    cases hlast : c.nest stack with
    | some stack' =>
      refine ⟨stack', ?_, (hfollows.step hcall hlast).1⟩
      rw [nestAll_concat, hnest]
      exact hlast
    | none =>
      obtain ⟨hc, p, n, hhead, hn, hlost⟩ := hfollows.refuse hcall (fun p n h => (childOf_after hbefore h).2) hlast
      have hcreated : Created (past ++ [c]) p n ∧ n < heap₁.length := by
        have hlength := (length_step hcall).2 hc
        obtain rfl | hold := hn
        · exact ⟨created_last hc hbefore hhead, hlength⟩
        · obtain ⟨hold, hlt⟩ := childOf_after hbefore hold
          exact ⟨hold.append [c], by omega⟩
      rw [hsplit] at hafter hkept
      exact absurd (childOf_earlier hpast hafter hcreated.2 (hkept p n (hcreated.1.append future))) hlost

/-- A finished tree is sound exactly when the calls write a tree down, whose selectors have one
child under each key. -/
theorem finish_accepts_sound_iff (h : build chain = some (some root, heap)) :
    Sound chain root heap ↔ ∃ t : Tree φ κ, t.Distinct ∧ chain = t.chain none := by
  obtain ⟨b, hafter, hfinish⟩ := build_eq_some.mp h
  obtain ⟨hone, hroot⟩ : b.parents.length = 1 ∧ b.root = root := by
    unfold Finish at hfinish
    split at hfinish
    · exact ⟨‹_›, Option.some.inj hfinish⟩
    · cases hfinish
  obtain ⟨p, hp⟩ := List.length_eq_one_iff.mp hone
  rw [← nestAll_root_iff]
  constructor
  · intro hsound
    obtain ⟨stack, hnest, hfollows⟩ := nest_of_kept hafter (fun p n hcreated => (hsound.kept p n hcreated).2) chain []
      (List.append_nil _).symm b heap hafter
    obtain ⟨child, hchild⟩ := hsound.child
    have hstands := hfollows.stands
    rw [hp] at hstands
    obtain ⟨o, rest, ⟨node, hnode, hstands⟩, hrest, rfl⟩ := List.forall₂_cons_left_iff.mp hstands
    obtain rfl := List.forall₂_nil_left_iff.mp hrest
    rw [hfollows.bottom p (by rw [hp]; rfl), ← hfollows.root, hroot, hchild] at hnode
    cases hnode
    cases hstands
    exact hnest
  · intro hnest
    obtain ⟨_, _, hkept⟩ := kept_of_nest hafter hnest
    obtain ⟨t, hdistinct, rfl⟩ := nestAll_root_iff.mp hnest
    obtain ⟨heap', hbuild, hchild, hrep⟩ := build_chain t hdistinct
    obtain ⟨hzero, rfl⟩ := Prod.mk.inj (Option.some.inj (h.symm.trans hbuild))
    obtain rfl := Option.some.inj hzero
    exact ⟨⟨1, hchild⟩, hkept, t.height + 1, fun depth hdepth δ σ a delta e => by rw [run_root hchild hrep hdepth]; rfl⟩

/-- A sequence with a selector of two actors. -/
theorem finish_accepts_sound_selector :
    let chain : List (Call Nat Unit) := [.sequence, .selector (), .actorKey 1 7, .actorKey 2 8, .end, .end]
    Sound chain 0 [.BTRoot (some 1), .Sequence [2], .Selector () [(1, 3), (2, 4)], .Actor 7, .Actor 8] :=
  (finish_accepts_sound_iff rfl).mpr
    ⟨.sequence [.selector () [(1, .actor 7), (2, .actor 8)]],
      by simp [Tree.Distinct, DistinctAll, DistinctBranches], rfl⟩

/-- `Finish` returns a root without a child, and a tree that an actor with a key is not in. -/
theorem not_finish_accepts_sound :
    (∃ heap, build ([] : List (Call Nat Unit)) = some (some 0, heap) ∧ ¬ Sound [] 0 heap ∧
      ∀ (a : Actors Nat Unit Unit Int) depth e, Run a heap () depth 0 e = none) ∧
    ∃ heap, build ([.sequence, .actorKey 1 7, .end] : List (Call Nat Unit)) = some (some 0, heap) ∧
      ¬ Sound [.sequence, .actorKey 1 7, .end] 0 heap := by
  refine ⟨⟨[.BTRoot none], rfl, fun hsound => ?_, fun a depth e => ?_⟩,
    [.BTRoot (some 1), .Sequence [], .Actor 7], rfl, fun hsound => ?_⟩
  · obtain ⟨child, hchild⟩ := hsound.child
    cases hchild
  · cases depth <;> rfl
  · have hcreated : Created ([.sequence, .actorKey 1 7, .end] : List (Call Nat Unit)) 1 2 :=
      ⟨[.sequence], .actorKey 1 7, [.end], ⟨0, [1, 0]⟩, [.BTRoot (some 1), .Sequence []], rfl, by simp, rfl, rfl, rfl⟩
    obtain ⟨node, hnode, hmem⟩ := (hsound.kept 1 2 hcreated).2
    cases hnode
    cases hmem

end Sound

end AsioGameServer.behavior
