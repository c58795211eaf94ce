import AsioGameServer.BehaviorTree.Builder

namespace AsioGameServer.behavior

variable {φ κ δ σ : Type}

mutual

/-- The calls that write a tree down, below a selector with its key. -/
def Tree.chain (key : Option Int) : Tree φ κ → List (Call φ κ)
  | .sequence children => key.elim .sequence .sequenceKey :: (chainAll children ++ [.end])
  | .selector set_key children =>
    key.elim (.selector set_key) (.selectorKey · set_key) :: (chainBranches children ++ [.end])
  | .actor func => [key.elim (.actor func) (.actorKey · func)]

def chainAll : List (Tree φ κ) → List (Call φ κ)
  | [] => []
  | child :: children => child.chain none ++ chainAll children

def chainBranches : List (Int × Tree φ κ) → List (Call φ κ)
  | [] => []
  | (k, child) :: children => child.chain (some k) ++ chainBranches children

end

mutual

/-- A node of the heap stands for a tree, with all its nodes from a place on. -/
def Represents (heap : Heap φ κ) (lo : Nat) (node : Nat) : Tree φ κ → Prop
  | .sequence children => lo ≤ node ∧ ∃ nodes, heap[node]? = some (.Sequence nodes) ∧
      RepresentsAll heap lo nodes children
  | .selector key children => lo ≤ node ∧ ∃ nodes, heap[node]? = some (.Selector key nodes) ∧
      RepresentsBranches heap lo nodes children
  | .actor func => lo ≤ node ∧ heap[node]? = some (.Actor func)

def RepresentsAll (heap : Heap φ κ) (lo : Nat) (nodes : List Nat) : List (Tree φ κ) → Prop
  | [] => nodes = []
  | child :: children => ∃ node rest, nodes = node :: rest ∧ Represents heap lo node child ∧
      RepresentsAll heap lo rest children

def RepresentsBranches (heap : Heap φ κ) (lo : Nat) (nodes : List (Int × Nat)) : List (Int × Tree φ κ) → Prop
  | [] => nodes = []
  | (k, child) :: children => ∃ node rest, nodes = (k, node) :: rest ∧ Represents heap lo node child ∧
      RepresentsBranches heap lo rest children

end

/-- The heap grew, and of the nodes that were there only one changed. -/
structure Extends (p : Nat) (heap heap' : Heap φ κ) : Prop where
  length : heap.length ≤ heap'.length
  same : ∀ i < heap.length, i ≠ p → heap'[i]? = heap[i]?

namespace Extends

variable {p : Nat} {heap heap' heap'' : Heap φ κ}

theorem refl : Extends p heap heap := ⟨Nat.le_refl _, fun _ _ _ => rfl⟩

theorem trans (h : Extends p heap heap') (h' : Extends p heap' heap'') : Extends p heap heap'' :=
  ⟨Nat.le_trans h.length h'.length, fun i hi hne =>
    (h'.same i (by have := h.length; omega) hne).trans (h.same i hi hne)⟩

theorem keeps {lo i : Nat} {node : BTNode φ κ} (h : Extends p heap heap') (hp : p < lo) (hi : lo ≤ i)
    (hnode : heap[i]? = some node) : heap'[i]? = some node := by
  obtain ⟨hlt, _⟩ := List.getElem?_eq_some_iff.mp hnode
  rw [h.same i hlt (by omega), hnode]

end Extends

section Frame

variable {lo lo' p : Nat} {heap heap' : Heap φ κ}

mutual

/-- A tree is still there when the nodes before it, or further nodes, change. -/
theorem Represents.extend (hlo : lo' ≤ lo) (hp : p < lo) (hext : Extends p heap heap') :
    ∀ (t : Tree φ κ) {node : Nat}, Represents heap lo node t → Represents heap' lo' node t
  | .sequence children, _, ⟨hle, nodes, hnode, hall⟩ =>
    ⟨Nat.le_trans hlo hle, nodes, hext.keeps hp hle hnode, RepresentsAll.extend hlo hp hext children hall⟩
  | .selector _ children, _, ⟨hle, nodes, hnode, hall⟩ =>
    ⟨Nat.le_trans hlo hle, nodes, hext.keeps hp hle hnode, RepresentsBranches.extend hlo hp hext children hall⟩
  | .actor _, _, ⟨hle, hnode⟩ => ⟨Nat.le_trans hlo hle, hext.keeps hp hle hnode⟩

theorem RepresentsAll.extend (hlo : lo' ≤ lo) (hp : p < lo) (hext : Extends p heap heap') :
    ∀ (children : List (Tree φ κ)) {nodes : List Nat}, RepresentsAll heap lo nodes children →
      RepresentsAll heap' lo' nodes children
  | [], _, hnil => hnil
  | child :: children, _, ⟨node, rest, hsplit, hchild, hrest⟩ =>
    ⟨node, rest, hsplit, Represents.extend hlo hp hext child hchild,
      RepresentsAll.extend hlo hp hext children hrest⟩

theorem RepresentsBranches.extend (hlo : lo' ≤ lo) (hp : p < lo) (hext : Extends p heap heap') :
    ∀ (children : List (Int × Tree φ κ)) {nodes : List (Int × Nat)}, RepresentsBranches heap lo nodes children →
      RepresentsBranches heap' lo' nodes children
  | [], _, hnil => hnil
  | (_, child) :: children, _, ⟨node, rest, hsplit, hchild, hrest⟩ =>
    ⟨node, rest, hsplit, Represents.extend hlo hp hext child hchild,
      RepresentsBranches.extend hlo hp hext children hrest⟩

end

end Frame

section Build

namespace BehaviorTreeBuilder

variable {b : BehaviorTreeBuilder} {heap : Heap φ κ} {p : Nat} {ps : List Nat} {parent node : BTNode φ κ}
  {key : Option Int}

/-- The open node takes a new node with a key or without. -/
def Accepts (key : Option Int) (parent : BTNode φ κ) : Prop :=
  key.elim (parent.type ≠ .SELECTOR) fun k => ∃ set_key children, parent = .Selector set_key children ∧
    k ∉ children.map Prod.fst

/-- The open node with a new node. -/
def inserted (key : Option Int) (node : Nat) (parent : BTNode φ κ) : BTNode φ κ :=
  key.elim (parent.Insert node) fun k => parent.InsertKey k node

theorem allocate_eq (hopen : b.parents = p :: ps) (hparent : heap[p]? = some parent) (haccepts : Accepts key parent) :
    b.allocate key node heap = some (heap.set p (inserted key heap.length parent) ++ [node]) := by
  have hp : heap[p]? = some parent := hparent
  unfold allocate
  rw [hopen]
  simp only [List.head?_cons, Option.bind_eq_bind, Option.bind_some, hp]
  cases key with
  | none => simp [inserted, show parent.type ≠ .SELECTOR from haccepts]
  | some k =>
    obtain ⟨set_key, children, rfl, _⟩ := haccepts
    simp [inserted, BTNode.type]

/-- The new node comes after all others, of which one changes. -/
theorem allocate_extends (hparent : heap[p]? = some parent) (node x : BTNode φ κ) :
    Extends p heap (heap.set p x ++ [node]) ∧ (heap.set p x ++ [node])[p]? = some x ∧
      (heap.set p x ++ [node])[heap.length]? = some node := by
  obtain ⟨hp, _⟩ := List.getElem?_eq_some_iff.mp hparent
  refine ⟨⟨by simp, fun i hi hne => ?_⟩, ?_, ?_⟩
  · rw [List.getElem?_append_left (by simpa using hi), List.getElem?_set_ne hne.symm]
  · rw [List.getElem?_append_left (by simpa using hp), List.getElem?_set_self hp]
  · rw [List.getElem?_append_right (by simp)]
    simp

theorem calls_append {chain chain' : List (Call φ κ)} {b' : BehaviorTreeBuilder} {heap' : Heap φ κ}
    (hfirst : b.calls chain heap = some (b', heap')) :
    b.calls (chain ++ chain') heap = b'.calls chain' heap' := by
  rw [calls, List.foldlM_append]
  change (b.calls chain heap >>= _) = _
  rw [hfirst]
  rfl

theorem calls_cons {c : Call φ κ} {chain : List (Call φ κ)} {b' : BehaviorTreeBuilder} {heap' : Heap φ κ}
    (hfirst : b.call heap c = some (b', heap')) : b.calls (c :: chain) heap = b'.calls chain heap' := by
  rw [calls, List.foldlM_cons]
  change (b.call heap c >>= _) = _
  rw [hfirst]
  rfl

end BehaviorTreeBuilder

open BehaviorTreeBuilder

/-- What a chain of calls for one tree leaves behind: the builder as it was, and the tree below the open node. -/
def Built (b : BehaviorTreeBuilder) (heap : Heap φ κ) (key : Option Int) (p : Nat) (parent : BTNode φ κ)
    (t : Tree φ κ) : Prop :=
  ∃ heap', b.calls (t.chain key) heap = some (b, heap') ∧ heap'[p]? = some (inserted key heap.length parent) ∧
    Extends p heap heap' ∧ Represents heap' heap.length heap.length t

/-- A composite node is opened, filled and closed. -/
theorem built_of_open {b : BehaviorTreeBuilder} {heap : Heap φ κ} {key : Option Int} {p : Nat} {ps : List Nat}
    {parent : BTNode φ κ} {t : Tree φ κ} (node : BTNode φ κ) (first : Call φ κ) (rest : List (Call φ κ))
    (hopen : b.parents = p :: ps) (hparent : heap[p]? = some parent) (haccepts : Accepts key parent)
    (hfirst : b.call heap first = b.open_ key node heap) (hchain : t.chain key = first :: (rest ++ [.end]))
    (hrest : ∀ heap₁, heap₁[heap.length]? = some node → heap₁.length = heap.length + 1 →
      ∃ heap₂, calls rest { b with parents := heap.length :: b.parents } heap₁ =
          some ({ b with parents := heap.length :: b.parents }, heap₂) ∧
        Extends heap.length heap₁ heap₂ ∧ Represents heap₂ heap.length heap.length t) :
    Built b heap key p parent t := by
  obtain ⟨hp, _⟩ := List.getElem?_eq_some_iff.mp hparent
  obtain ⟨hext, hat, hnew⟩ := allocate_extends hparent node (inserted key heap.length parent)
  obtain ⟨heap₂, hcalls, hext₂, hrep⟩ := hrest _ hnew (by simp)
  refine ⟨heap₂, ?_, ?_, ⟨Nat.le_trans hext.length hext₂.length, fun i hi hne => ?_⟩, hrep⟩
  · have hopened : b.call heap first = some ({ b with parents := heap.length :: b.parents },
        heap.set p (inserted key heap.length parent) ++ [node]) := by
      rw [hfirst, open_, allocate_eq hopen hparent haccepts]
      rfl
    rw [hchain, calls_cons hopened, calls_append hcalls]
    rfl
  · rw [hext₂.same p (by simp; omega) (by omega), hat]
  · rw [hext₂.same i (by simp; omega) (by omega), hext.same i hi hne]

mutual

theorem Tree.built : ∀ (t : Tree φ κ) (key : Option Int) {b : BehaviorTreeBuilder} {heap : Heap φ κ} {p : Nat}
    {ps : List Nat} {parent : BTNode φ κ}, t.Distinct → b.parents = p :: ps → heap[p]? = some parent →
      Accepts key parent → Built b heap key p parent t
  | .sequence children, key, b, heap, _, _, _, hdistinct, hopen, hparent, haccepts => by
    refine built_of_open (.Sequence []) (key.elim .sequence .sequenceKey) (chainAll children)
      hopen hparent haccepts ?_ rfl fun heap₁ hnew hlength => ?_
    · cases key <;> rfl
    · obtain ⟨heap₂, new, hcalls, hfull, hext, hall⟩ :=
        builtAll children (b := { b with parents := heap.length :: b.parents }) hdistinct rfl hnew
      refine ⟨heap₂, hcalls, hext, Nat.le_refl _, new, hfull, ?_⟩
      exact RepresentsAll.extend (by omega) (by omega) (Extends.refl (p := heap.length)) children hall
  | .selector set_key children, key, b, heap, _, _, _, hdistinct, hopen, hparent, haccepts => by
    refine built_of_open (.Selector set_key []) (key.elim (.selector set_key) (.selectorKey · set_key))
      (chainBranches children) hopen hparent haccepts ?_ rfl fun heap₁ hnew hlength => ?_
    · cases key <;> rfl
    · obtain ⟨heap₂, new, hcalls, hfull, hext, hall⟩ :=
        builtBranches children (b := { b with parents := heap.length :: b.parents }) hdistinct.2 rfl hnew
          (by simpa using hdistinct.1)
      refine ⟨heap₂, hcalls, hext, Nat.le_refl _, new, hfull, ?_⟩
      exact RepresentsBranches.extend (by omega) (by omega) (Extends.refl (p := heap.length)) children hall
  | .actor func, key, b, heap, p, _, parent, _, hopen, hparent, haccepts => by
    obtain ⟨hext, hat, hnew⟩ := allocate_extends hparent (.Actor func) (inserted key heap.length parent)
    refine ⟨_, ?_, hat, hext, Nat.le_refl _, hnew⟩
    have hcall : b.call heap (key.elim (.actor func) (.actorKey · func)) =
        (b.allocate key (.Actor func) heap).map (b, ·) := by cases key <;> rfl
    rw [Tree.chain, calls_cons (hcall.trans (by rw [allocate_eq hopen hparent haccepts]; rfl))]
    rfl

/-- Children are appended to an open sequence one after the other. -/
theorem builtAll : ∀ (children : List (Tree φ κ)) {b : BehaviorTreeBuilder} {heap : Heap φ κ} {n : Nat}
    {ps done : List Nat}, DistinctAll children → b.parents = n :: ps → heap[n]? = some (.Sequence done) →
      ∃ heap' new, b.calls (chainAll children) heap = some (b, heap') ∧
        heap'[n]? = some (.Sequence (done ++ new)) ∧ Extends n heap heap' ∧
        RepresentsAll heap' heap.length new children
  | [], _, heap, _, _, _, _, _, hnode => ⟨heap, [], rfl, by rwa [List.append_nil], .refl, rfl⟩
  | child :: children, b, heap, n, _, done, hdistinct, hopen, hnode => by
    obtain ⟨hn, _⟩ := List.getElem?_eq_some_iff.mp hnode
    obtain ⟨heap₁, hcalls₁, hat₁, hext₁, hrep₁⟩ :=
      Tree.built child none hdistinct.1 hopen hnode (by simp [Accepts, BTNode.type])
    obtain ⟨heap₂, new, hcalls₂, hat₂, hext₂, hrep₂⟩ := builtAll children hdistinct.2 hopen hat₁
    refine ⟨heap₂, heap.length :: new, ?_, ?_, hext₁.trans hext₂, heap.length, new, rfl, ?_, ?_⟩
    · rw [chainAll, calls_append hcalls₁, hcalls₂]
    · rw [hat₂, List.append_assoc]
      rfl
    · exact hrep₁.extend (Nat.le_refl _) hn hext₂
    · exact RepresentsAll.extend hext₁.length (by have := hext₁.length; omega) (Extends.refl (p := n)) children hrep₂

/-- Children are added to an open selector, which has none of their keys. -/
theorem builtBranches : ∀ (children : List (Int × Tree φ κ)) {b : BehaviorTreeBuilder} {heap : Heap φ κ} {n : Nat}
    {ps : List Nat} {set_key : κ} {done : List (Int × Nat)}, DistinctBranches children → b.parents = n :: ps →
      heap[n]? = some (.Selector set_key done) → (done.map Prod.fst ++ children.map Prod.fst).Nodup →
      ∃ heap' new, b.calls (chainBranches children) heap = some (b, heap') ∧
        heap'[n]? = some (.Selector set_key (done ++ new)) ∧ Extends n heap heap' ∧
        RepresentsBranches heap' heap.length new children
  | [], _, heap, _, _, _, _, _, _, hnode, _ => ⟨heap, [], rfl, by rwa [List.append_nil], .refl, rfl⟩
  | (k, child) :: children, b, heap, n, _, set_key, done, hdistinct, hopen, hnode, hkeys => by
    obtain ⟨hn, _⟩ := List.getElem?_eq_some_iff.mp hnode
    have hk : k ∉ done.map Prod.fst := fun hmem =>
      (List.nodup_append.mp hkeys).2.2 k hmem k List.mem_cons_self rfl
    obtain ⟨heap₁, hcalls₁, hat₁, hext₁, hrep₁⟩ :=
      Tree.built child (some k) hdistinct.1 hopen hnode ⟨set_key, done, rfl, hk⟩
    have hentry : inserted (some k) heap.length (.Selector set_key done : BTNode φ κ) =
        .Selector set_key (done ++ [(k, heap.length)]) := by
      simp [inserted, BTNode.InsertKey, if_neg hk]
    rw [hentry] at hat₁
    obtain ⟨heap₂, new, hcalls₂, hat₂, hext₂, hrep₂⟩ := builtBranches children hdistinct.2 hopen hat₁
      (by simpa using hkeys)
    refine ⟨heap₂, (k, heap.length) :: new, ?_, ?_, hext₁.trans hext₂, heap.length, new, rfl, ?_, ?_⟩
    · rw [chainBranches, calls_append hcalls₁, hcalls₂]
    · rw [hat₂, List.append_assoc]
      rfl
    · exact hrep₁.extend (Nat.le_refl _) hn hext₂
    · exact RepresentsBranches.extend hext₁.length (by have := hext₁.length; omega) (Extends.refl (p := n)) children
        hrep₂

end

end Build

section Run

variable {heap : Heap φ κ} {lo : Nat}

mutual

/-- To enough depth, a node runs as the tree that it stands for is evaluated. -/
theorem Represents.run : ∀ (t : Tree φ κ) {node depth : Nat}, Represents heap lo node t → t.height ≤ depth →
    ∀ (a : Actors φ κ δ σ) delta e, Run a heap delta depth node e = some (t.eval a delta e)
  | .sequence children, _, depth, ⟨_, nodes, hnode, hall⟩, hdepth, a, delta, e => by
    rw [Tree.height] at hdepth
    obtain ⟨depth, rfl⟩ : ∃ m, depth = m + 1 := ⟨depth - 1, by omega⟩
    simp only [Run, hnode]
    exact RepresentsAll.run children hall (by omega) a delta e
  | .selector key children, _, depth, ⟨_, nodes, hnode, hall⟩, hdepth, a, delta, e => by
    rw [Tree.height] at hdepth
    obtain ⟨depth, rfl⟩ : ∃ m, depth = m + 1 := ⟨depth - 1, by omega⟩
    simp only [Run, hnode]
    exact RepresentsBranches.run children hall (by omega) a delta (a.read key e.state) e
  | .actor func, _, depth, ⟨_, hnode⟩, hdepth, a, delta, e => by
    rw [Tree.height] at hdepth
    obtain ⟨depth, rfl⟩ : ∃ m, depth = m + 1 := ⟨depth - 1, by omega⟩
    simp only [Run, hnode, Tree.eval]

theorem RepresentsAll.run : ∀ (children : List (Tree φ κ)) {nodes : List Nat} {depth : Nat},
    RepresentsAll heap lo nodes children → heightAll children ≤ depth →
    ∀ (a : Actors φ κ δ σ) delta e,
      runChildren (Run a heap delta depth) nodes e = some (evalAll a delta children e)
  | [], _, _, hnil, _, a, delta, e => by rw [show _ = [] from hnil, runChildren, evalAll]
  | child :: children, _, depth, ⟨node, rest, hsplit, hchild, hrest⟩, hdepth, a, delta, e => by
    rw [heightAll] at hdepth
    rw [hsplit, runChildren, evalAll, Represents.run child hchild (by omega) a delta e]
    obtain ⟨result, e'⟩ := child.eval a delta e
    cases result with
    | true => exact RepresentsAll.run children hrest (by omega) a delta e'
    | false => rfl

theorem RepresentsBranches.run : ∀ (children : List (Int × Tree φ κ)) {nodes : List (Int × Nat)} {depth : Nat},
    RepresentsBranches heap lo nodes children → heightBranches children ≤ depth →
    ∀ (a : Actors φ κ δ σ) delta key e,
      (match nodes.lookup key with
        | some child => Run a heap delta depth child e
        | none => some (false, e)) = some (evalBranch a delta key children e)
  | [], _, _, hnil, _, a, delta, key, e => by rw [show _ = [] from hnil, List.lookup_nil, evalBranch]
  | (k, child) :: children, _, depth, ⟨node, rest, hsplit, hchild, hrest⟩, hdepth, a, delta, key, e => by
    rw [heightBranches] at hdepth
    rw [hsplit, evalBranch, List.lookup_cons]
    by_cases hk : k = key
    · rw [if_pos hk, hk, beq_self_eq_true]
      exact Represents.run child hchild (by omega) a delta e
    · rw [if_neg hk, beq_false_of_ne (Ne.symm hk)]
      exact RepresentsBranches.run children hrest (by omega) a delta key e

end

/-- A root runs its child, and returns true whatever the child does. -/
theorem run_root {root child depth : Nat} {t : Tree φ κ} (hroot : heap[root]? = some (.BTRoot (some child)))
    (hrep : Represents heap lo child t) (hdepth : t.height < depth) (a : Actors φ κ δ σ) (delta : δ) (e : Env φ σ) :
    Run a heap delta depth root e = some (true, (t.eval a delta e).2) := by
  obtain ⟨depth, rfl⟩ : ∃ m, depth = m + 1 := ⟨depth - 1, by omega⟩
  simp only [Run, hroot]
  rw [hrep.run t (by omega) a delta e]
  rfl

end Run

/-- What a chain of calls that writes a tree down leaves in the heap. -/
theorem build_chain (t : Tree φ κ) (hdistinct : t.Distinct) :
    ∃ heap, BehaviorTreeBuilder.build (t.chain none) = some (some 0, heap) ∧
      heap[0]? = some (.BTRoot (some 1)) ∧ Represents heap 1 1 t := by
  have hbuilt : Built ⟨0, [0]⟩ [.BTRoot none] none 0 (.BTRoot none) t :=
    Tree.built t none hdistinct rfl rfl (by simp [BehaviorTreeBuilder.Accepts, BTNode.type])
  obtain ⟨heap, hcalls, hroot, _, hrep⟩ := hbuilt
  refine ⟨heap, ?_, hroot, hrep⟩
  simp only [BehaviorTreeBuilder.build, BehaviorTreeBuilder.Create, List.length_nil, List.nil_append, hcalls]
  rfl

/-- A chain of calls that writes a tree down ends with a root, which calls the actors as the
evaluation of the tree does, from any values and whatever the actors change. -/
theorem builder_builds_what_is_written (t : Tree φ κ) (hdistinct : t.Distinct) :
    ∃ root heap, BehaviorTreeBuilder.build (t.chain none) = some (some root, heap) ∧
      ∃ n, ∀ depth ≥ n, ∀ (a : Actors φ κ δ σ) (delta : δ) (e : Env φ σ),
        Run a heap delta depth root e = some (true, (t.eval a delta e).2) := by
  obtain ⟨heap, hbuild, hroot, hrep⟩ := build_chain t hdistinct
  exact ⟨0, heap, hbuild, t.height + 1, fun depth hdepth => run_root hroot hrep hdepth⟩

/-- The first actor changes the key of the selector after it. -/
theorem builder_builds_selector :
    ∃ root heap, BehaviorTreeBuilder.build (Tree.chain none
        (.sequence [.actor 0, .selector () [(1, .actor 1), (2, .sequence [.actor 2])]])) = some (some root, heap) ∧
      ∃ n, ∀ depth ≥ n, Run ⟨fun func _ s => (func ≠ 2, if func = 0 then 2 else s), fun _ s => s⟩ heap () depth root
        (⟨1, []⟩ : Env Nat Int) = some (true, ⟨2, [(0, true), (2, false)]⟩) := by
  obtain ⟨root, heap, hbuild, n, hrun⟩ := builder_builds_what_is_written (φ := Nat) (κ := Unit) (δ := Unit) (σ := Int)
    (.sequence [.actor 0, .selector () [(1, .actor 1), (2, .sequence [.actor 2])]])
    (by simp [Tree.Distinct, DistinctAll, DistinctBranches])
  exact ⟨root, heap, hbuild, n, fun depth hdepth => hrun depth hdepth _ _ _⟩

end AsioGameServer.behavior
