import AsioGameServer.BehaviorTree.Refinement

namespace AsioGameServer.behavior

variable {φ κ : Type}

/-- What an open node can take: a root one child, a selector one child under each key. -/
inductive Opened where
  | root (full : Bool)
  | sequence
  | selector (keys : List Int)
deriving DecidableEq, Repr

/-- The open node with a child under a key or without one, if it can take it. -/
def Opened.take : Option Int → Opened → Option Opened
  | none, .root false => some (.root true)
  | none, .sequence => some .sequence
  | some k, .selector keys => if k ∈ keys then none else some (.selector (keys ++ [k]))
  | _, _ => none

namespace Call

/-- The key under which a call inserts its node. -/
def key : Call φ κ → Option Int
  | .sequenceKey key | .selectorKey key _ | .actorKey key _ => some key
  | _ => none

/-- What a call leaves open. -/
def opens : Call φ κ → List Opened
  | .sequence | .sequenceKey _ => [.sequence]
  | .selector _ | .selectorKey _ _ => [.selector []]
  | _ => []

/-- The open nodes after a call whose node has a place. -/
def nest (c : Call φ κ) : List Opened → Option (List Opened)
  | [] => none
  | top :: stack =>
    match c with
    | .end => some stack
    | c => (top.take c.key).map fun top => c.opens ++ top :: stack

end Call

/-- The open nodes after calls whose nodes all have a place. -/
def nestAll (stack : List Opened) (chain : List (Call φ κ)) : Option (List Opened) :=
  chain.foldlM (fun stack c => c.nest stack) stack

section Nest

variable {top top' : Opened} {stack final : List Opened} {c : Call φ κ} {chain rest : List (Call φ κ)}
    {key : Option Int}

theorem nest_of_take (hc : c ≠ .end) (htake : top.take c.key = some top') :
    c.nest (top :: stack) = some (c.opens ++ top' :: stack) := by
  cases c with
  | «end» => exact absurd rfl hc
  | _ => simp [Call.nest, htake]

theorem nest_eq_none_iff (hc : c ≠ .end) : c.nest (top :: stack) = none ↔ top.take c.key = none := by
  cases c with
  | «end» => exact absurd rfl hc
  | _ => simp [Call.nest]

theorem nest_eq_some (hc : c ≠ .end) {stack' : List Opened} (h : c.nest (top :: stack) = some stack') :
    ∃ top', top.take c.key = some top' ∧ stack' = c.opens ++ top' :: stack := by
  cases htake : top.take c.key with
  | none =>
    rw [(nest_eq_none_iff hc).mpr htake] at h
    cases h
  | some top' =>
    rw [nest_of_take hc htake] at h
    exact ⟨top', rfl, (Option.some.inj h).symm⟩

theorem nestAll_cons : nestAll stack (c :: chain) = (c.nest stack).bind (nestAll · chain) := rfl

theorem nestAll_append : nestAll stack (chain ++ rest) = (nestAll stack chain).bind (nestAll · rest) := by
  rw [nestAll, List.foldlM_append]
  rfl

theorem nestAll_concat : nestAll stack (chain ++ [c]) = (nestAll stack chain).bind c.nest := by
  rw [nestAll_append]
  congr 1
  funext stack
  rw [nestAll_cons]
  cases c.nest stack with
  | none => rfl
  | some stack => rfl

@[simp] theorem nestAll_end : nestAll (top :: stack) (.end :: chain) = nestAll stack chain := rfl

@[simp] theorem nestAll_closed : nestAll [] (c :: chain) = none := rfl

theorem nestAll_of_take (hc : c ≠ .end) (htake : top.take c.key = some top') :
    nestAll (top :: stack) (c :: chain) = nestAll (c.opens ++ top' :: stack) chain := by
  rw [nestAll_cons, nest_of_take hc htake]
  rfl

end Nest

section Written

mutual

/-- The calls that write a tree down all find a place, and close what they open. -/
theorem Tree.nest_chain : ∀ (t : Tree φ κ) {key : Option Int} {top top' : Opened} {stack : List Opened}
    {rest : List (Call φ κ)}, t.Distinct → top.take key = some top' →
      nestAll (top :: stack) (t.chain key ++ rest) = nestAll (top' :: stack) rest
  | .sequence children, key, top, top', stack, rest, hdistinct, htake => by
    have hopen : ∀ chain : List (Call φ κ), nestAll (top :: stack) (key.elim .sequence .sequenceKey :: chain) =
        nestAll (.sequence :: top' :: stack) chain := fun chain => by
      cases key <;> exact nestAll_of_take (by simp) htake
    rw [Tree.chain, List.cons_append, hopen, List.append_assoc, nest_chainAll children hdistinct]
    rfl
  | .selector set_key children, key, top, top', stack, rest, hdistinct, htake => by
    have hopen : ∀ chain : List (Call φ κ),
        nestAll (top :: stack) (key.elim (.selector set_key) (.selectorKey · set_key) :: chain) =
        nestAll (.selector [] :: top' :: stack) chain := fun chain => by
      cases key <;> exact nestAll_of_take (by simp) htake
    rw [Tree.chain, List.cons_append, hopen, List.append_assoc,
      nest_chainBranches children hdistinct.2 (by simpa using hdistinct.1)]
    rfl
  | .actor func, key, top, top', stack, rest, _, htake => by
    rw [Tree.chain, List.singleton_append]
    cases key <;> exact nestAll_of_take (by simp) htake

theorem nest_chainAll : ∀ (children : List (Tree φ κ)) {stack : List Opened} {rest : List (Call φ κ)},
    DistinctAll children → nestAll (.sequence :: stack) (chainAll children ++ rest) = nestAll (.sequence :: stack) rest
  | [], _, _, _ => rfl
  | child :: children, stack, rest, hdistinct => by
    rw [chainAll, List.append_assoc, Tree.nest_chain child hdistinct.1 rfl, nest_chainAll children hdistinct.2]

theorem nest_chainBranches : ∀ (children : List (Int × Tree φ κ)) {keys : List Int} {stack : List Opened}
    {rest : List (Call φ κ)}, DistinctBranches children → (keys ++ children.map Prod.fst).Nodup →
      nestAll (.selector keys :: stack) (chainBranches children ++ rest) =
        nestAll (.selector (keys ++ children.map Prod.fst) :: stack) rest
  | [], keys, _, _, _, _ => by
    rw [List.map_nil, List.append_nil]
    rfl
  | (k, child) :: children, keys, stack, rest, hdistinct, hkeys => by
    have hk : k ∉ keys := fun hmem => (List.nodup_append.mp hkeys).2.2 k hmem k List.mem_cons_self rfl
    have htake : (Opened.selector keys).take (some k) = some (.selector (keys ++ [k])) := if_neg hk
    rw [chainBranches, List.append_assoc, Tree.nest_chain child hdistinct.1 htake,
      nest_chainBranches children hdistinct.2 (by simpa using hkeys)]
    simp

end

end Written

section Parse

/-- What the calls after an open node are, when all of them find a place: its children, its
`end` and the calls after that. -/
def Closes (stack : List Opened) (chain : List (Call φ κ)) (final : List Opened) : Opened → Prop
  | .root _ => True
  | .sequence => ∃ children rest, DistinctAll children ∧ chain = chainAll children ++ .end :: rest ∧
      nestAll stack rest = some final
  | .selector keys => keys.Nodup → ∃ children rest, DistinctBranches children ∧
      (keys ++ children.map Prod.fst).Nodup ∧ chain = chainBranches children ++ .end :: rest ∧
      nestAll stack rest = some final

variable {top : Opened} {stack final : List Opened} {c : Call φ κ} {chain : List (Call φ κ)}

/-- A call that is not `end` begins a tree. -/
theorem begins_tree (hcloses : ∀ top stack, nestAll (top :: stack) chain = some final → Closes stack chain final top)
    (hc : c ≠ .end) (h : nestAll (top :: stack) (c :: chain) = some final) :
    ∃ (t : Tree φ κ) (rest : List (Call φ κ)) (top' : Opened), t.Distinct ∧ c :: chain = t.chain c.key ++ rest ∧
      top.take c.key = some top' ∧ nestAll (top' :: stack) rest = some final := by
  obtain ⟨stack', hnest, hrest⟩ := Option.bind_eq_some_iff.mp (nestAll_cons ▸ h)
  obtain ⟨top', htake, rfl⟩ := nest_eq_some hc hnest
  -- A composite node has its children up to its `end`.
  have hsequence (key : Option Int) (hopens : c.opens = [.sequence]) (hkey : c = key.elim .sequence .sequenceKey) :
      ∃ (t : Tree φ κ) (rest : List (Call φ κ)), t.Distinct ∧ c :: chain = t.chain key ++ rest ∧
        nestAll (top' :: stack) rest = some final := by
    rw [hopens] at hrest
    obtain ⟨children, rest, hdistinct, rfl, hafter⟩ := hcloses .sequence (top' :: stack) hrest
    exact ⟨.sequence children, rest, hdistinct, by simp [Tree.chain, hkey], hafter⟩
  have hselector (key : Option Int) (set_key : κ) (hopens : c.opens = [.selector []])
      (hkey : c = key.elim (.selector set_key) (.selectorKey · set_key)) :
      ∃ (t : Tree φ κ) (rest : List (Call φ κ)), t.Distinct ∧ c :: chain = t.chain key ++ rest ∧
        nestAll (top' :: stack) rest = some final := by
    rw [hopens] at hrest
    obtain ⟨children, rest, hdistinct, hkeys, rfl, hafter⟩ :=
      hcloses (.selector []) (top' :: stack) hrest List.nodup_nil
    exact ⟨.selector set_key children, rest, ⟨by simpa using hkeys, hdistinct⟩, by simp [Tree.chain, hkey], hafter⟩
  have htree : ∃ (t : Tree φ κ) (rest : List (Call φ κ)), t.Distinct ∧ c :: chain = t.chain c.key ++ rest ∧
      nestAll (top' :: stack) rest = some final := by
    cases c with
    | «end» => exact absurd rfl hc
    | sequence => exact hsequence none rfl rfl
    | sequenceKey key => exact hsequence (some key) rfl rfl
    | selector set_key => exact hselector none set_key rfl rfl
    | selectorKey key set_key => exact hselector (some key) set_key rfl rfl
    | actor func => exact ⟨.actor func, chain, trivial, rfl, hrest⟩
    | actorKey key func => exact ⟨.actor func, chain, trivial, rfl, hrest⟩
  obtain ⟨t, rest, hdistinct, hsplit, hafter⟩ := htree
  exact ⟨t, rest, top', hdistinct, hsplit, htake, hafter⟩

theorem Tree.chain_length_pos (t : Tree φ κ) (key : Option Int) : 0 < (t.chain key).length := by
  cases t <;> simp [Tree.chain]

/-- Where all calls find a place and only a root stays open, every open node is closed. -/
theorem closes {full : Bool} (n : Nat) : ∀ (chain : List (Call φ κ)), chain.length ≤ n →
    ∀ top stack, nestAll (top :: stack) chain = some [.root full] → Closes stack chain [.root full] top := by
  induction n with
  | zero =>
    intro chain hlength top stack h
    obtain rfl := List.eq_nil_of_length_eq_zero (Nat.le_zero.mp hlength)
    obtain ⟨rfl, rfl⟩ := List.cons.inj (Option.some.inj h)
    trivial
  | succ n ih =>
    intro chain hlength top stack h
    cases chain with
    | nil =>
      obtain ⟨rfl, rfl⟩ := List.cons.inj (Option.some.inj h)
      trivial
    | cons c chain =>
      rw [List.length_cons] at hlength
      by_cases hc : c = .end
      · subst hc
        rw [nestAll_end] at h
        cases top with
        | root full => trivial
        | sequence => exact ⟨[], chain, trivial, rfl, h⟩
        | selector keys => exact fun hkeys => ⟨[], chain, trivial, by simpa using hkeys, rfl, h⟩
      · obtain ⟨t, rest, top', hdistinct, hsplit, htake, hafter⟩ :=
          begins_tree (fun top stack => ih chain (by omega) top stack) hc h
        have hshorter : rest.length ≤ n := by
          have hpos := t.chain_length_pos c.key
          have hlengths := congrArg List.length hsplit
          simp only [List.length_cons, List.length_append] at hlengths
          omega
        have hrest := ih rest hshorter top' stack hafter
        rw [hsplit]
        generalize c.key = key at htake
        cases top with
        | root full => trivial
        | sequence =>
          cases key with
          | some k => cases htake
          | none =>
            cases htake
            obtain ⟨children, after, hall, rfl, hfinal⟩ := hrest
            exact ⟨t :: children, after, ⟨hdistinct, hall⟩, by simp [chainAll], hfinal⟩
        | selector keys =>
          cases key with
          | none => cases htake
          | some k =>
            intro hkeys
            rw [Opened.take] at htake
            split at htake
            · cases htake
            · rename_i hk
              cases htake
              have hmore : (keys ++ [k]).Nodup := by
                refine List.nodup_append.mpr ⟨hkeys, by simp, ?_⟩
                rintro a ha b hb rfl
                exact hk (List.mem_singleton.mp hb ▸ ha)
              obtain ⟨children, after, hall, hnodup, rfl, hfinal⟩ := hrest hmore
              refine ⟨(k, t) :: children, after, ⟨hdistinct, hall⟩, by simpa using hnodup, ?_, hfinal⟩
              simp [chainBranches]

/-- The calls after `Create` all find a place, and the root its child, exactly when they
write a tree down. -/
theorem nestAll_root_iff :
    nestAll [.root false] chain = some [.root true] ↔ ∃ t : Tree φ κ, t.Distinct ∧ chain = t.chain none := by
  have hclosed : ∀ rest : List (Call φ κ), nestAll [] rest ≠ some [.root true] := fun rest h => by
    cases rest with
    | nil => cases h
    | cons c rest => cases h
  constructor
  · intro h
    cases chain with
    | nil => cases h
    | cons c chain =>
      by_cases hc : c = .end
      · subst hc
        exact absurd h (hclosed chain)
      · obtain ⟨t, rest, top', hdistinct, hsplit, htake, hafter⟩ :=
          begins_tree (fun top stack => closes chain.length chain (Nat.le_refl _) top stack) hc h
        generalize c.key = key at hsplit htake
        cases key with
        | some k => cases htake
        | none =>
          cases htake
          refine ⟨t, hdistinct, ?_⟩
          -- A full root takes nothing, and an `end` would close it.
          cases rest with
          | nil => rw [hsplit, List.append_nil]
          | cons c' rest =>
            by_cases hc' : c' = .end
            · subst hc'
              exact absurd hafter (hclosed rest)
            · obtain ⟨_, hnest, _⟩ := Option.bind_eq_some_iff.mp (nestAll_cons ▸ hafter)
              obtain ⟨_, hfull, _⟩ := nest_eq_some hc' hnest
              generalize c'.key = key at hfull
              cases key <;> cases hfull
  · rintro ⟨t, hdistinct, rfl⟩
    have hnest : nestAll [.root false] (t.chain none ++ []) = nestAll [.root true] ([] : List (Call φ κ)) :=
      t.nest_chain hdistinct rfl
    rwa [List.append_nil] at hnest

end Parse

end AsioGameServer.behavior
