import AsioGameServer.Component.WellFormed
import Mathlib.Data.List.Induction

open Function

namespace AsioGameServer.component

/-- The tags of the components, and the static `TagComponents`, where a tag may have no map. -/
structure Tags where
  tag : Nat → List String
  TagComponents : String → Option (List Nat)

namespace Tags

variable {s : Tags} {t t' : String} {c c' : Nat}

/-- No component has a tag. -/
def start : Tags := ⟨fun _ => [], fun _ => none⟩

/-- `SetTag`, with what it returns. -/
def SetTag (t : String) (c : Nat) (s : Tags) : Bool × Tags :=
  if t ∈ s.tag c then (false, s)
  else
    let s := { s with tag := update s.tag c (s.tag c ++ [t]) }
    match s.TagComponents t with
    | some result =>
      (true, { s with TagComponents := update s.TagComponents t (some (if c ∈ result then result else result ++ [c])) })
    | none => (true, { s with TagComponents := update s.TagComponents t (some [c]) })

/-- `RemoveTag`, with what it returns. The component itself keeps the tag. -/
def RemoveTag (t : String) (c : Nat) (s : Tags) : Bool × Tags :=
  if t ∈ s.tag c then
    match s.TagComponents t with
    | some tagresult => (true, { s with TagComponents := update s.TagComponents t (some (tagresult.filter (· ≠ c))) })
    | none => (false, s)
  else (false, s)

/-- `GetComponents_For_Tag`, with what it adds to its vector. -/
def GetComponents_For_Tag (t : String) (s : Tags) : Bool × List Nat :=
  match s.TagComponents t with
  | some result => (true, result)
  | none => (false, [])

section Effects

/-- The components of a tag that has no map are those of an empty one. -/
theorem listed_eq : (s.GetComponents_For_Tag t).2 = (s.TagComponents t).getD [] := by
  unfold GetComponents_For_Tag
  split <;> simp [*]

/-- A tag that the component has already is not set again, and the call says so. -/
theorem SetTag_old (hold : t ∈ s.tag c) : s.SetTag t c = (false, s) := if_pos hold

/-- A tag that is new to the component lists the component under it. The tag may have a map, may
have none, or may list the component already. -/
theorem SetTag_new (hnew : t ∉ s.tag c) :
    s.SetTag t c = (true, ⟨update s.tag c (s.tag c ++ [t]), update s.TagComponents t (some
      (if c ∈ (s.TagComponents t).getD [] then (s.TagComponents t).getD []
        else (s.TagComponents t).getD [] ++ [c]))⟩) := by
  unfold SetTag
  rw [if_neg hnew]
  dsimp only
  cases s.TagComponents t with
  | none => rfl
  | some result => rfl

/-- A tag that the component has, and that has a map, loses the component there. -/
theorem RemoveTag_old (hold : t ∈ s.tag c) {tagresult : List Nat} (hindex : s.TagComponents t = some tagresult) :
    s.RemoveTag t c =
      (true, { s with TagComponents := update s.TagComponents t (some (tagresult.filter (· ≠ c))) }) := by
  rw [RemoveTag, if_pos hold, hindex]

/-- A tag that the component never had is not removed, and the call says so. -/
theorem RemoveTag_new (hnew : t ∉ s.tag c) : s.RemoveTag t c = (false, s) := if_neg hnew

end Effects

/-- A call of `SetTag` or `RemoveTag` on a component. -/
inductive Call where
  | SetTag (tag : String) (component : Nat)
  | RemoveTag (tag : String) (component : Nat)
deriving DecidableEq, Repr

namespace Call

/-- The tag and the component that a call is about. -/
def about : Call → String × Nat
  | .SetTag tag component | .RemoveTag tag component => (tag, component)

/-- What a call does, with what it returns. -/
def apply : Call → Tags → Bool × Tags
  | .SetTag tag component, s => s.SetTag tag component
  | .RemoveTag tag component, s => s.RemoveTag tag component

end Call

/-- The tags after some calls. -/
def after (calls : List Call) : Tags := calls.foldl (fun s call => (call.apply s).2) start

/-- The component is among those of the tag. -/
def Listed (calls : List Call) (t : String) (c : Nat) : Prop := c ∈ ((after calls).GetComponents_For_Tag t).2

/-- The last call about the tag and the component was `SetTag`. -/
def LastSet (calls : List Call) (t : String) (c : Nat) : Prop :=
  (calls.filter (·.about = (t, c))).getLast? = some (.SetTag t c)

/-- The component had the tag set and removed after that. -/
def Withdrawn (calls : List Call) (t : String) (c : Nat) : Prop := [.SetTag t c, .RemoveTag t c].Sublist calls

variable {calls : List Call} {call : Call}

/-- The last call works on what the calls before it left. -/
theorem after_concat : after (calls ++ [call]) = (call.apply (after calls)).2 := by
  rw [after, List.foldl_append]
  rfl

/-- One more call decides about its own tag and component, and about no others. -/
theorem lastSet_concat :
    LastSet (calls ++ [call]) t c ↔ if call.about = (t, c) then call = .SetTag t c else LastSet calls t c := by
  unfold LastSet
  rw [List.filter_append]
  split
  · rename_i habout
    simp [habout]
  · rename_i hother
    simp [hother]

/-- A tag is withdrawn once it was set and then removed, and stays withdrawn, whatever is called
later. -/
theorem withdrawn_concat :
    Withdrawn (calls ++ [call]) t c ↔ Withdrawn calls t c ∨ .SetTag t c ∈ calls ∧ call = .RemoveTag t c := by
  unfold Withdrawn
  rw [List.sublist_append_iff]
  constructor
  · rintro ⟨first, last, hsplit, hfirst, hlast⟩
    obtain rfl | rfl := List.sublist_singleton.mp hlast
    · rw [List.append_nil] at hsplit
      exact .inl (hsplit ▸ hfirst)
    · obtain ⟨rfl, hcall⟩ := List.append_inj' (show [.SetTag t c] ++ [.RemoveTag t c] = first ++ [call] from hsplit) rfl
      exact .inr ⟨List.singleton_sublist.mp hfirst, (List.singleton_inj.mp hcall).symm⟩
  · rintro (hold | ⟨hset, rfl⟩)
    · exact ⟨_, [], (List.append_nil _).symm, hold, List.nil_sublist _⟩
    · exact ⟨[.SetTag t c], [.RemoveTag t c], rfl, List.singleton_sublist.mpr hset, List.Sublist.refl _⟩

/-- What the calls so far left of a tag and a component: the component keeps the tag for ever,
and its place among those of the tag until the first removal. -/
structure Kept (calls : List Call) (s : Tags) (t : String) (c : Nat) : Prop where
  own : t ∈ s.tag c ↔ .SetTag t c ∈ calls
  listed : c ∈ (s.TagComponents t).getD [] ↔ .SetTag t c ∈ calls ∧ ¬ Withdrawn calls t c
  indexed : .SetTag t c ∈ calls → (s.TagComponents t).isSome

/-- The invariant after `SetTag`. A tag that was withdrawn before is still a tag of the component,
so that it is not listed again. -/
theorem kept_SetTag (h : ∀ t c, Kept calls s t c) (t' : String) (c' : Nat) (t : String) (c : Nat) :
    Kept (calls ++ [.SetTag t' c']) (s.SetTag t' c').2 t c := by
  have hcalls : Call.SetTag t c ∈ calls ++ [.SetTag t' c'] ↔ Call.SetTag t c ∈ calls ∨ t = t' ∧ c = c' := by
    simp
  have hwithdrawn : Withdrawn (calls ++ [.SetTag t' c']) t c ↔ Withdrawn calls t c := by
    simp [withdrawn_concat]
  obtain ⟨hown, hlisted, hindexed⟩ := h t c
  by_cases hold : t' ∈ s.tag c'
  · have hsame : Call.SetTag t c ∈ calls ++ [.SetTag t' c'] ↔ Call.SetTag t c ∈ calls := by
      rw [hcalls]
      refine ⟨?_, .inl⟩
      rintro (hmem | ⟨rfl, rfl⟩)
      · exact hmem
      · exact (h t c).own.mp hold
    rw [SetTag_old hold]
    exact ⟨by rw [hsame, hown], by rw [hsame, hwithdrawn, hlisted], fun hmem => hindexed (hsame.mp hmem)⟩
  · have hnever : Call.SetTag t' c' ∉ calls := fun hmem => hold ((h t' c').own.mpr hmem)
    have hunlisted : c' ∉ (s.TagComponents t').getD [] := fun hmem => hnever ((h t' c').listed.mp hmem).1
    have hstays : ¬ Withdrawn calls t' c' := fun hmem => hnever (hmem.subset List.mem_cons_self)
    rw [SetTag_new hold, if_neg hunlisted]
    refine ⟨?_, ?_, fun hmem => ?_⟩
    · rw [hcalls, ← hown]
      by_cases hc : c = c'
      · subst hc
        simp
      · simp [hc]
    · rw [hcalls, hwithdrawn]
      dsimp only
      by_cases ht : t = t'
      · subst ht
        rw [update_self, Option.getD_some, List.mem_append, List.mem_singleton, hlisted]
        constructor
        · rintro (⟨hmem, hnot⟩ | rfl)
          · exact ⟨.inl hmem, hnot⟩
          · exact ⟨.inr ⟨rfl, rfl⟩, hstays⟩
        · rintro ⟨hmem | ⟨_, rfl⟩, hnot⟩
          · exact .inl ⟨hmem, hnot⟩
          · exact .inr rfl
      · rw [update_of_ne ht, hlisted]
        simp [ht]
    · dsimp only
      by_cases ht : t = t'
      · rw [ht, update_self]
        rfl
      · rw [update_of_ne ht]
        exact hindexed ((hcalls.mp hmem).resolve_right fun heq => ht heq.1)

/-- The invariant after `RemoveTag`, which takes the component off the list of the tag and leaves
the tag with the component. -/
theorem kept_RemoveTag (h : ∀ t c, Kept calls s t c) (t' : String) (c' : Nat) (t : String) (c : Nat) :
    Kept (calls ++ [.RemoveTag t' c']) (s.RemoveTag t' c').2 t c := by
  have hcalls : Call.SetTag t c ∈ calls ++ [.RemoveTag t' c'] ↔ Call.SetTag t c ∈ calls := by
    simp
  have hwithdrawn : Withdrawn (calls ++ [.RemoveTag t' c']) t c ↔
      Withdrawn calls t c ∨ .SetTag t c ∈ calls ∧ t' = t ∧ c' = c := by
    simp [withdrawn_concat]
  obtain ⟨hown, hlisted, hindexed⟩ := h t c
  by_cases hold : t' ∈ s.tag c'
  · obtain ⟨tagresult, hindex⟩ := Option.isSome_iff_exists.mp ((h t' c').indexed ((h t' c').own.mp hold))
    rw [RemoveTag_old hold hindex]
    refine ⟨by rw [hcalls, hown], ?_, fun hmem => ?_⟩
    · rw [hcalls, hwithdrawn]
      dsimp only
      by_cases ht : t = t'
      · subst ht
        rw [hindex, Option.getD_some] at hlisted
        rw [update_self, Option.getD_some, List.mem_filter, hlisted, decide_eq_true_eq]
        constructor
        · rintro ⟨⟨hset, hstays⟩, hc⟩
          refine ⟨hset, ?_⟩
          rintro (hnot | ⟨_, _, rfl⟩)
          · exact hstays hnot
          · exact hc rfl
        · rintro ⟨hset, hstays⟩
          exact ⟨⟨hset, fun hnot => hstays (.inl hnot)⟩, fun hc => hstays (.inr ⟨hset, rfl, hc.symm⟩)⟩
      · rw [update_of_ne ht, hlisted]
        simp [Ne.symm ht]
    · dsimp only
      by_cases ht : t = t'
      · rw [ht, update_self]
        rfl
      · rw [update_of_ne ht]
        exact hindexed (hcalls.mp hmem)
  · have hsame : Withdrawn (calls ++ [.RemoveTag t' c']) t c ↔ Withdrawn calls t c := by
      rw [hwithdrawn]
      refine ⟨?_, .inl⟩
      rintro (hnot | ⟨hset, rfl, rfl⟩)
      · exact hnot
      · exact absurd ((h t' c').own.mpr hset) hold
    rw [RemoveTag_new hold]
    exact ⟨by rw [hcalls, hown], by rw [hcalls, hsame, hlisted], fun hmem => hindexed (hcalls.mp hmem)⟩

/-- The invariant holds after all calls, by induction on the last one. -/
theorem kept_after (calls : List Call) (t : String) (c : Nat) : Kept calls (after calls) t c := by
  induction calls using List.reverseRecOn generalizing t c with
  | nil => exact ⟨by simp [after, start], by simp [after, start], by simp⟩
  | append_singleton calls call ih =>
    rw [after_concat]
    cases call with
    | SetTag t' c' => exact kept_SetTag ih t' c' t c
    | RemoveTag t' c' => exact kept_RemoveTag ih t' c' t c

/-- Which components a tag lists: those it was set on and never removed from since. This is the
exact behaviour of the code, without any condition on the calls. -/
theorem listed_iff : Listed calls t c ↔ .SetTag t c ∈ calls ∧ ¬ Withdrawn calls t c := by
  rw [Listed, listed_eq]
  exact (kept_after calls t c).listed

/-- `SetTag` returns true the first time it is called for a tag and a component, and never after
that. -/
theorem SetTag_returns : ((Call.SetTag t c).apply (after calls)).1 = true ↔ .SetTag t c ∉ calls := by
  rw [← (kept_after calls t c).own]
  change ((after calls).SetTag t c).1 = true ↔ _
  by_cases hold : t ∈ (after calls).tag c
  · simp [SetTag_old hold, hold]
  · simp [SetTag_new hold, hold]

/-- `RemoveTag` returns true wherever the tag was set before, even if it was removed in between. -/
theorem RemoveTag_returns : ((Call.RemoveTag t c).apply (after calls)).1 = true ↔ .SetTag t c ∈ calls := by
  have hkept := kept_after calls t c
  rw [← hkept.own]
  change ((after calls).RemoveTag t c).1 = true ↔ _
  by_cases hold : t ∈ (after calls).tag c
  · obtain ⟨tagresult, hindex⟩ := Option.isSome_iff_exists.mp (hkept.indexed (hkept.own.mp hold))
    simp [RemoveTag_old hold hindex, hold]
  · simp [RemoveTag_new hold, hold]

/-- The index over the tags says what the last calls did, and each call returns whether it
changed that. -/
structure Coherent (calls : List Call) : Prop where
  answers : ∀ past future, calls = past ++ future → ∀ t c, Listed past t c ↔ LastSet past t c
  returns : ∀ past call future, calls = past ++ call :: future → ((call.apply (after past)).1 = true ↔
    ¬ (Listed past call.about.1 call.about.2 ↔ Listed (past ++ [call]) call.about.1 call.about.2))

/-- No call is about a component and a tag that it had set and removed before. -/
def LeavesRemoved (calls : List Call) : Prop :=
  ∀ t c call, call.about = (t, c) → ¬ [.SetTag t c, .RemoveTag t c, call].Sublist calls

/-- In such a sequence, no call meets a tag that is withdrawn from its component. -/
theorem LeavesRemoved.not_withdrawn {past future : List Call} (h : LeavesRemoved calls)
    (hsplit : calls = past ++ call :: future) (habout : call.about = (t, c)) : ¬ Withdrawn past t c := by
  intro hwithdrawn
  refine h t c call habout ?_
  rw [hsplit]
  exact hwithdrawn.append (List.cons_sublist_cons.mpr (List.nil_sublist future))

/-- In such a sequence, the last call was `SetTag` where the tag was set and not withdrawn. Each
further call is about a tag and a component that nothing was withdrawn of. -/
theorem LeavesRemoved.lastSet_iff (h : LeavesRemoved calls) :
    LastSet calls t c ↔ .SetTag t c ∈ calls ∧ ¬ Withdrawn calls t c := by
  induction calls using List.reverseRecOn with
  | nil => simp [LastSet]
  | append_singleton calls call ih =>
    have hearlier : LeavesRemoved calls := fun t c call habout hsub =>
      h t c call habout (hsub.trans (List.sublist_append_left _ _))
    rw [lastSet_concat, withdrawn_concat, List.mem_append, List.mem_singleton]
    split
    · rename_i habout
      have hstays : ¬ Withdrawn calls t c := h.not_withdrawn rfl habout
      cases call with
      | SetTag t' c' =>
        obtain ⟨rfl, rfl⟩ := Prod.mk.inj habout
        simp [hstays]
      | RemoveTag t' c' =>
        obtain ⟨rfl, rfl⟩ := Prod.mk.inj habout
        simp only [reduceCtorEq, or_false, and_true, false_iff, not_and, not_not]
        exact fun hset => .inr hset
    · rename_i hother
      have hset : Call.SetTag t c ≠ call := fun heq => hother (heq ▸ rfl)
      have hremove : call ≠ .RemoveTag t c := fun heq => hother (heq ▸ rfl)
      rw [ih hearlier]
      simp [hset, hremove]

/-- The index is coherent in the sequences of calls that leave a tag alone once it was set and
removed. -/
theorem tags_coherent_iff (calls : List Call) : Coherent calls ↔ LeavesRemoved calls := by
  constructor
  · intro hcoherent t c call habout hsub
    obtain ⟨before, rest, rfl, hwithdrawn, hcall⟩ :=
      List.append_sublist_iff.mp (show ([Call.SetTag t c, Call.RemoveTag t c] ++ [call]).Sublist calls from hsub)
    obtain ⟨between, future, rfl⟩ := List.append_of_mem (List.singleton_sublist.mp hcall)
    have hpast : Withdrawn (before ++ between) t c := hwithdrawn.trans (List.sublist_append_left _ _)
    have hset : Call.SetTag t c ∈ before ++ between := hpast.subset List.mem_cons_self
    have hunlisted : ¬ Listed (before ++ between) t c := fun hlisted => (listed_iff.mp hlisted).2 hpast
    have hnever : ¬ Listed (before ++ between ++ [call]) t c := fun hlisted =>
      (listed_iff.mp hlisted).2 (withdrawn_concat.mpr (.inl hpast))
    cases call with
    | SetTag t' c' =>
      obtain ⟨rfl, rfl⟩ := Prod.mk.inj habout
      refine hnever ((hcoherent.answers (before ++ between ++ [.SetTag t' c']) future (by simp) t' c').mpr ?_)
      exact lastSet_concat.mpr (by simp [Call.about])
    | RemoveTag t' c' =>
      obtain ⟨rfl, rfl⟩ := Prod.mk.inj habout
      have hreturns := hcoherent.returns (before ++ between) (.RemoveTag t' c') future (by simp)
      exact hreturns.mp (RemoveTag_returns.mpr hset) (iff_of_false hunlisted hnever)
  · intro hleaves
    refine ⟨fun past future hsplit t c => ?_, fun past call future hsplit => ?_⟩
    · have hpast : LeavesRemoved past := fun t c call habout hsub =>
        hleaves t c call habout (hsub.trans (hsplit ▸ List.sublist_append_left _ _))
      rw [listed_iff, hpast.lastSet_iff]
    · have hstays := hleaves.not_withdrawn hsplit (Prod.eta call.about).symm
      rw [listed_iff, listed_iff, withdrawn_concat]
      cases call with
      | SetTag t c =>
        rw [SetTag_returns]
        change ¬ Withdrawn past t c at hstays
        simp [Call.about, hstays]
      | RemoveTag t c =>
        rw [RemoveTag_returns]
        change ¬ Withdrawn past t c at hstays
        simp [Call.about, hstays]

section Example

/-- A tag that is set again is not listed again. -/
theorem not_tags_coherent :
    let calls := [Call.SetTag "enemy" 1, .RemoveTag "enemy" 1, .SetTag "enemy" 1]
    ((Call.SetTag "enemy" 1).apply (after [.SetTag "enemy" 1, .RemoveTag "enemy" 1])).1 = false ∧
      ((after calls).GetComponents_For_Tag "enemy").2 = [] ∧ ¬ Coherent calls := by
  refine ⟨rfl, rfl, fun hcoherent => ?_⟩
  have hlisted : Listed [Call.SetTag "enemy" 1, .RemoveTag "enemy" 1, .SetTag "enemy" 1] "enemy" 1 :=
    (hcoherent.answers _ [] (List.append_nil _).symm "enemy" 1).mpr rfl
  have hnobody : (1 : Nat) ∈ ([] : List Nat) := hlisted
  cases hnobody

end Example

section Heaps

/-- The tags as the components hold them. -/
structure Agrees (s : Tags) (h : Heap) : Prop where
  tag : ∀ c, s.tag c = (h.get c).tag
  TagComponents : ∀ t, (s.TagComponents t).getD [] = h.TagComponents t

variable {h : Heap}

/-- Both models set a tag alike. That the heap is well formed rules out a component that is listed
under a tag it does not have. -/
theorem Agrees.SetTag (ha : Agrees s h) (hw : h.WellFormed) : Agrees (s.SetTag t c).2 (h.SetTag t c) := by
  have hagree := ha.tag c
  by_cases hold : t ∈ s.tag c
  · rw [SetTag_old hold, Heap.SetTag, if_pos (by rw [← hagree]; exact hold)]
    exact ha
  · have hunlisted : c ∉ (s.TagComponents t).getD [] := fun hmem => by
      rw [ha.TagComponents] at hmem
      exact hold (by rw [hagree]; exact hw.tagged t c hmem)
    rw [SetTag_new hold, if_neg hunlisted, Heap.SetTag, if_neg (by rw [← hagree]; exact hold)]
    refine ⟨fun d => ?_, fun t' => ?_⟩
    · by_cases hd : d = c
      · subst hd
        simp [hagree]
      · simp [hd, Heap.onComponent_of_ne hd, ha.tag d]
    · by_cases ht : t' = t
      · subst ht
        simp [ha.TagComponents]
      · simp [ht, ha.TagComponents]

/-- Both models remove a tag alike. A tag without a map has no components in the heap. -/
theorem Agrees.RemoveTag (ha : Agrees s h) : Agrees (s.RemoveTag t c).2 (h.RemoveTag c t) := by
  have hagree := ha.tag c
  have hlisted := ha.TagComponents t
  by_cases hold : t ∈ s.tag c
  · rw [Heap.RemoveTag, if_pos (by rw [← hagree]; exact hold)]
    cases hindex : s.TagComponents t with
    | some tagresult =>
      rw [hindex, Option.getD_some] at hlisted
      rw [RemoveTag_old hold hindex, hlisted]
      refine ⟨ha.tag, fun t' => ?_⟩
      by_cases ht : t' = t
      · subst ht
        simp
      · simp [ht, ha.TagComponents]
    | none =>
      -- The tag has no map, and the components of it are none.
      rw [hindex, Option.getD_none] at hlisted
      rw [Tags.RemoveTag, if_pos hold, hindex, ← hlisted]
      refine ⟨ha.tag, fun t' => ?_⟩
      by_cases ht : t' = t
      · subst ht
        simp [hindex]
      · simp [ht, ha.TagComponents]
  · rw [RemoveTag_new hold, Heap.RemoveTag, if_neg (by rw [← hagree]; exact hold)]
    exact ha

/-- A tag makes no component. -/
theorem count_SetTag : (h.SetTag t c).count = h.count := by
  unfold Heap.SetTag
  split <;> rfl

/-- The removal of a tag makes no component either. -/
theorem count_RemoveTag : (h.RemoveTag c t).count = h.count := by
  unfold Heap.RemoveTag
  split <;> rfl

/-- The same call on the components of a heap. -/
def Call.onHeap : Call → Heap → Heap
  | .SetTag tag component, h => h.SetTag tag component
  | .RemoveTag tag component, h => h.RemoveTag component tag

/-- What is kept of the tags over some calls on the components of a heap. -/
theorem Agrees.after (hstart : Agrees start h) (hw : h.WellFormed) (calls : List Call)
    (hcreated : ∀ call ∈ calls, call.about.2 < h.count) :
    let h' := calls.foldl (fun h call => call.onHeap h) h
    h'.count = h.count ∧ h'.WellFormed ∧ Agrees (after calls) h' := by
  induction calls using List.reverseRecOn with
  | nil => exact ⟨rfl, hw, hstart⟩
  | append_singleton calls call ih =>
    obtain ⟨hcount, hw, ha⟩ := ih fun call hmem => hcreated call (List.mem_append_left _ hmem)
    have hc := hcreated call (by simp)
    rw [← hcount] at hc
    simp only [List.foldl_append, List.foldl_cons, List.foldl_nil, after_concat]
    generalize calls.foldl (fun h call => call.onHeap h) h = past at hcount hw ha hc
    cases call with
    | SetTag t c => exact ⟨count_SetTag.trans hcount, hw.SetTag hc, ha.SetTag hw⟩
    | RemoveTag t c => exact ⟨count_RemoveTag.trans hcount, hw.RemoveTag t, ha.RemoveTag⟩

/-- The components of a tag after some calls on a heap without tags. -/
theorem heap_listed_iff (hstart : Agrees start h) (hw : h.WellFormed)
    (hcreated : ∀ call ∈ calls, call.about.2 < h.count) :
    c ∈ (calls.foldl (fun h call => call.onHeap h) h).TagComponents t ↔
      .SetTag t c ∈ calls ∧ ¬ Withdrawn calls t c := by
  obtain ⟨_, _, ha⟩ := hstart.after hw calls hcreated
  rw [← ha.TagComponents, (kept_after calls t c).listed]

end Heaps

end Tags

end AsioGameServer.component
