import AsioGameServer.Lib.Transition
import Mathlib.Logic.Function.Basic

open Function Transition

namespace AsioGameServer.registry

/-- A `Component`. Components are referred to by where they are, and know their `id`. -/
structure Component where
  id : Nat
  parent : Option Nat
  children : List Nat
  tag : List String
  /-- `std::make_shared` has returned, so there is a pointer that is shared. -/
  shared : Bool

/-- A `std::map` from numbers to components. -/
abbrev IdMap := Nat → Option Nat

/-- `std::map::insert`, which leaves a key that is there alone. -/
def IdMap.insert (m : IdMap) (k c : Nat) : IdMap := if m k = none then update m k (some c) else m

/-- `std::map::erase`. -/
def IdMap.erase (m : IdMap) (k : Nat) : IdMap := update m k none

/-- All components that were allocated, and the statics `count`, `Components` and
`TagComponents`. -/
structure Registry where
  size : Nat
  get : Nat → Component
  count : Nat
  Components : IdMap
  TagComponents : String → Option IdMap

namespace Registry

/-- Nothing was allocated, and the statics are empty. -/
def start : Registry := ⟨0, fun _ => ⟨0, none, [], [], false⟩, 0, fun _ => none, fun _ => none⟩

/-- A change of the component at one place. -/
def onComponent (s : Registry) (c : Nat) (f : Component → Component) : Registry :=
  { s with get := update s.get c (f (s.get c)) }

/-- The constructor of `Component`, at the next place. -/
def construct (s : Registry) : Registry :=
  { s with
    size := s.size + 1
    get := update s.get s.size ⟨s.count, none, [], [], false⟩
    count := s.count + 1 }

/-- `std::make_shared` returns. -/
def make_shared (c : Nat) (s : Registry) : Registry := s.onComponent c ({ · with shared := true })

/-- `CreateComponent`, after `std::make_shared`. -/
def CreateComponent (c : Nat) (s : Registry) : Registry :=
  let s := (s.make_shared c).onComponent c ({ · with id := s.count })
  { s with Components := s.Components.insert s.count c, count := s.count + 1 }

/-- `Component::Attach`. Only a component without a parent is attached. -/
def Attach (p c : Nat) (s : Registry) : Registry :=
  if (s.get c).parent = none then
    (s.onComponent c ({ · with parent := some p })).onComponent p fun k => { k with children := k.children ++ [c] }
  else s

/-- `Component::Detach`, which does nothing to a component that is no child. -/
def Detach (p c : Nat) (s : Registry) : Registry :=
  if c ∈ (s.get p).children then
    (s.onComponent c ({ · with parent := none })).onComponent p fun k => { k with children := k.children.erase c }
  else s

/-- `Component::SetTag`, with the map that a tag gets when it is set for the first time. -/
def SetTag (tag : String) (c : Nat) (s : Registry) : Registry :=
  if tag ∈ (s.get c).tag then s
  else
    let s := s.onComponent c fun k => { k with tag := k.tag ++ [tag] }
    match s.TagComponents tag with
    | some result => { s with TagComponents := update s.TagComponents tag (some (result.insert (s.get c).id c)) }
    | none =>
      let newMap : IdMap := fun _ => none
      { s with TagComponents := update s.TagComponents tag (some (newMap.insert (s.get c).id c)) }

/-- `Component::RemoveTag`, which looks the entry up under the number of the component. The
component itself keeps the tag. -/
def RemoveTag (c : Nat) (s : Registry) (tag : String) : Registry :=
  if tag ∈ (s.get c).tag then
    match s.TagComponents tag with
    | some tagresult => { s with TagComponents := update s.TagComponents tag (some (tagresult.erase (s.get c).id)) }
    | none => s
  else s

/-- `Component::Remove`: off the parent and the map of the components, and then, with or without a
parent, off the maps of the tags. -/
def Remove (c : Nat) (s : Registry) : Registry :=
  let s := match (s.get c).parent with
    | some parent =>
      let s := s.Detach parent c
      { s with Components := s.Components.erase (s.get c).id }
    | none => s
  (s.get c).tag.foldl (RemoveTag c) s

/-- A constructor is called, `std::make_shared` returns to another caller or to
`CreateComponent`, and a function is called. What happens between the first two is what the
rest of the constructor does. -/
inductive Event where
  | construct
  | make_shared (c : Nat)
  | CreateComponent (c : Nat)
  | Attach (p c : Nat)
  | Detach (p c : Nat)
  | SetTag (tag : String) (c : Nat)
  | RemoveTag (tag : String) (c : Nat)
  | Remove (c : Nat)
deriving DecidableEq, Repr

/-- A component that was allocated, and whose pointer is shared. `shared_from_this` throws for
any other. -/
def isShared (s : Registry) (c : Nat) : Prop := c < s.size ∧ (s.get c).shared = true

instance (s : Registry) (c : Nat) : Decidable (s.isShared c) := inferInstanceAs (Decidable (_ ∧ _))

/-- A component whose constructor has not returned. -/
def isPending (s : Registry) (c : Nat) : Prop := c < s.size ∧ (s.get c).shared = false

instance (s : Registry) (c : Nat) : Decidable (s.isPending c) := inferInstanceAs (Decidable (_ ∧ _))

/-- What an event leads to, where it can happen. -/
def next (s : Registry) : Event → Option Registry
  | .construct => some s.construct
  | .make_shared c => if s.isPending c then some (s.make_shared c) else none
  | .CreateComponent c => if s.isPending c then some (s.CreateComponent c) else none
  | .Attach p c => if s.isShared p ∧ s.isShared c then some (s.Attach p c) else none
  | .Detach p c => if s.isShared p ∧ s.isShared c then some (s.Detach p c) else none
  | .SetTag tag c => if s.isShared c then some (s.SetTag tag c) else none
  | .RemoveTag tag c => if c < s.size then some (s.RemoveTag c tag) else none
  | .Remove c => if s.isShared c then some (s.Remove c) else none

section Maps

variable {m : IdMap} {k k' c c' : Nat}

/-- An entry after an insertion is an old one or the one that was inserted. Where the key is
taken, it is an old one. -/
theorem IdMap.of_insert (h : m.insert k c k' = some c') : m k' = some c' ∨ k' = k ∧ c' = c := by
  unfold IdMap.insert at h
  split at h
  · by_cases hk : k' = k
    · subst hk
      rw [update_self] at h
      exact .inr ⟨rfl, (Option.some.inj h).symm⟩
    · rw [update_of_ne hk] at h
      exact .inl h
  · exact .inl h

/-- What is left after an erasure is what is under the other keys. -/
theorem IdMap.erase_eq_some_iff : m.erase k k' = some c' ↔ k' ≠ k ∧ m k' = some c' := by
  unfold IdMap.erase
  by_cases hk : k' = k
  · subst hk
    simp
  · simp [hk]

end Maps

/-- All maps of a registry: that of the components, and those of the tags. -/
def maps (s : Registry) : Option String → IdMap
  | none => s.Components
  | some tag => (s.TagComponents tag).getD fun _ => none

variable {s s' : Registry} {c d k : Nat} {tag : String} {which : Option String}

section Steps

/-- A step that gives no numbers. -/
structure Same (s s' : Registry) : Prop where
  size : s'.size = s.size
  count : s'.count = s.count
  id : ∀ c, (s'.get c).id = (s.get c).id
  shared : ∀ c, (s.get c).shared = true → (s'.get c).shared = true

theorem Same.refl (s : Registry) : Same s s := ⟨rfl, rfl, fun _ => rfl, fun _ h => h⟩

/-- Steps that give no numbers, one after the other. -/
theorem Same.trans {s'' : Registry} (h : Same s s') (h' : Same s' s'') : Same s s'' :=
  ⟨h'.size.trans h.size, h'.count.trans h.count, fun c => (h'.id c).trans (h.id c),
    fun c hc => h'.shared c (h.shared c hc)⟩

/-- A change of a component that does not touch its number and does not take it back from those it
is shared with. -/
theorem same_onComponent (s : Registry) (c : Nat) {f : Component → Component} (hid : ∀ k, (f k).id = k.id)
    (hshared : ∀ k, k.shared = true → (f k).shared = true) : Same s (s.onComponent c f) := by
  refine ⟨rfl, rfl, fun d => ?_, fun d hd => ?_⟩
  · by_cases hdc : d = c
    · subst hdc
      simp [onComponent, hid]
    · simp [onComponent, hdc]
  · by_cases hdc : d = c
    · subst hdc
      simp [onComponent, hshared, hd]
    · simp [onComponent, hdc, hd]

/-- Parents and children have nothing to do with numbers. -/
theorem same_Attach (p c : Nat) : Same s (s.Attach p c) := by
  unfold Attach
  split
  · have hfirst := same_onComponent s c (f := ({ · with parent := some p })) (fun _ => rfl) fun _ h => h
    have hsecond := same_onComponent (s.onComponent c ({ · with parent := some p })) p
      (f := fun k => { k with children := k.children ++ [c] }) (fun _ => rfl) fun _ h => h
    exact hfirst.trans hsecond
  · exact .refl s

/-- The same where a component is detached. -/
theorem same_Detach (p c : Nat) : Same s (s.Detach p c) := by
  unfold Detach
  split
  · have hfirst := same_onComponent s c (f := ({ · with parent := none })) (fun _ => rfl) fun _ h => h
    have hsecond := same_onComponent (s.onComponent c ({ · with parent := none })) p
      (f := fun k => { k with children := k.children.erase c }) (fun _ => rfl) fun _ h => h
    exact hfirst.trans hsecond
  · exact .refl s

/-- `Attach` enters nothing in a map. -/
theorem maps_Attach (p c : Nat) : (s.Attach p c).maps = s.maps := by
  unfold Attach
  split <;> rfl

/-- `Detach` takes nothing out of a map. -/
theorem maps_Detach (p c : Nat) : (s.Detach p c).maps = s.maps := by
  unfold Detach
  split <;> rfl

/-- A tag is set under the number that the component has already. -/
theorem same_SetTag (tag : String) (c : Nat) : Same s (s.SetTag tag c) := by
  have hsame := same_onComponent s c (f := fun k => { k with tag := k.tag ++ [tag] }) (fun _ => rfl) fun _ h => h
  unfold SetTag
  split
  · exact .refl s
  · dsimp only
    split <;> exact ⟨hsame.size, hsame.count, hsame.id, hsame.shared⟩

/-- A tag adds the component itself to the map of the tag, under its own number. -/
theorem maps_SetTag (h : (s.SetTag tag c).maps which k = some d) :
    s.maps which k = some d ∨ d = c ∧ k = (s.get c).id := by
  unfold SetTag at h
  split at h
  · exact .inl h
  · dsimp only at h
    have hid : ((s.onComponent c fun k => { k with tag := k.tag ++ [tag] }).get c).id = (s.get c).id := by
      simp [onComponent]
    rw [hid] at h
    cases which with
    | none =>
      split at h <;> exact .inl h
    | some t =>
      by_cases ht : t = tag
      · subst ht
        split at h
        · rename_i result hresult
          have hresult : s.TagComponents t = some result := hresult
          simp only [maps, update_self, Option.getD_some] at h
          obtain hold | ⟨hk, hd⟩ := IdMap.of_insert h
          · exact .inl (by simp [maps, hresult, hold])
          · exact .inr ⟨hd, hk⟩
        · simp only [maps, update_self, Option.getD_some] at h
          obtain hold | ⟨hk, hd⟩ := IdMap.of_insert h
          · cases hold
          · exact .inr ⟨hd, hk⟩
      · split at h
        · simp only [maps, update_of_ne ht] at h
          exact .inl h
        · simp only [maps, update_of_ne ht] at h
          exact .inl h

/-- The removal of a tag is about a map only. -/
theorem same_RemoveTag (c : Nat) (tag : String) : Same s (s.RemoveTag c tag) := by
  unfold RemoveTag
  split
  · split
    · exact ⟨rfl, rfl, fun _ => rfl, fun _ h => h⟩
    · exact .refl s
  · exact .refl s

/-- At most what is under the number of one component is erased from the maps. -/
structure Erases (c : Nat) (s s' : Registry) : Prop where
  same : Same s s'
  maps : ∀ which, s'.maps which = s.maps which ∨ s'.maps which = (s.maps which).erase (s.get c).id

/-- A step that leaves the maps alone erases nothing. -/
theorem Erases.of_maps (hsame : Same s s') (hmaps : s'.maps = s.maps) : Erases c s s' :=
  ⟨hsame, fun which => .inl (congrFun hmaps which)⟩

/-- Two steps that erase under the number of one component: the number is the same for both, and
an entry can be erased once only. -/
theorem Erases.trans {s'' : Registry} (h : Erases c s s') (h' : Erases c s' s'') : Erases c s s'' := by
  refine ⟨h.same.trans h'.same, fun which => ?_⟩
  have htwice : ∀ m : IdMap, (m.erase (s.get c).id).erase (s.get c).id = m.erase (s.get c).id :=
    fun m => update_idem _ _ _
  obtain hsame | herase := h.maps which
  · obtain hsame' | herase' := h'.maps which
    · exact .inl (hsame'.trans hsame)
    · rw [hsame, h.same.id] at herase'
      exact .inr herase'
  · obtain hsame' | herase' := h'.maps which
    · exact .inr (hsame'.trans herase)
    · rw [herase, h.same.id, htwice] at herase'
      exact .inr herase'

/-- `RemoveTag` erases under the number of its own component, in the map of one tag. -/
theorem erases_RemoveTag (c : Nat) (tag : String) : Erases c s (s.RemoveTag c tag) := by
  refine ⟨same_RemoveTag c tag, fun which => ?_⟩
  unfold RemoveTag
  split
  · split
    · rename_i tagresult hresult
      cases which with
      | none => exact .inl rfl
      | some t =>
        by_cases ht : t = tag
        · subst ht
          exact .inr (by simp [Registry.maps, hresult])
        · exact .inl (by simp [Registry.maps, ht])
    · exact .inl rfl
  · exact .inl rfl

/-- The loop of `Remove` over the tags, by induction on them. -/
theorem erases_foldl (c : Nat) (tags : List String) : Erases c s (tags.foldl (RemoveTag c) s) := by
  induction tags generalizing s with
  | nil => exact .of_maps (.refl s) rfl
  | cons tag tags ih => exact (erases_RemoveTag c tag).trans ih

/-- `Remove` erases under the number of its own component, in the map of the components and in
those of its tags. -/
theorem erases_Remove (c : Nat) : Erases c s (s.Remove c) := by
  unfold Remove
  cases (s.get c).parent with
  | none => exact erases_foldl c _
  | some parent =>
    dsimp only
    have hdetach : Same s (s.Detach parent c) := same_Detach parent c
    have hfirst : Erases c s { s.Detach parent c with
        Components := (s.Detach parent c).Components.erase ((s.Detach parent c).get c).id } := by
      refine ⟨⟨hdetach.size, hdetach.count, hdetach.id, hdetach.shared⟩, fun which => ?_⟩
      have hmaps := congrFun (maps_Detach (s := s) parent c) which
      cases which with
      | none =>
        have hcomponents : (s.Detach parent c).Components = s.Components := hmaps
        refine .inr ?_
        change (s.Detach parent c).Components.erase ((s.Detach parent c).get c).id = s.Components.erase (s.get c).id
        rw [hcomponents, hdetach.id]
      | some t => exact .inl hmaps
    exact hfirst.trans (erases_foldl c _)

end Steps

section Runs

/-- All numbers are different and were given out, and what a map has under a number is the
component with this number. -/
structure Exact (s : Registry) : Prop where
  id_lt : ∀ c < s.size, (s.get c).id < s.count
  id_inj : ∀ c < s.size, ∀ d < s.size, (s.get c).id = (s.get d).id → c = d
  entry : ∀ which k c, s.maps which k = some c → s.isShared c ∧ (s.get c).id = k

/-- Before the first constructor there is no number to be wrong. -/
theorem exact_start : start.Exact := by
  refine ⟨fun c hc => absurd hc (Nat.not_lt_zero c), fun c hc => absurd hc (Nat.not_lt_zero c), fun which k c h => ?_⟩
  cases which with
  | none => cases h
  | some _ => cases h

/-- A step that gives no number, and adds a component to a map at most under its own. -/
theorem Exact.of_same (h : s.Exact) (hsame : Same s s') (hmaps : ∀ which k d, s'.maps which k = some d →
    s.maps which k = some d ∨ s.isShared d ∧ (s.get d).id = k) : s'.Exact := by
  refine ⟨fun c hc => ?_, fun c hc d hd hid => ?_, fun which k d hd => ?_⟩
  · rw [hsame.id, hsame.count]
    exact h.id_lt c (hsame.size ▸ hc)
  · rw [hsame.id, hsame.id] at hid
    exact h.id_inj c (hsame.size ▸ hc) d (hsame.size ▸ hd) hid
  · have hentry : s.isShared d ∧ (s.get d).id = k := by
      obtain hold | hnew := hmaps which k d hd
      · exact h.entry which k d hold
      · exact hnew
    obtain ⟨⟨hlt, hshared⟩, hid⟩ := hentry
    exact ⟨⟨hsame.size ▸ hlt, hsame.shared d hshared⟩, (hsame.id d).trans hid⟩

/-- A new component gets a number that is larger than all others, and is in no map. -/
theorem Exact.construct (h : s.Exact) : s.construct.Exact := by
  have hget : ∀ c, (s.construct.get c).id = if c = s.size then s.count else (s.get c).id := by
    intro c
    by_cases hc : c = s.size
    · subst hc
      simp [Registry.construct]
    · simp [Registry.construct, hc]
  refine ⟨fun c hc => ?_, fun c hc d hd hid => ?_, fun which k c hk => ?_⟩
  · have hc : c < s.size + 1 := hc
    change (s.construct.get c).id < s.count + 1
    rw [hget]
    split
    · omega
    · have hlt := h.id_lt c (by omega)
      omega
  · have hc : c < s.size + 1 := hc
    have hd : d < s.size + 1 := hd
    rw [hget, hget] at hid
    split at hid <;> split at hid
    · omega
    · have hlt := h.id_lt d (by omega)
      omega
    · have hlt := h.id_lt c (by omega)
      omega
    · exact h.id_inj c (by omega) d (by omega) hid
  · obtain ⟨⟨hlt, hshared⟩, hid⟩ := h.entry which k c hk
    have hne : c ≠ s.size := Nat.ne_of_lt hlt
    refine ⟨⟨Nat.lt_succ_of_lt hlt, ?_⟩, ?_⟩
    · simp [Registry.construct, hne, hshared]
    · rw [hget, if_neg hne, hid]

/-- What `CreateComponent` does to the components: one is shared and has its second number. -/
theorem get_CreateComponent (s : Registry) (c d : Nat) :
    (s.CreateComponent c).get d = if d = c then { s.get c with shared := true, id := s.count } else s.get d := by
  by_cases hd : d = c
  · subst hd
    simp [CreateComponent, make_shared, onComponent]
  · simp [CreateComponent, make_shared, onComponent, hd]

/-- The second number of a component is larger than all others, too. The first one is never given
out again, and no map has an entry under it because the component was not shared. -/
theorem Exact.CreateComponent (h : s.Exact) (hpending : s.isPending c) : (s.CreateComponent c).Exact := by
  have hgetId : ∀ d, ((s.CreateComponent c).get d).id = if d = c then s.count else (s.get d).id := by
    intro d
    rw [get_CreateComponent]
    split <;> rfl
  obtain ⟨hc, hnot⟩ := hpending
  refine ⟨fun d hd => ?_, fun d hd e he hid => ?_, fun which k d hk => ?_⟩
  · change ((s.CreateComponent c).get d).id < s.count + 1
    rw [hgetId]
    split
    · exact Nat.lt_succ_self _
    · exact Nat.lt_succ_of_lt (h.id_lt d hd)
  · have hd : d < s.size := hd
    have he : e < s.size := he
    have hdlt := h.id_lt d hd
    have helt := h.id_lt e he
    rw [hgetId, hgetId] at hid
    split at hid <;> split at hid
    · omega
    · omega
    · omega
    · exact h.id_inj d hd e he hid
  · have hentry : s.maps which k = some d ∨ k = s.count ∧ d = c := by
      cases which with
      | none => exact IdMap.of_insert hk
      | some _ => exact .inl hk
    obtain hold | ⟨rfl, rfl⟩ := hentry
    · obtain ⟨⟨hlt, hshared⟩, hid⟩ := h.entry which k d hold
      have hne : d ≠ c := by
        rintro rfl
        rw [hnot] at hshared
        cases hshared
      unfold isShared
      rw [get_CreateComponent, if_neg hne]
      exact ⟨⟨hlt, hshared⟩, hid⟩
    · unfold isShared
      rw [get_CreateComponent, if_pos rfl]
      exact ⟨⟨hc, rfl⟩, rfl⟩

/-- What an event does to the numbers: none is given out, a new component gets one, or
`CreateComponent` gives another one to a component whose constructor has just returned. -/
theorem next_spec {event : Event} (hnext : s.next event = some s') :
    (Same s s' ∧ ∀ which k d, s'.maps which k = some d → s.maps which k = some d ∨ s.isShared d ∧ (s.get d).id = k) ∨
      event = .construct ∧ s' = s.construct ∨
      ∃ c, event = .CreateComponent c ∧ s.isPending c ∧ s' = s.CreateComponent c := by
  have hkept : ∀ {s' : Registry}, s'.maps = s.maps → ∀ which k d, s'.maps which k = some d →
      s.maps which k = some d ∨ s.isShared d ∧ (s.get d).id = k :=
    fun hmaps which k d hd => .inl (hmaps ▸ hd)
  have herased : ∀ {s' : Registry} {c : Nat}, Erases c s s' → ∀ which k d, s'.maps which k = some d →
      s.maps which k = some d ∨ s.isShared d ∧ (s.get d).id = k := by
    intro s' c herases which k d hd
    obtain hsame | herase := herases.maps which
    · exact .inl (hsame ▸ hd)
    · rw [herase, IdMap.erase_eq_some_iff] at hd
      exact .inl hd.2
  cases event with
  | construct =>
    cases hnext
    exact .inr (.inl ⟨rfl, rfl⟩)
  | make_shared c =>
    obtain ⟨_, ⟨⟩⟩ := Option.ite_none_right_eq_some.mp hnext
    exact .inl ⟨same_onComponent s c (fun _ => rfl) (fun _ _ => rfl), hkept rfl⟩
  | CreateComponent c =>
    obtain ⟨hpending, ⟨⟩⟩ := Option.ite_none_right_eq_some.mp hnext
    exact .inr (.inr ⟨c, rfl, hpending, rfl⟩)
  | Attach p c =>
    obtain ⟨_, ⟨⟩⟩ := Option.ite_none_right_eq_some.mp hnext
    exact .inl ⟨same_Attach p c, hkept (maps_Attach p c)⟩
  | Detach p c =>
    obtain ⟨_, ⟨⟩⟩ := Option.ite_none_right_eq_some.mp hnext
    exact .inl ⟨same_Detach p c, hkept (maps_Detach p c)⟩
  | SetTag tag c =>
    obtain ⟨hshared, ⟨⟩⟩ := Option.ite_none_right_eq_some.mp hnext
    refine .inl ⟨same_SetTag tag c, fun which k d hd => (maps_SetTag hd).imp_right ?_⟩
    rintro ⟨rfl, rfl⟩
    exact ⟨hshared, rfl⟩
  | RemoveTag tag c =>
    obtain ⟨_, ⟨⟩⟩ := Option.ite_none_right_eq_some.mp hnext
    exact .inl ⟨same_RemoveTag c tag, herased (erases_RemoveTag c tag)⟩
  | Remove c =>
    obtain ⟨_, ⟨⟩⟩ := Option.ite_none_right_eq_some.mp hnext
    exact .inl ⟨(erases_Remove c).same, herased (erases_Remove c)⟩

/-- Every event keeps the numbers exact, by what it does to them. -/
theorem Exact.next {event : Event} (h : s.Exact) (hnext : s.next event = some s') : s'.Exact := by
  obtain ⟨hsame, hmaps⟩ | ⟨_, rfl⟩ | ⟨c, _, hpending, rfl⟩ := next_spec hnext
  · exact h.of_same hsame hmaps
  · exact h.construct
  · exact h.CreateComponent hpending

variable {events events' : List Event}

/-- The numbers are exact in every state that a run reaches. -/
theorem exact_of_run (hrun : Run (OfOption next) start events s) : s.Exact :=
  hrun.invariant exact_start fun _ _ _ h hnext => h.next hnext

/-- What later numbers are: those of components that are known, and numbers that were not
given out. -/
structure Later (s s' : Registry) : Prop where
  size : s.size ≤ s'.size
  count : s.count ≤ s'.count
  id : ∀ c < s'.size, c < s.size ∧ (s'.get c).id = (s.get c).id ∨ s.count ≤ (s'.get c).id
  shared : ∀ c, s.isShared c → s'.isShared c ∧ (s'.get c).id = (s.get c).id

/-- One more event gives at most a number that is new to the state in which the counting began. -/
theorem Later.next {s'' : Registry} {event : Event} (h : Later s s') (hnext : s'.next event = some s'') :
    Later s s'' := by
  obtain ⟨hsame, _⟩ | ⟨_, rfl⟩ | ⟨c, _, ⟨hc, hnot⟩, rfl⟩ := next_spec hnext
  · refine ⟨hsame.size ▸ h.size, hsame.count ▸ h.count, fun d hd => ?_, fun d hd => ?_⟩
    · rw [hsame.id]
      exact h.id d (hsame.size ▸ hd)
    · obtain ⟨⟨hlt, hshared⟩, hid⟩ := h.shared d hd
      exact ⟨⟨hsame.size ▸ hlt, hsame.shared d hshared⟩, (hsame.id d).trans hid⟩
  · refine ⟨Nat.le_succ_of_le h.size, Nat.le_succ_of_le h.count, fun d hd => ?_, fun d hd => ?_⟩
    · have hd : d < s'.size + 1 := hd
      by_cases hnew : d = s'.size
      · subst hnew
        refine .inr ?_
        simpa [construct] using h.count
      · have hsame : (s'.construct.get d).id = (s'.get d).id := by simp [construct, hnew]
        rw [hsame]
        exact h.id d (by omega)
    · obtain ⟨⟨hlt, hshared⟩, hid⟩ := h.shared d hd
      have hne : d ≠ s'.size := Nat.ne_of_lt hlt
      refine ⟨⟨Nat.lt_succ_of_lt hlt, ?_⟩, ?_⟩
      · simp [construct, hne, hshared]
      · simpa [construct, hne] using hid
  · have hget : ∀ d, d ≠ c → (s'.CreateComponent c).get d = s'.get d := by
      intro d hd
      rw [get_CreateComponent, if_neg hd]
    refine ⟨h.size, Nat.le_succ_of_le h.count, fun d hd => ?_, fun d hd => ?_⟩
    · by_cases hdc : d = c
      · subst hdc
        refine .inr ?_
        simpa [CreateComponent, make_shared, onComponent] using h.count
      · rw [hget d hdc]
        exact h.id d hd
    · obtain ⟨⟨hlt, hshared⟩, hid⟩ := h.shared d hd
      have hne : d ≠ c := by
        rintro rfl
        rw [hnot] at hshared
        cases hshared
      unfold isShared
      rw [hget d hne]
      exact ⟨⟨hlt, hshared⟩, hid⟩

/-- The same for whole runs, by induction on the events. -/
theorem later_of_run (hrun : Run (OfOption next) s events s') : Later s s' :=
  hrun.invariant ⟨Nat.le_refl _, Nat.le_refl _, fun _ hc => .inl ⟨hc, rfl⟩, fun _ hc => ⟨hc, rfl⟩⟩
    fun _ _ _ h hnext => h.next hnext

/-- What is under the number of a component is at most the component itself. -/
theorem Exact.kept (h : s.Exact) (herases : Erases c s s') (hentry : s.maps which k = some d) (hne : d ≠ c)
    (hc : c < s.size) : s'.maps which k = some d := by
  obtain hsame | herase := herases.maps which
  · rwa [hsame]
  · rw [herase, IdMap.erase_eq_some_iff]
    refine ⟨?_, hentry⟩
    rintro rfl
    obtain ⟨⟨hd, _⟩, hid⟩ := h.entry which _ d hentry
    exact hne (h.id_inj d hd c hc hid)

/-- The numbers of all components are different, and none is given out again. Every map has a
component under its number, and what is erased under the number of a component is not another
one. -/
theorem registry_exact (hrun : Run (OfOption next) start events s) :
    (∀ c < s.size, ∀ d < s.size, (s.get c).id = (s.get d).id → c = d) ∧
      (∀ k c, s.Components k = some c → (s.get c).id = k) ∧
      (∀ tag m k c, s.TagComponents tag = some m → m k = some c → (s.get c).id = k) ∧
      (∀ events' s', Run (OfOption next) s events' s' → ∀ c < s.size,
        (s.isShared c → (s'.get c).id = (s.get c).id) ∧ ∀ d < s'.size, (s'.get d).id = (s.get c).id → d = c) ∧
      ∀ event s' c, event = .Remove c ∨ (∃ tag, event = .RemoveTag tag c) → s.next event = some s' →
        (∀ k d, s.Components k = some d → d ≠ c → s'.Components k = some d) ∧
          ∀ tag m k d, s.TagComponents tag = some m → m k = some d → d ≠ c →
            ∃ m', s'.TagComponents tag = some m' ∧ m' k = some d := by
  have hexact := exact_of_run hrun
  refine ⟨hexact.id_inj, fun k c hk => (hexact.entry none k c hk).2, fun tag m k c hm hk => ?_,
    fun events' s' hrun' c hc => ⟨fun hshared => ((later_of_run hrun').shared c hshared).2, fun d hd hid => ?_⟩,
    fun event s' c hevent hnext => ?_⟩
  · exact (hexact.entry (some tag) k c (by simp [maps, hm, hk])).2
  · have hlt := hexact.id_lt c hc
    obtain ⟨hds, hsame⟩ | hnew := (later_of_run hrun').id d hd
    · exact hexact.id_inj d hds c hc (hsame.symm.trans hid)
    · omega
  · have herases : c < s.size ∧ Erases c s s' := by
      obtain rfl | ⟨tag, rfl⟩ := hevent
      · obtain ⟨hshared, ⟨⟩⟩ := Option.ite_none_right_eq_some.mp hnext
        exact ⟨hshared.1, erases_Remove c⟩
      · obtain ⟨hlt, ⟨⟩⟩ := Option.ite_none_right_eq_some.mp hnext
        exact ⟨hlt, erases_RemoveTag c tag⟩
    obtain ⟨hc, herases⟩ := herases
    refine ⟨fun k d (hk : s.maps none k = some d) hne => hexact.kept herases hk hne hc, fun tag m k d hm hk hne => ?_⟩
    have hbefore : s.maps (some tag) k = some d := by simp [maps, hm, hk]
    have hentry := hexact.kept herases hbefore hne hc
    cases hm' : s'.TagComponents tag with
    | none => simp [maps, hm'] at hentry
    | some m' => exact ⟨m', rfl, by simpa [maps, hm'] using hentry⟩

/-- The constructor of the first component makes another one with `std::make_shared`. -/
theorem registry_exact_nested :
    ∃ s s', Run (OfOption next) start [.construct, .construct, .make_shared 1, .CreateComponent 0, .Attach 0 1,
        .SetTag "Channel" 0, .SetTag "Channel" 1] s ∧ s.next (.Remove 1) = some s' ∧
      (s.get 0).id = 2 ∧ (s.get 1).id = 1 ∧ s.Components 2 = some 0 ∧ s'.Components 2 = some 0 ∧
      ∀ events s'', Run (OfOption next) s events s'' → (s''.get 1).id = 1 := by
  have hrun : ∃ s, Run (OfOption next) start [.construct, .construct, .make_shared 1, .CreateComponent 0, .Attach 0 1,
      .SetTag "Channel" 0, .SetTag "Channel" 1] s ∧ s.size = 2 ∧ (s.get 0).id = 2 ∧ (s.get 1).id = 1 ∧
      s.Components 2 = some 0 ∧ s.isShared 1 := by
    simp only [run_ofOption_iff]
    exact ⟨_, rfl, rfl, rfl, rfl, rfl, by decide⟩
  obtain ⟨s, hrun, hsize, hfirst, hsecond, hentry, hshared⟩ := hrun
  obtain ⟨_, _, _, hlater, herase⟩ := registry_exact hrun
  have hnext : s.next (.Remove 1) = some (s.Remove 1) := if_pos hshared
  refine ⟨s, _, hrun, hnext, hfirst, hsecond, hentry, (herase _ _ 1 (.inl rfl) hnext).1 2 0 hentry (by decide), ?_⟩
  intro events s'' hrun'
  exact ((hlater events s'' hrun' 1 (by omega)).1 hshared).trans hsecond

end Runs

end Registry

end AsioGameServer.registry
