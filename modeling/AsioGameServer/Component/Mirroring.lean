import AsioGameServer.Component.Registry
import AsioGameServer.Component.WellFormed

open Function Transition

namespace AsioGameServer.component

/-- What `Component::CreateComponent` does once the constructor has counted: the component gets
a second `id`, and is listed under it. -/
def Heap.register (h : Heap) : Heap := { h with count := h.count + 1, Components := h.Components ++ [h.count] }

/-- `CreateComponent` where the constructor makes no other component in between. -/
theorem Heap.CreateComponent_eq (h : Heap) : h.CreateComponent = h.construct.register := rfl

end AsioGameServer.component

namespace AsioGameServer.registry

open component (Heap)

/-- A component as the heap has it, where the others are referred to by their numbers. -/
def Component.under (number : Nat → Nat) (k : Component) : component.Component :=
  ⟨.Create, k.parent.map number, k.children.map number, k.tag⟩

/-- An element can be erased before or after the renaming of a list that keeps it apart from
the others. -/
theorem map_erase_of_inj {number : Nat → Nat} {c : Nat} {l : List Nat} (hinj : ∀ d ∈ l, number d = number c → d = c) :
    (l.erase c).map number = (l.map number).erase (number c) := by
  induction l with
  | nil => rfl
  | cons d l ih =>
    have hrest := ih fun e he => hinj e (List.mem_cons_of_mem _ he)
    by_cases hd : d = c
    · simp [hd]
    · have hnumber : number d ≠ number c := fun heq => hd (hinj d List.mem_cons_self heq)
      simp [hd, hnumber, hrest]

/-- An element is in the renamed list under its own new name only. -/
theorem mem_map_of_inj {number : Nat → Nat} {c : Nat} {l : List Nat} (hinj : ∀ d ∈ l, number d = number c → d = c) :
    number c ∈ l.map number ↔ c ∈ l := by
  refine ⟨fun hmem => ?_, List.mem_map_of_mem⟩
  obtain ⟨d, hd, hnumber⟩ := List.mem_map.mp hmem
  exact hinj d hd hnumber ▸ hd

namespace Registry

variable {s s' : Registry} {h : Heap} {c d p : Nat} {tag : String}

/-- The `id` of the component at a place. -/
def number (s : Registry) (c : Nat) : Nat := (s.get c).id

theorem get_construct_self : s.construct.get s.size = ⟨s.count, none, [], [], false⟩ := update_self _ _ _

theorem get_construct_of_ne (hne : d ≠ s.size) : s.construct.get d = s.get d := update_of_ne hne _ _

/-- Nothing is shared and still under construction. -/
theorem ne_of_isPending (hc : s.isPending c) (hd : s.isShared d) : d ≠ c := by
  rintro rfl
  exact Bool.noConfusion (hc.2.symm.trans hd.2)

section Closed

/-- A component that is not shared yet was attached to nothing and tagged with nothing, and
parents and children are shared. -/
structure Closed (s : Registry) : Prop where
  blank : ∀ c, ¬ s.isShared c → (s.get c).parent = none ∧ (s.get c).children = [] ∧ (s.get c).tag = []
  parent : ∀ c p, (s.get c).parent = some p → s.isShared p
  children : ∀ c d, d ∈ (s.get c).children → s.isShared d

/-- Where nothing was allocated, nothing is attached. -/
theorem closed_start : start.Closed := by
  refine ⟨fun _ _ => ⟨rfl, rfl, rfl⟩, fun c p hparent => ?_, fun c d hd => ?_⟩
  · cases hparent
  · cases hd

/-- A step that gives no numbers leaves shared what is shared. -/
theorem Same.isShared (hsame : Same s s') (hc : s.isShared c) : s'.isShared c :=
  ⟨hsame.size ▸ hc.1, hsame.shared c hc.2⟩

/-- A change of a shared component that adds only shared parents and children. -/
theorem Closed.onComponent (hclosed : s.Closed) (hc : s.isShared c) {f : Component → Component}
    (hid : ∀ k, (f k).id = k.id) (hshared : ∀ k, (f k).shared = k.shared)
    (hparent : ∀ p, (f (s.get c)).parent = some p → s.isShared p)
    (hchildren : ∀ d ∈ (f (s.get c)).children, s.isShared d) : (s.onComponent c f).Closed := by
  have hsame : Same s (s.onComponent c f) := same_onComponent s c hid fun k hk => (hshared k).trans hk
  have hself : (s.onComponent c f).get c = f (s.get c) := by simp [Registry.onComponent]
  have hother : ∀ d, d ≠ c → (s.onComponent c f).get d = s.get d := fun d hd => by simp [Registry.onComponent, hd]
  refine ⟨fun d hd => ?_, fun d q hq => ?_, fun d e he => ?_⟩
  · have hne : d ≠ c := by
      rintro rfl
      exact hd (hsame.isShared hc)
    rw [hother d hne]
    exact hclosed.blank d fun hshared => hd (hsame.isShared hshared)
  · by_cases hd : d = c
    · rw [hd, hself] at hq
      exact hsame.isShared (hparent q hq)
    · rw [hother d hd] at hq
      exact hsame.isShared (hclosed.parent d q hq)
  · by_cases hd : d = c
    · rw [hd, hself] at he
      exact hsame.isShared (hchildren e he)
    · rw [hother d hd] at he
      exact hsame.isShared (hclosed.children d e he)

/-- Where only the maps change, nothing changes for the components. -/
theorem Closed.congr (hclosed : s.Closed) (hsize : s'.size = s.size) (hget : s'.get = s.get) : s'.Closed := by
  have hshared : ∀ c, s'.isShared c ↔ s.isShared c := fun c => by rw [isShared, isShared, hsize, hget]
  refine ⟨fun c hc => ?_, fun c p hparent => ?_, fun c d hd => ?_⟩
  · rw [hget]
    exact hclosed.blank c fun hs => hc ((hshared c).mpr hs)
  · rw [hget] at hparent
    exact (hshared p).mpr (hclosed.parent c p hparent)
  · rw [hget] at hd
    exact (hshared d).mpr (hclosed.children c d hd)

/-- What `std::make_shared` or `CreateComponent` returns is shared from then on. -/
theorem Closed.of_pending (hclosed : s.Closed) (hc : s.isPending c) (hsize : s'.size = s.size)
    (hother : ∀ d, d ≠ c → s'.get d = s.get d)
    (hself : (s'.get c).parent = (s.get c).parent ∧ (s'.get c).children = (s.get c).children ∧
      (s'.get c).shared = true) :
    s'.Closed := by
  have hshared : ∀ d, s.isShared d → s'.isShared d := fun d hd =>
    ⟨hsize ▸ hd.1, by rw [hother d (ne_of_isPending hc hd)]; exact hd.2⟩
  refine ⟨fun d hd => ?_, fun d p hparent => ?_, fun d e he => ?_⟩
  · have hne : d ≠ c := by
      rintro rfl
      exact hd ⟨hsize ▸ hc.1, hself.2.2⟩
    rw [hother d hne]
    exact hclosed.blank d fun hs => hd (hshared d hs)
  · refine hshared p (hclosed.parent d p ?_)
    by_cases hd : d = c
    · rwa [hd, hself.1, ← hd] at hparent
    · rwa [hother d hd] at hparent
  · refine hshared e (hclosed.children d e ?_)
    by_cases hd : d = c
    · rwa [hd, hself.2.1, ← hd] at he
    · rwa [hother d hd] at he

/-- A component that was just allocated stands alone. No other component refers to its place,
since that place was free. -/
theorem Closed.construct (hclosed : s.Closed) : s.construct.Closed := by
  have hshared : ∀ d, s.isShared d → s.construct.isShared d := fun d hd =>
    ⟨Nat.lt_succ_of_lt hd.1, by rw [get_construct_of_ne (Nat.ne_of_lt hd.1)]; exact hd.2⟩
  refine ⟨fun d hd => ?_, fun d p hparent => ?_, fun d e he => ?_⟩
  · by_cases hnew : d = s.size
    · rw [hnew, get_construct_self]
      exact ⟨rfl, rfl, rfl⟩
    · rw [get_construct_of_ne hnew]
      exact hclosed.blank d fun hs => hd (hshared d hs)
  · by_cases hnew : d = s.size
    · rw [hnew, get_construct_self] at hparent
      cases hparent
    · rw [get_construct_of_ne hnew] at hparent
      exact hshared p (hclosed.parent d p hparent)
  · by_cases hnew : d = s.size
    · rw [hnew, get_construct_self] at he
      cases he
    · rw [get_construct_of_ne hnew] at he
      exact hshared e (hclosed.children d e he)

/-- A component that is not shared yet looks like a new one, under whatever numbers. -/
theorem Closed.under_new (hclosed : s.Closed) (hc : ¬ s.isShared c) (number : Nat → Nat) :
    (s.get c).under number = .new := by
  obtain ⟨hparent, hchildren, htag⟩ := hclosed.blank c hc
  simp [Component.under, hparent, hchildren, htag, component.Component.new]

/-- Components are seen alike under numbers that agree on what is shared. -/
theorem Closed.under_congr (hclosed : s.Closed) {number number' : Nat → Nat}
    (hnumber : ∀ d, s.isShared d → number d = number' d) : (s.get c).under number = (s.get c).under number' := by
  have hparent : (s.get c).parent.map number = (s.get c).parent.map number' :=
    Option.map_congr fun p hp => hnumber p (hclosed.parent c p hp)
  have hchildren : (s.get c).children.map number = (s.get c).children.map number' :=
    List.map_congr_left fun d hd => hnumber d (hclosed.children c d hd)
  simp only [Component.under, hparent, hchildren]

end Closed

section Tags

/-- An insertion makes an entry under its key, whether or not it is the one that stays. -/
theorem isSome_insert {m : IdMap} {k k' : Nat} : (m.insert k c k').isSome ↔ (m k').isSome ∨ k' = k := by
  unfold IdMap.insert
  split
  · by_cases hk : k' = k
    · simp [hk]
    · simp [hk]
  · rename_i hsome
    refine ⟨.inl, ?_⟩
    rintro (hold | rfl)
    · exact hold
    · exact Option.isSome_iff_ne_none.mpr hsome

/-- An erasure leaves the entries under all other keys. -/
theorem isSome_erase {m : IdMap} {k k' : Nat} : (m.erase k k').isSome ↔ (m k').isSome ∧ k' ≠ k := by
  unfold IdMap.erase
  by_cases hk : k' = k
  · simp [hk]
  · simp [hk]

/-- A tag that is new to the component makes an entry in the map of the tag, whether or not the
tag had a map before. -/
theorem SetTag_new (hnew : tag ∉ (s.get c).tag) :
    s.SetTag tag c = { s.onComponent c fun k => { k with tag := k.tag ++ [tag] } with
      TagComponents := update s.TagComponents tag (some ((s.maps (some tag)).insert (s.number c) c)) } := by
  have hid : ((s.onComponent c fun k => { k with tag := k.tag ++ [tag] }).get c).id = s.number c := by
    simp [onComponent, number]
  unfold SetTag
  rw [if_neg hnew]
  dsimp only
  rw [hid]
  cases hmap : s.TagComponents tag with
  | none =>
    simp [maps, hmap, onComponent]
  | some result =>
    simp [maps, hmap, onComponent]

/-- `RemoveTag` changes no component. -/
@[simp] theorem RemoveTag_get : (s.RemoveTag c tag).get = s.get := by
  unfold RemoveTag
  split
  · split <;> rfl
  · rfl

/-- What `RemoveTag` leaves in the maps, where a tag without a map counts as one without
entries. -/
theorem maps_RemoveTag (hhas : tag ∈ (s.get c).tag) :
    (s.RemoveTag c tag).maps = update s.maps (some tag) ((s.maps (some tag)).erase (s.number c)) := by
  rw [RemoveTag, if_pos hhas]
  funext which
  cases hmap : s.TagComponents tag with
  | none =>
    have hnone : (s.maps (some tag)).erase (s.number c) = s.maps (some tag) := by
      simp [maps, hmap, IdMap.erase]
    rw [hnone, update_eq_self]
  | some tagresult =>
    cases which with
    | none => rfl
    | some other =>
      by_cases hother : other = tag
      · subst hother
        simp [maps, hmap, number]
      · simp [maps, hother]

end Tags

section Mirrors

/-- The heap has every component of the registry under its number, nothing under the others,
and the same numbers in the map of the components and in those of the tags. -/
structure Mirrors (s : Registry) (h : Heap) : Prop where
  count : h.count = s.count
  get : ∀ c < s.size, h.get (s.number c) = (s.get c).under s.number
  fresh : ∀ k, (∀ c < s.size, s.number c ≠ k) → h.get k = .new
  Components : ∀ k, k ∈ h.Components ↔ (s.maps none k).isSome
  TagComponents : ∀ tag k, k ∈ h.TagComponents tag ↔ (s.maps (some tag) k).isSome

/-- What every step keeps: the numbers are exact, the components that are not shared stand
alone, and the heap mirrors the registry. -/
structure Tied (s : Registry) (h : Heap) : Prop extends Mirrors s h where
  exact : s.Exact
  closed : s.Closed

/-- The empty heap mirrors the empty registry. -/
theorem tied_start : Tied start Heap.start := by
  refine ⟨⟨rfl, fun c hc => absurd hc (Nat.not_lt_zero c), fun _ _ => rfl, fun k => ?_, fun tag k => ?_⟩,
    exact_start, closed_start⟩
  · simp [Heap.start, maps, start]
  · simp [Heap.start, maps, start]

namespace Tied

/-- Two places with one number are one place. All steps on the heap rest on this. -/
theorem inj (ht : Tied s h) (hc : c < s.size) (hd : d < s.size) (hnumber : s.number d = s.number c) : d = c :=
  ht.exact.id_inj d hd c hc hnumber

/-- A component that is shared changes in the registry as the one under its number does in the
heap. -/
theorem onComponent (ht : Tied s h) (hc : s.isShared c) {f : Component → Component}
    {g : component.Component → component.Component} (hid : ∀ k, (f k).id = k.id)
    (hshared : ∀ k, (f k).shared = k.shared) (hparent : ∀ p, (f (s.get c)).parent = some p → s.isShared p)
    (hchildren : ∀ d ∈ (f (s.get c)).children, s.isShared d)
    (hunder : (f (s.get c)).under s.number = g ((s.get c).under s.number)) :
    Tied (s.onComponent c f) (h.onComponent (s.number c) g) := by
  have hsame : Same s (s.onComponent c f) := same_onComponent s c hid fun k hk => (hshared k).trans hk
  have hnumber : (s.onComponent c f).number = s.number := funext hsame.id
  refine ⟨⟨ht.count, fun d hd => ?_, fun k hk => ?_, ht.Components, ht.TagComponents⟩,
    ht.exact.of_same hsame fun _ _ _ => .inl, ht.closed.onComponent hc hid hshared hparent hchildren⟩
  · rw [hnumber]
    by_cases hdc : d = c
    · subst hdc
      rw [Heap.onComponent_self, ht.get d hd, ← hunder]
      simp [Registry.onComponent]
    · rw [Heap.onComponent_of_ne fun heq => hdc (ht.inj hc.1 hd heq), ht.get d hd]
      simp [Registry.onComponent, hdc]
  · rw [hnumber] at hk
    rw [Heap.onComponent_of_ne (hk c hc.1).symm]
    exact ht.fresh k hk

/-- The maps change alone, by the same numbers on both sides. -/
theorem of_maps (ht : Tied s h) {h' : Heap} (hsize : s'.size = s.size) (hcount : s'.count = s.count)
    (hget : s'.get = s.get) (hcount' : h'.count = h.count) (hget' : h'.get = h.get)
    (hentry : ∀ which k d, s'.maps which k = some d → s.maps which k = some d ∨ s.isShared d ∧ (s.get d).id = k)
    (hComponents : ∀ k, k ∈ h'.Components ↔ (s'.maps none k).isSome)
    (hTagComponents : ∀ tag k, k ∈ h'.TagComponents tag ↔ (s'.maps (some tag) k).isSome) : Tied s' h' := by
  have hnumber : s'.number = s.number := funext fun c => by rw [number, number, hget]
  have hsame : Same s s' := ⟨hsize, hcount, fun c => by rw [hget], fun c hc => by rwa [hget]⟩
  refine ⟨⟨by rw [hcount', hcount, ht.count], fun d hd => ?_, fun k hk => ?_, hComponents, hTagComponents⟩,
    ht.exact.of_same hsame hentry, ht.closed.congr hsize hget⟩
  · rw [hget', hget, hnumber]
    exact ht.get d (hsize ▸ hd)
  · rw [hget']
    rw [hnumber, hsize] at hk
    exact ht.fresh k hk

/-- The heap attaches as the registry does: a component has a parent in both or in neither. -/
theorem Attach (ht : Tied s h) (hp : s.isShared p) (hc : s.isShared c) :
    Tied (s.Attach p c) (h.Attach (s.number p) (s.number c)) := by
  have hroot : (h.get (s.number c)).parent = none ↔ (s.get c).parent = none := by
    rw [ht.get c hc.1]
    exact Option.map_eq_none_iff
  unfold Registry.Attach Heap.Attach
  simp only [hroot]
  split
  · have hfirst : Tied (s.onComponent c ({ · with parent := some p }))
        (h.onComponent (s.number c) ({ · with parent := some (s.number p) })) := by
      refine ht.onComponent hc (fun _ => rfl) (fun _ => rfl) (fun q hq => ?_) (fun d hd => ?_) rfl
      · cases hq
        exact hp
      · exact ht.closed.children c d hd
    have hsame : Same s (s.onComponent c ({ · with parent := some p })) :=
      same_onComponent s c (fun _ => rfl) fun _ hk => hk
    have hnumber : (s.onComponent c ({ · with parent := some p })).number = s.number := funext hsame.id
    have hsecond := hfirst.onComponent (hsame.isShared hp) (f := fun k => { k with children := k.children ++ [c] })
      (g := fun k => { k with children := k.children ++ [s.number c] }) (fun _ => rfl) (fun _ => rfl)
      (fun q hq => hfirst.closed.parent p q hq) (fun d hd => ?_) ?_
    · rwa [hnumber] at hsecond
    · obtain hold | hnew := List.mem_append.mp hd
      · exact hfirst.closed.children p d hold
      · rw [List.mem_singleton.mp hnew]
        exact hsame.isShared hc
    · simp only [Component.under, List.map_append, List.map_cons, List.map_nil, hnumber]
  · exact ht

/-- The heap detaches as the registry does. The child is on the list of its parent under its
number, and what is erased there is the child itself since no other one has this number. -/
theorem Detach (ht : Tied s h) (hp : s.isShared p) (hc : s.isShared c) :
    Tied (s.Detach p c) (h.Detach (s.number p) (s.number c)) := by
  have hlisted : s.number c ∈ (h.get (s.number p)).children ↔ c ∈ (s.get p).children := by
    rw [ht.get p hp.1]
    exact mem_map_of_inj fun d hd => ht.inj hc.1 (ht.closed.children p d hd).1
  unfold Registry.Detach Heap.Detach
  simp only [hlisted]
  split
  · have hfirst : Tied (s.onComponent c ({ · with parent := none }))
        (h.onComponent (s.number c) ({ · with parent := none })) := by
      refine ht.onComponent hc (fun _ => rfl) (fun _ => rfl) (fun q hq => ?_) (fun d hd => ?_) rfl
      · cases hq
      · exact ht.closed.children c d hd
    have hsame : Same s (s.onComponent c ({ · with parent := none })) :=
      same_onComponent s c (fun _ => rfl) fun _ hk => hk
    have hnumber : (s.onComponent c ({ · with parent := none })).number = s.number := funext hsame.id
    rw [← congrFun hnumber p]
    refine hfirst.onComponent (hsame.isShared hp) (fun _ => rfl) (fun _ => rfl) (fun q hq => ?_) (fun d hd => ?_) ?_
    · exact hfirst.closed.parent p q hq
    · exact hfirst.closed.children p d (List.mem_of_mem_erase hd)
    · simp only [Component.under]
      rw [map_erase_of_inj fun d hd => hfirst.inj (hsame.isShared hc).1 (hfirst.closed.children p d hd).1, hnumber]
  · exact ht

/-- A component has the same tags in both. -/
theorem tag_eq (ht : Tied s h) (hc : c < s.size) : (h.get (s.number c)).tag = (s.get c).tag := by
  rw [ht.get c hc]
  rfl

/-- A tag is set in both or in neither, and its map gets the number of the component in both. -/
theorem SetTag (ht : Tied s h) (hc : s.isShared c) : Tied (s.SetTag tag c) (h.SetTag tag (s.number c)) := by
  by_cases hhas : tag ∈ (s.get c).tag
  · have hsame : s.SetTag tag c = s := if_pos hhas
    have hsame' : h.SetTag tag (s.number c) = h := if_pos (ht.tag_eq hc.1 ▸ hhas)
    rwa [hsame, hsame']
  · have hfirst : Tied (s.onComponent c fun k => { k with tag := k.tag ++ [tag] })
        (h.onComponent (s.number c) fun k => { k with tag := k.tag ++ [tag] }) :=
      ht.onComponent hc (fun _ => rfl) (fun _ => rfl) (fun q hq => ht.closed.parent c q hq)
        (fun d hd => ht.closed.children c d hd) rfl
    have hheap : h.SetTag tag (s.number c) = _ := if_neg (ht.tag_eq hc.1 ▸ hhas)
    rw [hheap]
    refine hfirst.of_maps ?_ ?_ ?_ rfl rfl (fun which k d hd => ?_) (fun k => ?_) fun other k => ?_
    · rw [SetTag_new hhas]
    · rw [SetTag_new hhas]
    · rw [SetTag_new hhas]
    · obtain hold | ⟨rfl, rfl⟩ := maps_SetTag hd
      · exact .inl hold
      · have hsame := same_onComponent s d (f := fun k => { k with tag := k.tag ++ [tag] }) (fun _ => rfl)
          fun _ hk => hk
        exact .inr ⟨hsame.isShared hc, hsame.id d⟩
    · rw [SetTag_new hhas]
      exact ht.Components k
    · rw [SetTag_new hhas]
      by_cases hother : other = tag
      · subst hother
        simp [maps, isSome_insert, ht.TagComponents]
      · simp [maps, hother, ht.TagComponents]

/-- A tag that has no map in the registry has no components in the heap, so that there is nothing
to take out. -/
theorem RemoveTag (ht : Tied s h) (hc : c < s.size) (tag : String) :
    Tied (s.RemoveTag c tag) (h.RemoveTag (s.number c) tag) := by
  by_cases hhas : tag ∈ (s.get c).tag
  · have hsame := same_RemoveTag (s := s) c tag
    have hmaps := maps_RemoveTag hhas
    have hheap : h.RemoveTag (s.number c) tag = _ := if_pos (ht.tag_eq hc ▸ hhas)
    rw [hheap]
    refine ht.of_maps hsame.size hsame.count RemoveTag_get rfl rfl (fun which k d hd => ?_) (fun k => ?_)
      fun other k => ?_
    · obtain hkept | herased := (erases_RemoveTag c tag).maps which
      · exact .inl (hkept ▸ hd)
      · rw [herased, IdMap.erase_eq_some_iff] at hd
        exact .inl hd.2
    · rw [hmaps]
      exact ht.Components k
    · rw [hmaps]
      by_cases hother : other = tag
      · subst hother
        simp [isSome_erase, ht.TagComponents]
      · simp [hother, ht.TagComponents]
  · have hsame : s.RemoveTag c tag = s := if_neg hhas
    have hsame' : h.RemoveTag (s.number c) tag = h := if_neg (ht.tag_eq hc ▸ hhas)
    rwa [hsame, hsame']

/-- The loop of `Remove` over the tags, by induction on them. The component keeps its number
meanwhile. -/
theorem foldl_RemoveTag (ht : Tied s h) (hc : c < s.size) (tags : List String) :
    Tied (tags.foldl (Registry.RemoveTag c) s) (tags.foldl (Heap.RemoveTag (s.number c)) h) := by
  induction tags generalizing s h with
  | nil => exact ht
  | cons tag tags ih =>
    have hsame := same_RemoveTag (s := s) c tag
    have hrest := ih (ht.RemoveTag hc tag) (hsame.size ▸ hc)
    rwa [show (s.RemoveTag c tag).number c = s.number c from hsame.id c] at hrest

/-- `Remove` in both: off the parent and the map of the components where there is a parent, and
then off the maps of the tags. -/
theorem Remove (ht : Tied s h) (hc : s.isShared c) : Tied (s.Remove c) (h.Remove (s.number c)) := by
  have hparent : (h.get (s.number c)).parent = (s.get c).parent.map s.number := by
    rw [ht.get c hc.1]
    rfl
  unfold Registry.Remove Heap.Remove
  cases hp : (s.get c).parent with
  | none =>
    rw [hp] at hparent
    simp only [hparent, Option.map_none, ht.tag_eq hc.1]
    exact ht.foldl_RemoveTag hc.1 _
  | some p =>
    rw [hp] at hparent
    have hdetach := ht.Detach (ht.closed.parent c p hp) hc
    have hsame := same_Detach (s := s) p c
    have hnumber : (s.Detach p c).number c = s.number c := hsame.id c
    have herased : Tied { s.Detach p c with Components := (s.Detach p c).Components.erase ((s.Detach p c).number c) }
        { h.Detach (s.number p) (s.number c) with Components := h.Components.filter (· ≠ s.number c) } := by
      refine hdetach.of_maps rfl rfl rfl rfl rfl (fun which k d hd => ?_) (fun k => ?_) hdetach.TagComponents
      · cases which with
        | none => exact .inl (IdMap.erase_eq_some_iff.mp hd).2
        | some _ => exact .inl hd
      · have hmaps : (s.Detach p c).Components = s.Components := congrFun (maps_Detach (s := s) p c) none
        have hmem : k ∈ h.Components ↔ (s.Components k).isSome := ht.Components k
        simp [maps, hmaps, hnumber, isSome_erase, hmem]
    have hrest := herased.foldl_RemoveTag (c := c) (hsame.size ▸ hc.1) ((s.Detach p c).get c).tag
    have htag := hdetach.tag_eq (c := c) (hsame.size ▸ hc.1)
    have hsame' : Registry.number { s.Detach p c with
        Components := (s.Detach p c).Components.erase ((s.Detach p c).number c) } c = s.number c := hnumber
    rw [hsame'] at hrest
    rw [hnumber] at htag
    simp only [hparent, Option.map_some, htag]
    exact hrest

/-- Nothing happens in the heap when `std::make_shared` returns: the component is there from its
constructor on. -/
theorem make_shared (ht : Tied s h) (hc : s.isPending c) : Tied (s.make_shared c) h := by
  have hsame : Same s (s.make_shared c) := same_onComponent s c (fun _ => rfl) fun _ _ => rfl
  have hnumber : (s.make_shared c).number = s.number := funext hsame.id
  have hother : ∀ d, d ≠ c → (s.make_shared c).get d = s.get d := fun d hd => by
    simp [Registry.make_shared, Registry.onComponent, hd]
  have hself : (s.make_shared c).get c = { s.get c with shared := true } := by
    simp [Registry.make_shared, Registry.onComponent]
  refine ⟨⟨ht.count, fun d hd => ?_, fun k hk => ht.fresh k (hnumber ▸ hk), ht.Components, ht.TagComponents⟩,
    ht.exact.of_same hsame fun _ _ _ => .inl, ht.closed.of_pending hc rfl hother (by rw [hself]; exact ⟨rfl, rfl, rfl⟩)⟩
  rw [hnumber, ht.get d hd]
  by_cases hdc : d = c
  · rw [hdc, hself]
    rfl
  · rw [hother d hdc]

/-- The heap has nothing under the next number. -/
theorem count_fresh (ht : Tied s h) : h.get s.count = .new :=
  ht.fresh s.count fun d hd => Nat.ne_of_lt (ht.exact.id_lt d hd)

/-- The constructor gives the next number, under which the heap has a new component already. -/
theorem construct (ht : Tied s h) : Tied s.construct h.construct := by
  have hnumber : ∀ d, d ≠ s.size → s.construct.number d = s.number d := fun d hd => by
    rw [number, get_construct_of_ne hd, number]
  refine ⟨⟨congrArg (· + 1) ht.count, fun d hd => ?_, fun k hk => ?_, ht.Components, ht.TagComponents⟩,
    ht.exact.construct, ht.closed.construct⟩
  · by_cases hnew : d = s.size
    · subst hnew
      rw [number, get_construct_self]
      exact ht.count_fresh
    · have hd : d < s.size + 1 := hd
      rw [hnumber d hnew, get_construct_of_ne hnew,
        ht.closed.under_congr fun e he => hnumber e (Nat.ne_of_lt he.1)]
      exact ht.get d (by omega)
  · refine ht.fresh k fun d hd => ?_
    rw [← hnumber d (Nat.ne_of_lt hd)]
    exact hk d (Nat.lt_succ_of_lt hd)

/-- The component moves from its first number to its second one. It is new under both, since
nothing can be attached to it before it is shared. -/
theorem CreateComponent (ht : Tied s h) (hc : s.isPending c) : Tied (s.CreateComponent c) h.register := by
  have hother : ∀ d, d ≠ c → (s.CreateComponent c).get d = s.get d := fun d hd => by
    rw [get_CreateComponent, if_neg hd]
  have hself : (s.CreateComponent c).get c = { s.get c with shared := true, id := s.count } := by
    rw [get_CreateComponent, if_pos rfl]
  have hnumber : ∀ d, d ≠ c → (s.CreateComponent c).number d = s.number d := fun d hd => by
    rw [number, hother d hd, number]
  have hunshared : ¬ s.isShared c := fun hs => ne_of_isPending hc hs rfl
  have hshared : ∀ d, s.isShared d → (s.CreateComponent c).number d = s.number d := fun d hd =>
    hnumber d (ne_of_isPending hc hd)
  refine ⟨⟨congrArg (· + 1) ht.count, fun d hd => ?_, fun k hk => ?_, fun k => ?_, ht.TagComponents⟩,
    ht.exact.CreateComponent hc, ht.closed.of_pending hc rfl hother (by rw [hself]; exact ⟨rfl, rfl, rfl⟩)⟩
  · by_cases hdc : d = c
    · subst hdc
      have hunder : ((s.CreateComponent d).get d).under (s.CreateComponent d).number = .new := by
        rw [hself]
        exact ht.closed.under_new hunshared _
      rw [hunder, show (s.CreateComponent d).number d = s.count from congrArg Component.id hself]
      exact ht.count_fresh
    · rw [hnumber d hdc, hother d hdc, ht.closed.under_congr hshared]
      exact ht.get d hd
  · by_cases hold : k = s.number c
    · rw [hold]
      exact (ht.get c hc.1).trans (ht.closed.under_new hunshared _)
    · refine ht.fresh k fun d hd => ?_
      by_cases hdc : d = c
      · rw [hdc]
        exact fun heq => hold heq.symm
      · rw [← hnumber d hdc]
        exact hk d hd
  · have hmem : k ∈ h.Components ↔ (s.Components k).isSome := ht.Components k
    change k ∈ h.Components ++ [h.count] ↔ ((s.Components.insert s.count c) k).isSome
    rw [isSome_insert, List.mem_append, List.mem_singleton, hmem, ht.count]

end Tied

/-- What an event does to the heap. A component is its number there, and is there from its
constructor on. -/
def Event.onHeap (s : Registry) : Event → Heap → Heap
  | .construct, h => h.construct
  | .make_shared _, h => h
  | .CreateComponent _, h => h.register
  | .Attach p c, h => h.Attach (s.number p) (s.number c)
  | .Detach p c, h => h.Detach (s.number p) (s.number c)
  | .SetTag tag c, h => h.SetTag tag (s.number c)
  | .RemoveTag tag c, h => h.RemoveTag (s.number c) tag
  | .Remove c, h => h.Remove (s.number c)

/-- An event happens in the registry, and in the heap under the numbers it has just then. -/
def nextBoth (both : Registry × Heap) (event : Event) : Option (Registry × Heap) :=
  (both.1.next event).map fun s => (s, event.onHeap both.1 both.2)

/-- Every event keeps the registry and the heap tied, by the lemma about its function. -/
theorem Tied.next (ht : Tied s h) {event : Event} (hnext : s.next event = some s') : Tied s' (event.onHeap s h) := by
  cases event with
  | construct =>
    cases hnext
    exact ht.construct
  | make_shared c =>
    obtain ⟨hc, ⟨⟩⟩ := Option.ite_none_right_eq_some.mp hnext
    exact ht.make_shared hc
  | CreateComponent c =>
    obtain ⟨hc, ⟨⟩⟩ := Option.ite_none_right_eq_some.mp hnext
    exact ht.CreateComponent hc
  | Attach p c =>
    obtain ⟨⟨hp, hc⟩, ⟨⟩⟩ := Option.ite_none_right_eq_some.mp hnext
    exact ht.Attach hp hc
  | Detach p c =>
    obtain ⟨⟨hp, hc⟩, ⟨⟩⟩ := Option.ite_none_right_eq_some.mp hnext
    exact ht.Detach hp hc
  | SetTag tag c =>
    obtain ⟨hc, ⟨⟩⟩ := Option.ite_none_right_eq_some.mp hnext
    exact ht.SetTag hc
  | RemoveTag tag c =>
    obtain ⟨hc, ⟨⟩⟩ := Option.ite_none_right_eq_some.mp hnext
    exact ht.RemoveTag hc tag
  | Remove c =>
    obtain ⟨hc, ⟨⟩⟩ := Option.ite_none_right_eq_some.mp hnext
    exact ht.Remove hc

/-- The heap follows every run of the registry, whatever constructors are nested in others, and
mirrors it in the end: what is proved of components by their numbers is about the components
at their places. -/
theorem mirrors_of_run {events : List Event} (hrun : Run (OfOption Registry.next) start events s) :
    ∃ h, Run (OfOption nextBoth) (start, Heap.start) events (s, h) ∧ Mirrors s h := by
  suffices hfollow : ∀ {s₀ h₀}, Tied s₀ h₀ → Run (OfOption Registry.next) s₀ events s →
      ∃ h, Run (OfOption nextBoth) (s₀, h₀) events (s, h) ∧ Mirrors s h from hfollow tied_start hrun
  clear hrun
  intro s₀ h₀ ht hrun
  induction hrun generalizing h₀ with
  | nil s => exact ⟨h₀, .nil _, ht.toMirrors⟩
  | @cons s₀ s₁ s event events hstep _ ih =>
    obtain ⟨h, hfollow, hmirrors⟩ := ih (ht.next hstep)
    have hboth : nextBoth (s₀, h₀) event = some (s₁, event.onHeap s₀ h₀) := by
      have hnext : s₀.next event = some s₁ := hstep
      rw [nextBoth, hnext]
      rfl
    exact ⟨h, .cons hboth hfollow, hmirrors⟩

end Mirrors

section Forests

/-- The parents and the lists of children, by places. -/
def family (s : Registry) : Family Nat := ⟨fun c => (s.get c).parent, fun c => (s.get c).children⟩

/-- `Attach` is called with a component that is neither the target nor above it. -/
def attachesApart (s : Registry) : Event → Prop
  | .Attach p c => ¬ s.family.Below p c
  | _ => True

namespace Tied

variable (ht : Tied s h)
include ht

theorem isShared_of_parent (hparent : s.family.parent c = some p) : s.isShared c ∧ s.isShared p := by
  refine ⟨by_contra fun hc => ?_, ht.closed.parent c p hparent⟩
  rw [show s.family.parent c = (s.get c).parent from rfl, (ht.closed.blank c hc).1] at hparent
  cases hparent

/-- A component has a parent in the registry where it has this parent's number in the heap. -/
theorem parent_eq (hc : c < s.size) : h.family.parent (s.number c) = (s.family.parent c).map s.number :=
  congrArg component.Component.parent (ht.get c hc)

theorem children_eq (hc : c < s.size) : h.family.children (s.number c) = (s.family.children c).map s.number :=
  congrArg component.Component.children (ht.get c hc)

/-- The way up from a component leads through the same components in the heap. -/
theorem under_lift {a b : Nat} (hunder : s.family.Under a b) : h.family.Under (s.number a) (s.number b) := by
  have hparent : s.family.parent a = some b := hunder
  rw [Family.Under, ht.parent_eq (ht.isShared_of_parent hparent).1.1, hparent, Option.map_some]

theorem below_of_heap {k : Nat} (hp : p < s.size) (hbelow : h.family.Below (s.number p) k) :
    ∃ c < s.size, s.number c = k ∧ s.family.Below p c := by
  induction hbelow with
  | refl => exact ⟨p, hp, rfl, .refl⟩
  | tail _ hunder ih =>
    obtain ⟨c, hc, rfl, hbelow⟩ := ih
    rw [Family.Under, ht.parent_eq hc, Option.map_eq_some_iff] at hunder
    obtain ⟨q, hparent, hnumber⟩ := hunder
    exact ⟨q, (ht.isShared_of_parent hparent).2.1, hnumber, hbelow.tail hparent⟩

/-- A forest in the heap is one in the registry. -/
theorem forest (hforest : h.family.Forest) : s.family.Forest := by
  refine ⟨fun p c => ⟨fun hchild => ?_, fun hparent => ?_⟩, fun p => ?_, fun c hcycle => ?_, ?_⟩
  · have hc := ht.closed.children p c hchild
    have hp : s.isShared p := by_contra fun hp => by
      rw [show s.family.children p = (s.get p).children from rfl, (ht.closed.blank p hp).2.1] at hchild
      cases hchild
    have hlisted : s.number c ∈ h.family.children (s.number p) := by
      rw [ht.children_eq hp.1]
      exact List.mem_map_of_mem hchild
    have hparent := (hforest.mem_children _ _).mp hlisted
    rw [ht.parent_eq hc.1, Option.map_eq_some_iff] at hparent
    obtain ⟨q, hq, hnumber⟩ := hparent
    rw [hq, ht.inj hp.1 (ht.isShared_of_parent hq).2.1 hnumber]
  · obtain ⟨_, hp⟩ := ht.isShared_of_parent hparent
    have hlisted := (hforest.mem_children _ _).mpr (ht.under_lift hparent)
    rw [ht.children_eq hp.1, mem_map_of_inj] at hlisted
    · exact hlisted
    · exact fun d hd => ht.inj (ht.isShared_of_parent hparent).1.1 (ht.closed.children p d hd).1
  · by_cases hp : s.isShared p
    · have hnodup := hforest.nodup (s.number p)
      rw [ht.children_eq hp.1] at hnodup
      exact hnodup.of_map
    · rw [show s.family.children p = (s.get p).children from rfl, (ht.closed.blank p hp).2.1]
      exact List.nodup_nil
  · exact hforest.acyclic _ (hcycle.lift s.number fun _ _ => ht.under_lift)
  · refine (Set.finite_lt_nat s.size).subset fun c hc => ?_
    obtain ⟨p, hparent⟩ := Option.ne_none_iff_exists'.mp hc
    exact (ht.isShared_of_parent hparent).1.1

/-- What the heap does meanwhile keeps it well formed, so that the lemmas about its functions
apply. -/
theorem onHeap_wellFormed (hw : h.WellFormed) {event : Event} (hapart : s.attachesApart event)
    (hnext : s.next event = some s') : (event.onHeap s h).WellFormed := by
  have hlt : ∀ c < s.size, s.number c < h.count := fun c hc => by
    rw [ht.count]
    exact ht.exact.id_lt c hc
  cases event with
  | construct => exact hw.construct
  | make_shared c => exact hw
  | CreateComponent c => exact hw.of_family rfl (Nat.le_succ _) (fun _ _ => rfl) hw.tagged
  | Attach p c =>
    obtain ⟨⟨hp, hc⟩, _⟩ := Option.ite_none_right_eq_some.mp hnext
    refine hw.Attach (hlt p hp.1) (hlt c hc.1) fun habove => ?_
    obtain ⟨d, hd, hnumber, hbelow⟩ := ht.below_of_heap hp.1 (hw.mem_ancestors_iff.mp habove)
    exact hapart (ht.inj hc.1 hd hnumber ▸ hbelow)
  | Detach p c => exact hw.Detach _ _
  | SetTag tag c =>
    obtain ⟨hc, _⟩ := Option.ite_none_right_eq_some.mp hnext
    exact hw.SetTag (hlt c hc.1)
  | RemoveTag tag c => exact hw.RemoveTag tag
  | Remove c =>
    obtain ⟨hc, _⟩ := Option.ite_none_right_eq_some.mp hnext
    rw [Event.onHeap, hw.Remove_eq]
    exact hw.removed (hlt c hc.1)

end Tied

/-- Some well-formed heap mirrors the registry, whichever of the runs that lead here it followed. -/
def Modelled (s : Registry) : Prop := ∃ h, Tied s h ∧ h.WellFormed

theorem modelled_start : start.Modelled := ⟨Heap.start, tied_start, .start⟩

theorem Modelled.next (hmodelled : s.Modelled) {event : Event} (hapart : s.attachesApart event)
    (hnext : s.next event = some s') : s'.Modelled := by
  obtain ⟨h, ht, hw⟩ := hmodelled
  exact ⟨event.onHeap s h, ht.next hnext, ht.onHeap_wellFormed hw hapart hnext⟩

/-- The components are a forest, wherever they were allocated and whatever constructors are
nested in others, in every run whose `Attach` calls are apart. The invariant is that of the heap
that follows the run. -/
theorem forest_of_run {events : List Event}
    (hrun : Run (Guarded attachesApart (OfOption Registry.next)) start events s) : s.family.Forest := by
  have hmodelled : s.Modelled := hrun.invariant modelled_start fun _ _ _ h hstep => h.next hstep.1 hstep.2
  obtain ⟨h, ht, hw⟩ := hmodelled
  exact ht.forest hw.forest

end Forests

end Registry

end AsioGameServer.registry
