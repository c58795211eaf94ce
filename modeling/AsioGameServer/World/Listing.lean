import Mathlib.Data.List.Perm.Basic
import AsioGameServer.Lib.Transition
import AsioGameServer.World.Lifecycle
import AsioGameServer.World.Shape

open Function Transition

namespace AsioGameServer.world

namespace MapInfo

variable {mapinfo : MapInfo}

theorem le_unusedFrom {used : List Int} {fuel : Nat} {channelNumber : Int} :
    channelNumber ≤ unusedFrom used fuel channelNumber := by
  induction fuel generalizing channelNumber with
  | zero => exact Int.le_refl _
  | succ fuel ih =>
    unfold unusedFrom
    split
    · exact Int.le_trans (by omega) ih
    · exact Int.le_refl _

theorem unusedNumber_pos (mapinfo : MapInfo) : 0 < mapinfo.unusedNumber := by
  have hle : 1 ≤ mapinfo.unusedNumber := le_unusedFrom
  omega

theorem insertChannel_perm (number : Int) (channel : Nat) (entries : List (Int × Nat)) :
    (insertChannel number channel entries).Perm ((number, channel) :: entries) := by
  induction entries with
  | nil => exact .refl _
  | cons entry rest ih =>
    unfold insertChannel
    split
    · exact .refl _
    · exact (ih.cons entry).trans (.swap _ _ _)

end MapInfo

namespace Game

variable {τ : Type} {g g' : Game τ} {w w' : World} {entries : List (Int × Nat)}
  {components : Nat → Component τ} {id : Nat} {mapKey : Int} {mapinfo : MapInfo}

/-- The entries of the maps are live channels, each under the number and the map it was
opened with. A channel has a manager once it is alive, and only a destroyed one was
released. -/
structure Listed (g : Game τ) : Prop where
  coded : ∀ mapKey mapinfo, g.now.maps mapKey = some mapinfo → mapinfo.mapCode = mapKey
  once : ∀ mapKey mapinfo, g.now.maps mapKey = some mapinfo → (mapinfo.channels.map Prod.fst).Nodup
  entries : ∀ mapKey mapinfo entry, g.now.maps mapKey = some mapinfo → entry ∈ mapinfo.channels →
    0 < entry.1 ∧ (g.components entry.2).state ≠ .Destroy ∧
      ∃ begun, g.now.labels[entry.2]? = some (mapKey, entry.1, begun)
  begun : ∀ id mapCode number begun, g.now.labels[id]? = some (mapCode, number, begun) →
    (g.components id).state ≠ .Destroy → (begun = true ↔ (g.components id).state = .Alive)
  destroyed : ∀ id, (g.components id).released = true → (g.components id).state = .Destroy
  fresh : ∀ id, g.now.labels[id]? = none → (g.components id).state = .Create

/-- No two entries of a map are the same channel. -/
theorem Listed.ids_once (h : g.Listed) (hmap : g.now.maps mapKey = some mapinfo) :
    (mapinfo.channels.map Prod.snd).Nodup := by
  have hkeys := List.pairwise_map.mp (h.once mapKey mapinfo hmap)
  refine List.pairwise_map.mpr (hkeys.imp_of_mem fun {a b} ha hb hne hsame => hne ?_)
  obtain ⟨_, _, first, hfirst⟩ := h.entries mapKey mapinfo a hmap ha
  obtain ⟨_, _, second, hsecond⟩ := h.entries mapKey mapinfo b hmap hb
  rw [hsame, hsecond] at hfirst
  simp only [Option.some.injEq, Prod.mk.injEq] at hfirst
  exact hfirst.2.1.symm

theorem Listed.sameShape (h : g.Listed) (hshape : g.now.SameShape w) : Listed { g with now := w } := by
  obtain ⟨hmaps, hlabels⟩ := hshape
  constructor
  · simpa only [hmaps] using h.coded
  · simpa only [hmaps] using h.once
  · simpa only [hmaps, hlabels] using h.entries
  · simpa only [hlabels] using h.begun
  · exact h.destroyed
  · simpa only [hlabels] using h.fresh

theorem Listed.openChannel (h : g.Listed) (hmap : g.now.maps mapKey = some mapinfo) :
    Listed { g with now := g.now.openChannel mapKey mapinfo mapinfo.unusedNumber } := by
  have hlength : g.now.labels.length = g.now.channels.length := List.length_map _
  have hcode := h.coded mapKey mapinfo hmap
  have hnew : (g.components g.now.channels.length).state = .Create :=
    h.fresh _ (List.getElem?_eq_none (Nat.le_of_eq hlength))
  have hkeep : ∀ (id : Nat) label, g.now.labels[id]? = some label →
      (g.now.openChannel mapKey mapinfo mapinfo.unusedNumber).labels[id]? = some label := by
    intro id label hlabel
    rw [World.labels_openChannel, List.getElem?_append_left (List.getElem?_eq_some_iff.mp hlabel).1, hlabel]
  have hold : ∀ key found, (g.now.openChannel mapKey mapinfo mapinfo.unusedNumber).maps key = some found →
      key ≠ mapKey ∧ g.now.maps key = some found ∨ key = mapKey ∧ found = { mapinfo with
        channels := MapInfo.insertChannel mapinfo.unusedNumber g.now.channels.length mapinfo.channels } := by
    intro key found hfound
    by_cases hkey : key = mapKey
    · refine .inr ⟨hkey, ?_⟩
      simpa [World.openChannel, hkey] using hfound.symm
    · exact .inl ⟨hkey, by simpa [World.openChannel, hkey] using hfound⟩
  have hperm := MapInfo.insertChannel_perm mapinfo.unusedNumber g.now.channels.length mapinfo.channels
  constructor
  · intro key found hfound
    obtain ⟨_, hfound⟩ | ⟨rfl, rfl⟩ := hold key found hfound
    · exact h.coded key found hfound
    · exact hcode
  · intro key found hfound
    obtain ⟨_, hfound⟩ | ⟨rfl, rfl⟩ := hold key found hfound
    · exact h.once key found hfound
    · rw [(hperm.map Prod.fst).nodup_iff, List.map_cons, List.nodup_cons]
      exact ⟨mapinfo.unusedNumber_not_mem, h.once key mapinfo hmap⟩
  · intro key found entry hfound hentry
    obtain ⟨_, hfound⟩ | ⟨rfl, rfl⟩ := hold key found hfound
    · obtain ⟨hpos, hstate, begun, hlabel⟩ := h.entries key found entry hfound hentry
      exact ⟨hpos, hstate, begun, hkeep _ _ hlabel⟩
    · obtain rfl | hentry := List.mem_cons.mp (hperm.mem_iff.mp hentry)
      · refine ⟨mapinfo.unusedNumber_pos, by simp [hnew], false, ?_⟩
        rw [World.labels_openChannel, ← hlength, List.getElem?_concat_length, hcode]
      · obtain ⟨hpos, hstate, begun, hlabel⟩ := h.entries key mapinfo entry hmap hentry
        exact ⟨hpos, hstate, begun, hkeep _ _ hlabel⟩
  · intro id mapCode number begun hlabel hstate
    rw [World.labels_openChannel] at hlabel
    by_cases hlt : id < g.now.labels.length
    · rw [List.getElem?_append_left hlt] at hlabel
      exact h.begun id mapCode number begun hlabel hstate
    · have hcreate : (g.components id).state = .Create := h.fresh id (List.getElem?_eq_none (by omega))
      rw [List.getElem?_append_right (by omega), List.getElem?_singleton] at hlabel
      obtain ⟨_, hlabel⟩ := Option.ite_none_right_eq_some.mp hlabel
      simp only [Option.some.injEq, Prod.mk.injEq] at hlabel
      simp [← hlabel.2.2, hcreate]
  · exact h.destroyed
  · intro id hnone
    rw [World.labels_openChannel, List.getElem?_eq_none_iff, List.length_append] at hnone
    exact h.fresh id (List.getElem?_eq_none (by omega))

/-- A request leaves the entries in order, also where it opens a channel. -/
theorem Listed.opened (h : g.Listed) (hopened : g.now.Opened w) : Listed { g with now := w } := by
  obtain hsame | ⟨key, mapinfo, hmap, hsame⟩ := hopened
  · exact h.sameShape hsame
  · exact (h.openChannel hmap).sameShape hsame

/-- A channel begins or is removed: its component and its manager change. -/
theorem Listed.change (h : g.Listed) (hmaps : w.maps = g.now.maps)
    (hothers : ∀ other, other ≠ id → w.labels[other]? = g.now.labels[other]?) {key number : Int}
    {before after : Bool} (hbefore : g.now.labels[id]? = some (key, number, before))
    (hafter : w.labels[id]? = some (key, number, after)) {c : Component τ}
    (hkept : c.state = .Destroy → (g.components id).state = .Destroy)
    (hbegun : c.state ≠ .Destroy → (after = true ↔ c.state = .Alive))
    (hreleased : c.released = true → c.state = .Destroy) :
    Listed ⟨w, update g.components id c⟩ := by
  constructor
  · simpa only [hmaps] using h.coded
  · simpa only [hmaps] using h.once
  · intro mapKey mapinfo entry hmap hentry
    dsimp only at hmap ⊢
    rw [hmaps] at hmap
    obtain ⟨hpos, hstate, begun, hlabel⟩ := h.entries mapKey mapinfo entry hmap hentry
    by_cases hid : entry.2 = id
    · rw [hid] at hstate hlabel ⊢
      rw [hbefore] at hlabel
      simp only [Option.some.injEq, Prod.mk.injEq] at hlabel
      obtain ⟨rfl, rfl, -⟩ := hlabel
      rw [update_self]
      exact ⟨hpos, fun hdestroyed => hstate (hkept hdestroyed), after, hafter⟩
    · rw [update_of_ne hid, hothers _ hid]
      exact ⟨hpos, hstate, begun, hlabel⟩
  · intro other mapCode found begun hlabel hstate
    dsimp only at hlabel hstate ⊢
    by_cases hid : other = id
    · subst hid
      rw [hafter] at hlabel
      simp only [Option.some.injEq, Prod.mk.injEq] at hlabel
      rw [update_self] at hstate ⊢
      rw [← hlabel.2.2]
      exact hbegun hstate
    · rw [update_of_ne hid] at hstate ⊢
      rw [hothers _ hid] at hlabel
      exact h.begun other mapCode found begun hlabel hstate
  · intro other hother
    dsimp only at hother ⊢
    by_cases hid : other = id
    · subst hid
      rw [update_self] at hother ⊢
      exact hreleased hother
    · rw [update_of_ne hid] at hother ⊢
      exact h.destroyed other hother
  · intro other hnone
    dsimp only at hnone ⊢
    have hid : other ≠ id := by
      rintro rfl
      simp [hafter] at hnone
    rw [update_of_ne hid]
    rw [hothers _ hid] at hnone
    exact h.fresh other hnone

theorem labels_onChannel_of_ne {f : Channel → Channel} {other : Nat} (hother : other ≠ id) :
    (w.onChannel id f).labels[other]? = w.labels[other]? := by
  simp [World.labels, World.onChannel, Ne.symm hother]

theorem labels_of_getElem? {ch : Channel} (hget : w.channels[id]? = some ch) :
    w.labels[id]? = some ch.label := by
  simp [World.labels, hget]

theorem labels_onChannel_self {f : Channel → Channel} {ch : Channel} (hget : w.channels[id]? = some ch) :
    (w.onChannel id f).labels[id]? = some (f ch).label := by
  simp [World.labels, World.onChannel, hget]

/-- The updates of a channel begin it, tick it and remove it. -/
theorem Listed.updateChannel (h : g.Listed) (id : Nat) :
    Outcome Listed (fun _ => True) (g.updateChannel id) := by
  unfold Game.updateChannel
  split
  · exact h
  · rename_i channel hget
    split
    · rename_i hstate
      refine h.change (w := g.now.onChannel id Channel.BeginPlay) rfl
        (fun other hother => labels_onChannel_of_ne hother) (labels_of_getElem? hget)
        (labels_onChannel_self hget) ?_ ?_ ?_
      · simp
      · simp [Channel.BeginPlay]
      · intro hreleased
        have hdestroyed := h.destroyed id hreleased
        rw [hstate] at hdestroyed
        cases hdestroyed
    · refine (World.PrevTick_sameShape id channel g.now).bind fun w hw => ?_
      exact h.sameShape hw
    · rename_i hstate
      split
      · exact h
      · refine h.change (w := (g.now.onChannel id fun ch => { ch.clear with cm := none }).expire id) rfl
          (fun other hother => labels_onChannel_of_ne hother) (labels_of_getElem? hget)
          (labels_onChannel_self hget) ?_ ?_ ?_
        · exact fun _ => hstate
        · exact fun hother => absurd hstate hother
        · exact fun _ => hstate

section Ticks

variable [OfNat τ 0]

theorem Start.listed (h : g.Start) : g.Listed := by
  have hlabels : g.now.labels = [] := by rw [World.labels, h.start.no_channels, List.map_nil]
  have hchannels := h.start.no_entries
  refine ⟨h.coded, fun key mapinfo hmap => ?_, fun key mapinfo entry hmap hentry => ?_, ?_, ?_,
    fun id _ => by rw [h.fresh]⟩
  · rw [hchannels key mapinfo hmap]
    exact List.nodup_nil
  · rw [hchannels key mapinfo hmap] at hentry
    cases hentry
  · simp [hlabels]
  · simp [h.fresh]

variable [Add τ] [LE τ] [DecidableLE τ] [OfNat τ 60] {delta : τ}

/-- A map's tick erases the entry of a channel that was released, or that has been empty
for too long. -/
def reaped (w : World) (delta : τ) (components : Nat → Component τ) (id : Nat) : Bool :=
  (components id).released || (w.isEmpty id && decide (60 ≤ (components id).time + delta))

/-- A channel's component after the tick of its map. -/
def aged (w : World) (delta : τ) (components : Nat → Component τ) (id : Nat) : Component τ :=
  let channel := components id
  if channel.released then channel
  else if w.isEmpty id then
    let time := channel.time + delta
    if 60 ≤ time then ⟨.Destroy, time, channel.released⟩ else { channel with time := time }
  else { channel with time := 0 }

/-- The loop of `MapInfo::PrevTick` treats the channels of a map one by one. -/
theorem PrevTick_eq (w : World) (delta : τ) (hids : (entries.map Prod.snd).Nodup)
    (components : Nat → Component τ) :
    PrevTick w delta entries components =
      (entries.filter fun entry => !reaped w delta components entry.2,
        fun id => if id ∈ entries.map Prod.snd then aged w delta components id else components id) := by
  induction entries generalizing components with
  | nil => simp [PrevTick]
  | cons entry rest ih =>
    obtain ⟨hnot, hrest⟩ := List.nodup_cons.mp hids
    have hfilter : ∀ c : Component τ,
        (rest.filter fun e => !reaped w delta (update components entry.2 c) e.2) =
        rest.filter fun e => !reaped w delta components e.2 := by
      intro c
      refine List.filter_congr fun e he => ?_
      have hne : e.2 ≠ entry.2 := fun hsame => hnot (hsame ▸ List.mem_map_of_mem he)
      simp [reaped, update_of_ne hne]
    have hcomponents : ∀ c : Component τ, c = aged w delta components entry.2 →
        (fun id => if id ∈ rest.map Prod.snd then aged w delta (update components entry.2 c) id
          else update components entry.2 c id) =
        fun id => if id ∈ (entry :: rest).map Prod.snd then aged w delta components id
          else components id := by
      rintro c rfl
      funext id
      by_cases hid : id = entry.2
      · subst hid
        simp [hnot]
      · simp only [aged, update_of_ne hid, List.map_cons, List.mem_cons, hid, false_or]
    unfold PrevTick
    by_cases hreleased : (components entry.2).released = true
    · have haged : components entry.2 = aged w delta components entry.2 := by simp [aged, hreleased]
      have hsame := hcomponents _ haged
      rw [update_eq_self] at hsame
      simp only [if_pos hreleased, ih hrest, hsame]
      rw [List.filter_cons_of_neg (by simp [reaped, hreleased])]
    by_cases hempty : w.isEmpty entry.2 = true
    · by_cases htime : 60 ≤ (components entry.2).time + delta
      · simp only [if_neg hreleased, if_pos hempty, if_pos htime, ih hrest, hfilter]
        rw [hcomponents _ (by simp [aged, hreleased, hempty, htime]),
          List.filter_cons_of_neg (by simp [reaped, hreleased, hempty, htime])]
      · simp only [if_neg hreleased, if_pos hempty, if_neg htime, ih hrest, hfilter]
        rw [hcomponents _ (by simp [aged, hreleased, hempty, htime]),
          List.filter_cons_of_pos (by simp [reaped, hreleased, hempty, htime])]
    · simp only [if_neg hreleased, if_neg hempty, ih hrest, hfilter]
      rw [hcomponents _ (by simp [aged, hreleased, hempty]),
        List.filter_cons_of_pos (by simp [reaped, hreleased, hempty])]

/-- The tick of its map destroys a channel that is reaped, and no other. -/
theorem aged_spec (w : World) (delta : τ) (components : Nat → Component τ) (id : Nat) :
    (aged w delta components id).released = (components id).released ∧
      (aged w delta components id).state =
        if reaped w delta components id ∧ (components id).released = false then .Destroy
        else (components id).state := by
  unfold aged reaped
  dsimp only
  split
  · rename_i hreleased
    simp [hreleased]
  · rename_i hreleased
    split
    · rename_i hempty
      split <;> simp_all
    · rename_i hempty
      simp [hreleased, hempty]

/-- The tick of a map takes the entries of the channels that are reaped from it. -/
theorem Listed.maps_tickMap (h : g.Listed) (mapKey : Int) (delta : τ) :
    (g.tickMap mapKey delta).now.maps = update g.now.maps mapKey ((g.now.maps mapKey).map fun mapinfo =>
      { mapinfo with
        channels := mapinfo.channels.filter fun entry => !reaped g.now delta g.components entry.2 }) := by
  unfold Game.tickMap
  split
  · rename_i hnone
    rw [hnone, Option.map_none, ← hnone, update_eq_self]
  · rename_i mapinfo hmap
    rw [PrevTick_eq g.now delta (h.ids_once hmap), hmap, Option.map_some]

theorem Listed.old_of_tickMap (h : g.Listed) {key : Int} {found : MapInfo}
    (hfound : (g.tickMap mapKey delta).now.maps key = some found) :
    ∃ old, g.now.maps key = some old ∧ found.mapCode = old.mapCode ∧
      found.channels.Sublist old.channels ∧
      (key = mapKey → ∀ entry ∈ found.channels, reaped g.now delta g.components entry.2 = false) := by
  rw [h.maps_tickMap] at hfound
  by_cases hkey : key = mapKey
  · subst hkey
    rw [update_self] at hfound
    obtain ⟨mapinfo, hmap, rfl⟩ := Option.map_eq_some_iff.mp hfound
    refine ⟨mapinfo, hmap, rfl, List.filter_sublist, fun _ entry hentry => ?_⟩
    simpa using (List.mem_filter.mp hentry).2
  · rw [update_of_ne hkey] at hfound
    exact ⟨found, hfound, rfl, .refl _, fun hsame => absurd hsame hkey⟩

/-- The map has an entry of the channel. -/
def Lists (g : Game τ) (mapKey : Int) (id : Nat) : Prop :=
  ∃ mapinfo entry, g.now.maps mapKey = some mapinfo ∧ entry ∈ mapinfo.channels ∧ entry.2 = id

/-- The tick of a map ages the channels that it has entries of, and no others. -/
theorem Listed.component_tickMap (h : g.Listed) (mapKey : Int) (delta : τ) (id : Nat) :
    g.Lists mapKey id ∧ (g.tickMap mapKey delta).components id = aged g.now delta g.components id ∨
      ¬ g.Lists mapKey id ∧ (g.tickMap mapKey delta).components id = g.components id := by
  unfold Game.tickMap
  split
  · rename_i hnone
    refine .inr ⟨?_, rfl⟩
    rintro ⟨mapinfo, _, hmap, _⟩
    simp [hnone] at hmap
  · rename_i mapinfo hmap
    rw [PrevTick_eq g.now delta (h.ids_once hmap)]
    by_cases hin : id ∈ mapinfo.channels.map Prod.snd
    · obtain ⟨entry, hentry, hid⟩ := List.mem_map.mp hin
      exact .inl ⟨⟨mapinfo, entry, hmap, hentry, hid⟩, if_pos hin⟩
    · refine .inr ⟨?_, if_neg hin⟩
      rintro ⟨found, entry, hfound, hentry, rfl⟩
      obtain rfl := Option.some.inj (hmap.symm.trans hfound)
      exact hin (List.mem_map_of_mem hentry)

/-- The tick of a map destroys the channels of the map that are reaped, and changes the state
of no other. -/
theorem Listed.state_tickMap (h : g.Listed) (mapKey : Int) (delta : τ) (id : Nat) :
    ((g.tickMap mapKey delta).components id).released = (g.components id).released ∧
      (((g.tickMap mapKey delta).components id).state = (g.components id).state ∨
        ((g.tickMap mapKey delta).components id).state = .Destroy ∧ g.Lists mapKey id ∧
          reaped g.now delta g.components id = true) := by
  obtain ⟨hlists, hcomponent⟩ | ⟨_, hcomponent⟩ := h.component_tickMap mapKey delta id
  · obtain ⟨hreleased, hstate⟩ := aged_spec g.now delta g.components id
    rw [hcomponent, hstate]
    refine ⟨hreleased, ?_⟩
    split
    · rename_i hreaped
      exact .inr ⟨rfl, hlists, hreaped.1⟩
    · exact .inl rfl
  · rw [hcomponent]
    exact ⟨rfl, .inl rfl⟩

theorem channels_tickMap : (g.tickMap mapKey delta).now.channels = g.now.channels := by
  unfold Game.tickMap
  split <;> rfl

theorem Listed.tickMap (h : g.Listed) (mapKey : Int) (delta : τ) : (g.tickMap mapKey delta).Listed := by
  have hlabels : (g.tickMap mapKey delta).now.labels = g.now.labels := by
    rw [World.labels, World.labels, channels_tickMap]
  constructor
  · intro key found hfound
    obtain ⟨old, hold, hcode, _⟩ := h.old_of_tickMap hfound
    rw [hcode]
    exact h.coded key old hold
  · intro key found hfound
    obtain ⟨old, hold, _, hlist, _⟩ := h.old_of_tickMap hfound
    exact (hlist.map _).nodup (h.once key old hold)
  · intro key found entry hfound hentry
    obtain ⟨old, hold, _, hlist, hkept⟩ := h.old_of_tickMap hfound
    obtain ⟨hpos, hstate, begun, hlabel⟩ := h.entries key old entry hold (hlist.subset hentry)
    refine ⟨hpos, ?_, begun, hlabels ▸ hlabel⟩
    obtain ⟨_, hsame | ⟨_, ⟨mapinfo, other, hmap, hother, hid⟩, hreaped⟩⟩ := h.state_tickMap mapKey delta entry.2
    · rwa [hsame]
    · obtain ⟨_, _, _, hlabel'⟩ := h.entries mapKey mapinfo other hmap hother
      rw [hid, hlabel] at hlabel'
      simp only [Option.some.injEq, Prod.mk.injEq] at hlabel'
      rw [hkept hlabel'.1 entry hentry] at hreaped
      cases hreaped
  · intro id mapCode number begun hlabel hstate
    rw [hlabels] at hlabel
    obtain ⟨_, hsame | ⟨hdestroyed, _⟩⟩ := h.state_tickMap mapKey delta id
    · rw [hsame] at hstate ⊢
      exact h.begun id mapCode number begun hlabel hstate
    · exact absurd hdestroyed hstate
  · intro id hreleased
    obtain ⟨hsame, hstate⟩ := h.state_tickMap mapKey delta id
    rw [hsame] at hreleased
    obtain hstate | ⟨hdestroyed, _⟩ := hstate
    · rw [hstate]
      exact h.destroyed id hreleased
    · exact hdestroyed
  · intro id hnone
    rw [hlabels] at hnone
    obtain ⟨_, hsame | ⟨_, ⟨mapinfo, entry, hmap, hentry, rfl⟩, _⟩⟩ := h.state_tickMap mapKey delta id
    · rw [hsame]
      exact h.fresh id hnone
    · obtain ⟨_, _, _, hlabel⟩ := h.entries mapKey mapinfo entry hmap hentry
      rw [hlabel] at hnone
      cases hnone

/-- Every step keeps the entries of the maps in order. -/
theorem Listed.step (h : g.Listed) (e : GameEvent τ) : Outcome Listed (fun _ => True) (g.step e) := by
  cases e with
  | tickMap mapKey delta => exact h.tickMap mapKey delta
  | step e =>
    cases e with
    | request code request =>
      refine (World.On_Read_requested g.now code request).bind fun w hw => ?_
      exact h.opened hw.1
    | closeSession code => exact h.sameShape (World.sameShape_onCharacter code)
    | disconnect code =>
      refine (World.disconnect_requested g.now code).bind fun w hw => ?_
      exact h.sameShape hw.shape
    | updateChannel id => exact h.updateChannel id
    | tickManager id =>
      unfold Game.step
      dsimp only
      split
      · refine (World.tickManager_same g.now id).bind fun w hw => ?_
        exact h.sameShape hw.1
      · exact h

theorem run_listed {g₀ : Game τ} {events : List (GameEvent τ)} (hstart : g₀.Start)
    (hrun : Run (OfOption Game.next) g₀ events g) : g.Listed := by
  apply hrun.invariant hstart.listed
  exact fun a e b ha hnext => (ha.step e).toOption hnext

end Ticks

end Game

end AsioGameServer.world
