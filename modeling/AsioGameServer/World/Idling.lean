import AsioGameServer.Lib.Stopwatch
import AsioGameServer.World.Admission

open Function Transition

namespace AsioGameServer.world

namespace Game

variable {τ : Type} {g g' g₀ : Game τ} {events : List (GameEvent τ)} {mapKey : Int} {id : Nat} {w : World}

/-- The channels keep their maps, also those that are opened meanwhile. -/
def Placed (id : Nat) (w w' : World) : Prop :=
  ∀ key number begun, w.labels[id]? = some (key, number, begun) → ∃ begun', w'.labels[id]? = some (key, number, begun')

theorem Placed.of_opened (h : g.now.Opened w) : Placed id g.now w := by
  intro key number begun hlabel
  obtain hsame | ⟨mapKey, mapinfo, _, hsame⟩ := h
  · exact ⟨begun, by rw [hsame.labels, hlabel]⟩
  · refine ⟨begun, ?_⟩
    rw [hsame.labels, World.labels_openChannel, List.getElem?_append_left (List.getElem?_eq_some_iff.mp hlabel).1,
      hlabel]

/-- A step of the world leaves the channels in their maps, and how long they have been empty. -/
theorem updateChannel_placed (g : Game τ) (other : Nat) :
    Outcome (fun g' => Placed id g.now g'.now ∧ (g'.components id).time = (g.components id).time) (fun _ => True)
      (g.updateChannel other) := by
  have hchanged : ∀ (f : Channel → Channel) (c : Component τ), (∀ ch, (f ch).label.1 = ch.label.1 ∧
      (f ch).label.2.1 = ch.label.2.1) → c.time = (g.components other).time →
      (∀ key number begun, g.now.labels[id]? = some (key, number, begun) →
        ∃ begun', (g.now.onChannel other f).labels[id]? = some (key, number, begun')) ∧
      (update g.components other c id).time = (g.components id).time := by
    intro f c hf hc
    constructor
    · intro key number begun hlabel
      by_cases hid : id = other
      · obtain ⟨ch, hget, hch⟩ := Option.map_eq_some_iff.mp ((List.getElem?_map ..).symm.trans hlabel)
        refine ⟨(f ch).label.2.2, ?_⟩
        rw [hid] at hget ⊢
        rw [labels_onChannel_self hget]
        obtain ⟨hkey, hnumber⟩ := hf ch
        rw [hch] at hkey hnumber
        exact congrArg some (Prod.ext hkey (Prod.ext hnumber rfl))
      · exact ⟨begun, by rw [labels_onChannel_of_ne hid, hlabel]⟩
    · by_cases hid : id = other
      · rw [hid, update_self, hc]
      · rw [update_of_ne hid]
  unfold updateChannel
  split
  · exact ⟨fun _ _ begun hlabel => ⟨begun, hlabel⟩, rfl⟩
  · rename_i channel hget
    split
    · exact hchanged Channel.BeginPlay _ (fun _ => ⟨rfl, rfl⟩) rfl
    · refine (World.PrevTick_sameShape other channel g.now).bind fun w hw => ?_
      exact ⟨fun _ _ begun hlabel => ⟨begun, by rw [hw.labels, hlabel]⟩, rfl⟩
    · split
      · exact ⟨fun _ _ begun hlabel => ⟨begun, hlabel⟩, rfl⟩
      · exact hchanged (fun ch => { ch.clear with cm := none }) _ (fun _ => ⟨rfl, rfl⟩) rfl

section Ticks

variable [Add τ] [LE τ] [DecidableLE τ] [OfNat τ 0] [OfNat τ 60]

theorem step_placed (id : Nat) (g : Game τ) (e : World.Event) :
    Outcome (fun g' => Placed id g.now g'.now ∧ (g'.components id).time = (g.components id).time) (fun _ => True)
      (g.step (.step e)) := by
  have hsame : ∀ w : World, g.now.SameShape w →
      Placed id g.now w ∧ (g.components id).time = (g.components id).time :=
    fun w hw => ⟨fun _ _ begun hlabel => ⟨begun, by rw [hw.labels, hlabel]⟩, rfl⟩
  cases e with
  | request code request =>
    refine (World.On_Read_requested g.now code request).bind fun w hw => ?_
    exact ⟨Placed.of_opened hw.1, rfl⟩
  | closeSession code => exact ⟨fun _ _ begun hlabel => ⟨begun, hlabel⟩, rfl⟩
  | disconnect code =>
    refine (World.disconnect_requested g.now code).bind fun w hw => ?_
    exact hsame w hw.shape
  | updateChannel other => exact updateChannel_placed g other
  | tickManager other =>
    unfold Game.step
    dsimp only
    split
    · refine (World.tickManager_same g.now other).bind fun w hw => ?_
      exact hsame w hw.1
    · exact ⟨fun _ _ begun hlabel => ⟨begun, hlabel⟩, rfl⟩

/-- The map has an entry of the channel. -/
def lists (g : Game τ) (mapKey : Int) (id : Nat) : Bool :=
  (g.now.maps mapKey).any fun mapinfo => mapinfo.channels.any fun entry => decide (entry.2 = id)

omit [Add τ] [LE τ] [DecidableLE τ] [OfNat τ 0] [OfNat τ 60] in
theorem lists_iff : g.lists mapKey id = true ↔ g.Lists mapKey id := by
  simp only [lists, Lists, Option.any_eq_true, List.any_eq_true, decide_eq_true_eq]
  constructor
  · rintro ⟨mapinfo, hmap, entry, hentry, hid⟩
    exact ⟨mapinfo, entry, hmap, hentry, hid⟩
  · rintro ⟨mapinfo, entry, hmap, hentry, hid⟩
    exact ⟨mapinfo, hmap, entry, hentry, hid⟩

/-- Whether a tick of its map finds a channel empty, and the time that has passed. -/
def sight (mapKey : Int) (id : Nat) (g : Game τ) : GameEvent τ → Option (Bool × τ)
  | .tickMap key delta => if key = mapKey ∧ g.lists mapKey id = true then some (g.now.isEmpty id, delta) else none
  | .step _ => none

/-- For how long a channel was found empty before its map ticks next. -/
def idle (mapKey : Int) (id : Nat) (g₀ : Game τ) (events : List (GameEvent τ)) : τ :=
  Stopwatch.shown (Stopwatch.seen Game.next (sight mapKey id) g₀ events)

/-- The time of a channel is right, in its map or before it has one. -/
def Clocked (g₀ : Game τ) (events : List (GameEvent τ)) (g : Game τ) : Prop :=
  ∀ id mapKey, (∀ key number begun, g.now.labels[id]? = some (key, number, begun) → key = mapKey) →
    (g.components id).time = idle mapKey id g₀ events

theorem Clocked.next {e : GameEvent τ} (h : Clocked g₀ events g) (hlisted : g.Listed)
    (hrun : Run (OfOption Game.next) g₀ events g) (hnext : OfOption Game.next g e g') :
    Clocked g₀ (events ++ [e]) g' := by
  intro id mapKey hmine
  unfold idle
  rw [Stopwatch.seen_concat hrun]
  cases e with
  | step e =>
    obtain ⟨hplaced, htime⟩ := (step_placed id g e).toOption hnext
    have hbefore : ∀ key number begun, g.now.labels[id]? = some (key, number, begun) → key = mapKey := by
      intro key number begun hlabel
      obtain ⟨begun', hlabel'⟩ := hplaced key number begun hlabel
      exact hmine key number begun' hlabel'
    rw [htime, h id mapKey hbefore, sight, Option.toList_none, List.append_nil]
    rfl
  | tickMap key delta =>
    obtain rfl : g.tickMap key delta = g' := Option.some.inj hnext
    have hlabels : (g.tickMap key delta).now.labels = g.now.labels := by
      rw [World.labels, World.labels, channels_tickMap]
    rw [hlabels] at hmine
    have htime := h id mapKey hmine
    obtain ⟨hlists, hcomponent⟩ | ⟨hlists, hcomponent⟩ := hlisted.component_tickMap key delta id
    · obtain ⟨mapinfo, entry, hmap, hentry, rfl⟩ := hlists
      obtain ⟨_, _, begun, hlabel⟩ := hlisted.entries key mapinfo entry hmap hentry
      obtain rfl : key = mapKey := hmine _ _ _ hlabel
      have hreleased := (hlisted.isLive hmap hentry).2.1
      have hsight : sight key entry.2 g (.tickMap key delta) = some (g.now.isEmpty entry.2, delta) :=
        if_pos ⟨rfl, lists_iff.mpr ⟨mapinfo, entry, hmap, hentry, rfl⟩⟩
      rw [hcomponent, hsight, Option.toList_some, aged]
      dsimp only
      rw [hreleased, if_neg Bool.false_ne_true]
      cases hempty : g.now.isEmpty entry.2 with
      | true =>
        rw [if_pos rfl, Stopwatch.shown_on, htime]
        split <;> rfl
      | false => rw [if_neg Bool.false_ne_true, Stopwatch.shown_reset]
    · have hsight : sight mapKey id g (.tickMap key delta) = none := by
        refine if_neg ?_
        rintro ⟨rfl, hlisted'⟩
        exact hlists (lists_iff.mp hlisted')
      rw [hcomponent, hsight, Option.toList_none, List.append_nil, htime]
      rfl

/-- In every run a map tells a channel to destroy itself, and forgets it, exactly at the first of
its ticks at which the channel is empty and the time of the ticks since it was last found with
a character in it, or was opened, comes to a minute. -/
theorem channels_reaped_after_a_minute (hstart : g₀.Start) (hrun : Run (OfOption Game.next) g₀ events g)
    (hlists : g.Lists mapKey id) (delta : τ) :
    (((g.tickMap mapKey delta).components id).state = .Destroy ↔
        g.now.isEmpty id = true ∧ 60 ≤ idle mapKey id g₀ events + delta) ∧
      (¬ (g.tickMap mapKey delta).Lists mapKey id ↔
        g.now.isEmpty id = true ∧ 60 ≤ idle mapKey id g₀ events + delta) := by
  have hlisted : g.Listed := run_listed hstart hrun
  have hclocked : Clocked g₀ events g := by
    have hall : Run (OfOption Game.next) g₀ events g ∧ g.Listed ∧ Clocked g₀ events g := by
      apply hrun.invariant_trace fun past g => Run (OfOption Game.next) g₀ past g ∧ g.Listed ∧ Clocked g₀ past g
      · refine ⟨.nil _, hstart.listed, fun id mapKey _ => ?_⟩
        rw [hstart.fresh id]
        rfl
      · rintro past a e b ⟨hpast, ha, hclocked⟩ hnext
        exact ⟨run_concat_iff.mpr ⟨a, hpast, hnext⟩, (ha.step e).toOption hnext, hclocked.next ha hpast hnext⟩
    exact hall.2.2
  obtain ⟨mapinfo, entry, hmap, hentry, rfl⟩ := hlists
  obtain ⟨_, hstate, begun, hlabel⟩ := hlisted.entries mapKey mapinfo entry hmap hentry
  have hreleased := (hlisted.isLive hmap hentry).2.1
  have htime : (g.components entry.2).time = idle mapKey entry.2 g₀ events := by
    refine hclocked entry.2 mapKey fun key number begun' hother => ?_
    rw [hlabel] at hother
    simp only [Option.some.injEq, Prod.mk.injEq] at hother
    exact hother.1.symm
  have hreaped : reaped g.now delta g.components entry.2 = true ↔
      g.now.isEmpty entry.2 = true ∧ 60 ≤ idle mapKey entry.2 g₀ events + delta := by
    simp [reaped, hreleased, htime]
  rw [← hreaped]
  constructor
  · obtain ⟨_, hcomponent⟩ | ⟨hnot, _⟩ := hlisted.component_tickMap mapKey delta entry.2
    · rw [hcomponent, (aged_spec g.now delta g.components entry.2).2]
      by_cases hreap : reaped g.now delta g.components entry.2 = true
      · simp [hreap, hreleased]
      · simp [hreap, hstate]
    · exact absurd ⟨mapinfo, entry, hmap, hentry, rfl⟩ hnot
  · constructor
    · intro hnot
      by_contra hkept
      have hmap' : (g.tickMap mapKey delta).now.maps mapKey = some { mapinfo with
          channels := mapinfo.channels.filter fun entry => !reaped g.now delta g.components entry.2 } := by
        rw [hlisted.maps_tickMap, update_self, hmap]
        rfl
      exact hnot ⟨_, entry, hmap', List.mem_filter.mpr ⟨hentry, by simpa using hkept⟩, rfl⟩
    · rintro hreap ⟨found, other, hfound, hother, hid⟩
      obtain ⟨_, _, _, _, hkept⟩ := hlisted.old_of_tickMap hfound
      have hleft := hkept rfl other hother
      rw [hid, hreap] at hleft
      cases hleft

/-- A channel that its only character leaves, and that is empty for a minute after it. -/
theorem channels_reaped_after_a_minute_left :
    ∃ events g, Run (OfOption Game.next) emptyMaps events g ∧ idle 1 0 emptyMaps events = 40 ∧
      (((g.tickMap 1 20).components 0).state = .Destroy ↔
        g.now.isEmpty 0 = true ∧ 60 ≤ idle 1 0 emptyMaps events + 20) := by
  have hfold :
    ([.step (.request 7 (.REQ_ENTER_MAP 1)), .step (.updateChannel 0), .tickMap 1 30, .step (.updateChannel 0),
      .tickMap 1 30, .step (.disconnect 7), .step (.updateChannel 0), .tickMap 1 40].foldlM Game.next emptyMaps).map
      (fun g => g.lists 1 0) = some true := by
    decide +kernel
  obtain ⟨g, hg, hlists⟩ := Option.map_eq_some_iff.mp hfold
  have hrun := run_ofOption_iff.mpr hg
  refine ⟨_, g, hrun, by decide +kernel, ?_⟩
  exact (channels_reaped_after_a_minute emptyMaps_start hrun (lists_iff.mp hlists) 20).1

end Ticks

end Game

end AsioGameServer.world
