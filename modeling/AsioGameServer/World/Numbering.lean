import AsioGameServer.Lib.Number
import AsioGameServer.Lib.WhileLoop
import AsioGameServer.World.Listing

open Function Number Transition

namespace AsioGameServer.world

variable {F : Type} [Number F]

section Search

variable {used : List Int} {fuel : Nat} {m n : Int}

namespace MapInfo

/-- The loop stops at the number that it is said to, after as many rounds as there are numbers
in use from its start on. -/
theorem unusedFrom_exits (hfuel : (used.filter (n ≤ ·)).length ≤ fuel) :
    WhileLoop.Exits (· ∈ used) (fun n => some (n + 1)) n (unusedFrom used fuel n) := by
  refine ⟨?_, unusedFrom_not_mem hfuel⟩
  clear hfuel
  induction fuel generalizing n with
  | zero => exact .refl
  | succ fuel ih =>
    unfold unusedFrom
    split
    · rename_i hmem
      have hfirst : WhileLoop.Iterates (· ∈ used) (fun n => some (n + 1)) n (n + 1) := ⟨hmem, rfl⟩
      exact Relation.ReflTransGen.head hfirst ih
    · exact .refl

/-- All numbers before it are in use. -/
theorem mem_of_lt_unusedFrom (hle : n ≤ m) (hlt : m < unusedFrom used fuel n) : m ∈ used := by
  induction fuel generalizing n with
  | zero => exact absurd hlt (not_lt_of_ge hle)
  | succ fuel ih =>
    unfold unusedFrom at hlt
    split at hlt
    · rename_i hmem
      obtain rfl | hless := eq_or_lt_of_le hle
      · exact hmem
      · exact ih hless hlt
    · exact absurd hlt (not_lt_of_ge hle)

/-- The search goes on for no more than its rounds. -/
theorem unusedFrom_le : unusedFrom used fuel n ≤ n + fuel := by
  induction fuel generalizing n with
  | zero => simp [unusedFrom]
  | succ fuel ih =>
    unfold unusedFrom
    split
    · have hrest := ih (n := n + 1)
      push_cast
      omega
    · omega

end MapInfo

end Search

/-- A `Channel`, as far as its map deals with it: what the constructor gets, its state, how many
characters are in its manager, which `BeginPlay` creates, how long it has been empty, and
whether the weak pointers to it have expired. -/
structure NumberedChannel (F : Type) where
  mapCode : Int
  number : Int
  state : ComponentState
  cm : Option Nat
  time : F
  released : Bool

/-- A `MapInfo` with its children, and all channels that it ever created. A channel is referred
to by how many were created before. -/
structure NumberedMap (F : Type) where
  mapinfo : MapInfo
  children : List Nat
  created : Nat
  get : Nat → NumberedChannel F

namespace NumberedMap

/-- A map without channels. -/
def start (mapinfo : MapInfo) : NumberedMap F :=
  ⟨{ mapinfo with channels := [] }, [], 0, fun _ => ⟨0, 0, .Create, none, ofInt 0, false⟩⟩

/-- The loop of `MapInfo::PrevTick`. -/
def PrevTick (delta : F) :
    List (Int × Nat) → (Nat → NumberedChannel F) → List (Int × Nat) × (Nat → NumberedChannel F)
  | [], get => ([], get)
  | entry :: rest, get =>
    let channel := get entry.2
    if channel.released then PrevTick delta rest get
    else if channel.cm.getD 0 = 0 then
      let time := channel.time + delta
      if time ≥ ofInt 60 then PrevTick delta rest (update get entry.2 { channel with time, state := .Destroy })
      else
        let (channels, get) := PrevTick delta rest (update get entry.2 { channel with time })
        (entry :: channels, get)
    else
      let (channels, get) := PrevTick delta rest (update get entry.2 { channel with time := ofInt 0 })
      (entry :: channels, get)

/-- `MapInfo::Tick`. -/
def Tick (delta : F) (s : NumberedMap F) : NumberedMap F :=
  let (channels, get) := PrevTick delta s.mapinfo.channels s.get
  { s with mapinfo := { s.mapinfo with channels }, get }

/-- `Component::Update` of a channel. One that is destroyed detaches itself, and its manager
after it. -/
def Update (c : Nat) (s : NumberedMap F) : NumberedMap F :=
  let channel := s.get c
  match channel.state with
  | .Create => { s with get := update s.get c { channel with cm := some 0, state := .Alive } }
  | .Alive => s
  | .Destroy => { s with children := s.children.erase c, get := update s.get c { channel with cm := none } }

/-- The loop of `MapInfo::InsertCharacter` that looks for a channel. An expired pointer or a
missing manager is followed, which has no result. -/
def findRoom (temp : Int) (s : NumberedMap F) : List (Int × Nat) → Option (Option Int)
  | [] => some none
  | entry :: rest =>
    let channel := s.get entry.2
    if channel.released then none
    else do
      let count ← channel.cm
      if (count : Int) < temp then return some channel.number else findRoom temp s rest

/-- The number of the character's channel, and the map. -/
def InsertCharacter (s : NumberedMap F) : Option (Int × NumberedMap F) := do
  match ← s.findRoom ((s.mapinfo.maxUserCount * 4).tdiv 5) s.mapinfo.channels with
  | some number => return (number, s)
  | none =>
    let channelNumber := s.mapinfo.unusedNumber
    let channel := s.created
    return (channelNumber, {
      mapinfo := { s.mapinfo with channels := MapInfo.insertChannel channelNumber channel s.mapinfo.channels }
      children := s.children ++ [channel]
      created := s.created + 1
      get := update s.get channel ⟨s.mapinfo.mapCode, channelNumber, .Create, none, ofInt 0, false⟩ })

/-- The calls of a map, and what happens to a channel apart from it: characters come and go,
and the last pointer to a channel that has detached goes. -/
inductive Event (F : Type) where
  | InsertCharacter
  | Tick (delta : F)
  | Update (c : Nat)
  | count (c n : Nat)
  | release (c : Nat)
deriving DecidableEq, Repr

def next (s : NumberedMap F) : Event F → Option (NumberedMap F)
  | .InsertCharacter => s.InsertCharacter.map Prod.snd
  | .Tick delta => some (s.Tick delta)
  | .Update c => if c ∈ s.children then some (s.Update c) else none
  | .count c n =>
    if (s.get c).cm.isSome then some { s with get := update s.get c { s.get c with cm := some n } } else none
  | .release c =>
    if c < s.created ∧ c ∉ s.children then some { s with get := update s.get c { s.get c with released := true } }
    else none

section Ticks

variable {entries : List (Int × Nat)} {get : Nat → NumberedChannel F} {c : Nat}

/-- What a tick does to entries and channels: an entry goes where its channel is destroyed. -/
structure Ticked (entries : List (Int × Nat)) (get : Nat → NumberedChannel F) (entries' : List (Int × Nat))
    (get' : Nat → NumberedChannel F) : Prop where
  sublist : entries'.Sublist entries
  same : ∀ c, (get' c).mapCode = (get c).mapCode ∧ (get' c).number = (get c).number ∧
    (get' c).released = (get c).released
  state : ∀ c, (get' c).state =
    if c ∈ entries.map Prod.snd ∧ c ∉ entries'.map Prod.snd then .Destroy else (get c).state

omit [Number F] in
/-- The tick goes on after an entry whose channel changes in its state and time only. -/
theorem Ticked.cons {entry : Int × Nat} {rest entries' : List (Int × Nat)} {get' : Nat → NumberedChannel F}
    {channel : NumberedChannel F} (keep : List (Int × Nat))
    (h : Ticked rest (update get entry.2 channel) entries' get') (hnot : entry.2 ∉ rest.map Prod.snd)
    (hkeep : keep.Sublist [entry])
    (hsame : channel.mapCode = (get entry.2).mapCode ∧ channel.number = (get entry.2).number ∧
      channel.released = (get entry.2).released)
    (hstate : channel.state = if keep = [] then .Destroy else (get entry.2).state) :
    Ticked (entry :: rest) get (keep ++ entries') get' := by
  have hgone : entry.2 ∉ entries'.map Prod.snd := fun hmem => hnot ((h.sublist.map Prod.snd).subset hmem)
  refine ⟨hkeep.append h.sublist, fun c => ?_, fun c => ?_⟩
  · obtain ⟨hcode, hnumber, hreleased⟩ := h.same c
    rw [hcode, hnumber, hreleased]
    by_cases hc : c = entry.2
    · subst hc
      rw [update_self]
      exact hsame
    · rw [update_of_ne hc]
      exact ⟨rfl, rfl, rfl⟩
  · rw [h.state]
    by_cases hc : c = entry.2
    · subst hc
      rw [update_self, if_neg (fun hboth => hnot hboth.1), hstate]
      obtain rfl | rfl := List.sublist_singleton.mp hkeep <;> simp [hgone]
    · have hrest : c ∉ keep.map Prod.snd := by
        obtain rfl | rfl := List.sublist_singleton.mp hkeep <;> simp [hc]
      rw [update_of_ne hc, List.map_cons, List.map_append]
      simp only [List.mem_cons, List.mem_append, hc, hrest, false_or]

theorem ticked_PrevTick (delta : F) (hids : (entries.map Prod.snd).Nodup)
    (hlive : ∀ entry ∈ entries, (get entry.2).released = false) :
    Ticked entries get (PrevTick delta entries get).1 (PrevTick delta entries get).2 := by
  induction entries generalizing get with
  | nil => exact ⟨.refl _, fun _ => ⟨rfl, rfl, rfl⟩, fun _ => by simp [PrevTick]⟩
  | cons entry rest ih =>
    obtain ⟨hnot, hrest⟩ := List.nodup_cons.mp hids
    have hfirst : (get entry.2).released = false := hlive entry List.mem_cons_self
    have hnext : ∀ channel : NumberedChannel F, Ticked rest (update get entry.2 channel)
        (PrevTick delta rest (update get entry.2 channel)).1 (PrevTick delta rest (update get entry.2 channel)).2 := by
      intro channel
      refine ih hrest fun other hmem => ?_
      have hne : other.2 ≠ entry.2 := fun hsame => hnot (hsame ▸ List.mem_map_of_mem hmem)
      rw [update_of_ne hne]
      exact hlive other (List.mem_cons_of_mem _ hmem)
    unfold PrevTick
    dsimp only
    rw [if_neg (by simp [hfirst])]
    split
    · split
      · exact (hnext _).cons [] hnot (List.nil_sublist _) ⟨rfl, rfl, rfl⟩ rfl
      · exact (hnext _).cons [entry] hnot (.refl _) ⟨rfl, rfl, rfl⟩ rfl
    · exact (hnext _).cons [entry] hnot (.refl _) ⟨rfl, rfl, rfl⟩ rfl

end Ticks

section Invariant

variable {s s' : NumberedMap F} {event : Event F} {c : Nat} {number : Int}

/-- The entries of the map are its attached channels that were not destroyed, each under the
number that it was created with. Attached channels are kept alive by their parent. -/
structure Numbered (s : NumberedMap F) : Prop where
  keys : (s.mapinfo.channels.map Prod.fst).Nodup
  entries : ∀ number c, (number, c) ∈ s.mapinfo.channels ↔
    c ∈ s.children ∧ (s.get c).state ≠ .Destroy ∧ (s.get c).number = number
  children : s.children.Nodup
  created : ∀ c ∈ s.children, c < s.created
  kept : ∀ c ∈ s.children, (s.get c).released = false ∧ (s.get c).mapCode = s.mapinfo.mapCode

omit [Number F] in
theorem Numbered.ids (h : s.Numbered) : (s.mapinfo.channels.map Prod.snd).Nodup := by
  have hkeys := List.pairwise_map.mp h.keys
  refine List.pairwise_map.mpr (hkeys.imp_of_mem fun {a b} ha hb hne hsame => hne ?_)
  obtain ⟨_, _, hfirst⟩ := (h.entries a.1 a.2).mp ha
  obtain ⟨_, _, hsecond⟩ := (h.entries b.1 b.2).mp hb
  rw [← hfirst, ← hsecond, hsame]

omit [Number F] in
theorem Numbered.not_mem_created (h : s.Numbered) : s.created ∉ s.children :=
  fun hmem => Nat.lt_irrefl _ (h.created _ hmem)

theorem numbered_start (mapinfo : MapInfo) : (start mapinfo : NumberedMap F).Numbered where
  keys := List.nodup_nil
  entries := by simp [start]
  children := List.nodup_nil
  created := by simp [start]
  kept := by simp [start]

omit [Number F] in
/-- What an attached channel does apart from its map leaves the map in order, as long as it is
destroyed by the map only. -/
theorem Numbered.change (h : s.Numbered) {get : Nat → NumberedChannel F}
    (hsame : ∀ c ∈ s.children, (get c).mapCode = (s.get c).mapCode ∧ (get c).number = (s.get c).number ∧
      (get c).released = (s.get c).released)
    (hstate : ∀ c ∈ s.children, (get c).state = .Destroy ↔ (s.get c).state = .Destroy) :
    Numbered { s with get } where
  keys := h.keys
  entries number c := by
    rw [h.entries]
    refine and_congr_right fun hmem => ?_
    rw [ne_eq, ne_eq, hstate c hmem, (hsame c hmem).2.1]
  children := h.children
  created := h.created
  kept c hmem := by
    obtain ⟨hcode, _, hreleased⟩ := hsame c hmem
    rw [hcode, hreleased]
    exact h.kept c hmem

omit [Number F] in
theorem Numbered.change_one (h : s.Numbered) {channel : NumberedChannel F}
    (hsame : channel.mapCode = (s.get c).mapCode ∧ channel.number = (s.get c).number ∧
      channel.released = (s.get c).released)
    (hstate : channel.state = .Destroy ↔ (s.get c).state = .Destroy) :
    Numbered { s with get := update s.get c channel } := by
  refine h.change (fun other _ => ?_) fun other _ => ?_
  · by_cases hc : other = c
    · subst hc
      rw [update_self]
      exact hsame
    · rw [update_of_ne hc]
      exact ⟨rfl, rfl, rfl⟩
  · by_cases hc : other = c
    · subst hc
      rw [update_self, hstate]
    · rw [update_of_ne hc]

/-- A tick takes the entries of the channels that it destroys. -/
theorem Numbered.tick (h : s.Numbered) (delta : F) : (s.Tick delta).Numbered := by
  have hlive : ∀ entry ∈ s.mapinfo.channels, (s.get entry.2).released = false :=
    fun entry hentry => (h.kept entry.2 ((h.entries entry.1 entry.2).mp hentry).1).1
  have hticked := ticked_PrevTick delta h.ids hlive
  unfold Tick
  dsimp only
  generalize PrevTick delta s.mapinfo.channels s.get = after at hticked
  refine ⟨(hticked.sublist.map Prod.fst).nodup h.keys, fun number c => ?_, h.children, h.created, fun c hmem => ?_⟩
  · rw [(hticked.same c).2.1, hticked.state]
    constructor
    · intro hentry
      obtain ⟨hmem, hstate, hnumber⟩ := (h.entries number c).mp (hticked.sublist.subset hentry)
      have hleft : c ∈ after.1.map Prod.snd := List.mem_map_of_mem hentry
      rw [if_neg (fun hboth => hboth.2 hleft)]
      exact ⟨hmem, hstate, hnumber⟩
    · rintro ⟨hmem, hstate, hnumber⟩
      split at hstate
      · exact absurd rfl hstate
      · rename_i hnot
        have hentry := (h.entries number c).mpr ⟨hmem, hstate, hnumber⟩
        have hleft : c ∈ after.1.map Prod.snd := by
          by_contra hgone
          exact hnot ⟨List.mem_map_of_mem hentry, hgone⟩
        obtain ⟨left, hin, rfl⟩ := List.mem_map.mp hleft
        obtain ⟨_, _, hkey⟩ := (h.entries left.1 left.2).mp (hticked.sublist.subset hin)
        rw [← hnumber, hkey]
        exact hin
  · obtain ⟨hcode, _, hreleased⟩ := hticked.same c
    dsimp only
    rw [hcode, hreleased]
    exact h.kept c hmem

omit [Number F] in
/-- A channel that was destroyed detaches, and any other goes on. -/
theorem Numbered.update (h : s.Numbered) (c : Nat) : (s.Update c).Numbered := by
  unfold Update
  dsimp only
  split
  · rename_i hstate
    exact h.change_one ⟨rfl, rfl, rfl⟩ (by simp [hstate])
  · exact h
  · rename_i hstate
    have hchanged : Numbered { s with get := Function.update s.get c { s.get c with cm := none } } :=
      h.change_one ⟨rfl, rfl, rfl⟩ .rfl
    refine ⟨h.keys, fun number other => ?_, h.children.erase c, fun other hmem => ?_, fun other hmem => ?_⟩
    · rw [hchanged.entries]
      dsimp only
      rw [h.children.mem_erase_iff]
      refine ⟨fun ⟨hmem, hlive, hnumber⟩ => ⟨⟨?_, hmem⟩, hlive, hnumber⟩, fun ⟨hmem, hrest⟩ => ⟨hmem.2, hrest⟩⟩
      rintro rfl
      simp [hstate] at hlive
    · exact h.created other (List.mem_of_mem_erase hmem)
    · exact hchanged.kept other (List.mem_of_mem_erase hmem)

/-- A channel that is created goes under a number that no other has. -/
theorem Numbered.open (h : s.Numbered) : Numbered {
    mapinfo := { s.mapinfo with channels := MapInfo.insertChannel s.mapinfo.unusedNumber s.created s.mapinfo.channels }
    children := s.children ++ [s.created]
    created := s.created + 1
    get := Function.update s.get s.created
      ⟨s.mapinfo.mapCode, s.mapinfo.unusedNumber, .Create, none, ofInt 0, false⟩ } := by
  have hperm := MapInfo.insertChannel_perm s.mapinfo.unusedNumber s.created s.mapinfo.channels
  have hne : ∀ c ∈ s.children, c ≠ s.created := fun c hmem => (h.created c hmem).ne
  refine ⟨?_, fun number c => ?_, ?_, fun c hmem => ?_, fun c hmem => ?_⟩
  · rw [(hperm.map Prod.fst).nodup_iff, List.map_cons, List.nodup_cons]
    exact ⟨s.mapinfo.unusedNumber_not_mem, h.keys⟩
  · dsimp only
    rw [hperm.mem_iff, List.mem_cons, h.entries, List.mem_append, List.mem_singleton]
    by_cases hc : c = s.created
    · subst hc
      simp [h.not_mem_created, eq_comm]
    · simp [hc]
  · exact List.nodup_append.mpr ⟨h.children, List.nodup_singleton _, by simpa using hne⟩
  · obtain hmem | hmem := List.mem_append.mp hmem
    · exact Nat.lt_succ_of_lt (h.created c hmem)
    · rw [List.mem_singleton.mp hmem]
      exact Nat.lt_succ_self _
  · dsimp only
    obtain hmem | hmem := List.mem_append.mp hmem
    · rw [update_of_ne (hne c hmem)]
      exact h.kept c hmem
    · rw [List.mem_singleton.mp hmem, update_self]
      exact ⟨rfl, rfl⟩

/-- A call finds a channel with room, or opens one. -/
theorem insertCharacter_cases (hinsert : s.InsertCharacter = some (number, s')) :
    s' = s ∨ number = s.mapinfo.unusedNumber ∧ s' = {
      mapinfo := { s.mapinfo with channels := MapInfo.insertChannel number s.created s.mapinfo.channels }
      children := s.children ++ [s.created]
      created := s.created + 1
      get := Function.update s.get s.created ⟨s.mapinfo.mapCode, number, .Create, none, ofInt 0, false⟩ } := by
  unfold InsertCharacter at hinsert
  obtain ⟨found, _, hinsert⟩ := Option.bind_eq_some_iff.mp hinsert
  cases found with
  | some room =>
    cases hinsert
    exact .inl rfl
  | none =>
    cases hinsert
    exact .inr ⟨rfl, rfl⟩

theorem Numbered.next (h : s.Numbered) (hnext : s.next event = some s') : s'.Numbered := by
  cases event with
  | InsertCharacter =>
    obtain ⟨⟨number, after⟩, hinsert, rfl⟩ := Option.map_eq_some_iff.mp hnext
    obtain rfl | ⟨rfl, rfl⟩ := insertCharacter_cases hinsert
    · exact h
    · exact h.open
  | Tick delta =>
    cases hnext
    exact h.tick delta
  | Update c =>
    obtain ⟨_, ⟨⟩⟩ := Option.ite_none_right_eq_some.mp hnext
    exact h.update c
  | count c n =>
    obtain ⟨_, ⟨⟩⟩ := Option.ite_none_right_eq_some.mp hnext
    exact h.change_one ⟨rfl, rfl, rfl⟩ .rfl
  | release c =>
    obtain ⟨⟨_, hnot⟩, ⟨⟩⟩ := Option.ite_none_right_eq_some.mp hnext
    have hne : ∀ other ∈ s.children, other ≠ c := by
      rintro other hmem rfl
      exact hnot hmem
    apply h.change
    · intro other hmem
      rw [update_of_ne (hne other hmem)]
      exact ⟨rfl, rfl, rfl⟩
    · intro other hmem
      rw [update_of_ne (hne other hmem)]

/-- What a call does that opens a channel: its number is the least that is positive and not in
use, and the search for it ends there. It is attached, and has an entry under the number. -/
structure Opens (s : NumberedMap F) (number : Int) (s' : NumberedMap F) : Prop where
  least : IsLeast {n | 0 < n ∧ ∀ c ∈ s.children, (s.get c).state ≠ .Destroy → (s.get c).number ≠ n} number
  found : WhileLoop.Exits (· ∈ s.mapinfo.channels.map Prod.fst) (fun n => some (n + 1)) 1 number
  le : number ≤ s.mapinfo.channels.length + 1
  channel : s'.get s.created = ⟨s.mapinfo.mapCode, number, .Create, none, ofInt 0, false⟩
  attached : s'.children = s.children ++ [s.created]
  entry : s'.mapinfo.GetChannel number = some s.created

omit [Number F] in
theorem Numbered.mem_keys_iff (h : s.Numbered) :
    number ∈ s.mapinfo.channels.map Prod.fst ↔
      ∃ c ∈ s.children, (s.get c).state ≠ .Destroy ∧ (s.get c).number = number := by
  constructor
  · intro hkey
    obtain ⟨entry, hentry, rfl⟩ := List.mem_map.mp hkey
    exact ⟨entry.2, (h.entries entry.1 entry.2).mp hentry⟩
  · rintro ⟨c, hchannel⟩
    exact List.mem_map_of_mem (f := Prod.fst) ((h.entries number c).mpr hchannel)

theorem Numbered.opens (h : s.Numbered) (hinsert : s.InsertCharacter = some (number, s'))
    (hcreated : s'.created ≠ s.created) : s.Opens number s' := by
  obtain rfl | ⟨rfl, rfl⟩ := insertCharacter_cases hinsert
  · exact absurd rfl hcreated
  have hfuel : ((s.mapinfo.channels.map Prod.fst).filter (1 ≤ ·)).length ≤ s.mapinfo.channels.length :=
    (List.length_filter_le _ _).trans (List.length_map _).le
  constructor
  · refine ⟨⟨s.mapinfo.unusedNumber_pos, fun c hmem hstate hnumber => ?_⟩, fun n hn => ?_⟩
    · exact s.mapinfo.unusedNumber_not_mem (h.mem_keys_iff.mpr ⟨c, hmem, hstate, hnumber⟩)
    · by_contra hlt
      have hkey := MapInfo.mem_of_lt_unusedFrom (n := 1) hn.1 (not_le.mp hlt)
      obtain ⟨c, hmem, hstate, hnumber⟩ := h.mem_keys_iff.mp hkey
      exact hn.2 c hmem hstate hnumber
  · exact MapInfo.unusedFrom_exits hfuel
  · rw [add_comm]
    exact MapInfo.unusedFrom_le
  · exact update_self _ _ _
  · rfl
  · exact (MapInfo.lookup_insertChannel _ _ s.mapinfo.unusedNumber_not_mem).trans (if_pos rfl)

end Invariant

/-- In every run the entries of a map are its channels that were not destroyed, by their numbers,
and a channel that it opens gets the least number that is free. -/
theorem channels_numbered {mapinfo : MapInfo} {events : List (Event F)} {s : NumberedMap F}
    (hrun : Run (OfOption next) (start mapinfo) events s) :
    (s.mapinfo.channels.map Prod.fst).Nodup ∧
      (∀ number c, (number, c) ∈ s.mapinfo.channels ∧ (s.get c).released = false ↔
        c ∈ s.children ∧ (s.get c).state ≠ .Destroy ∧ (s.get c).number = number) ∧
      (∀ c ∈ s.children, (s.get c).mapCode = s.mapinfo.mapCode) ∧
      ∀ number s', s.InsertCharacter = some (number, s') → s'.created ≠ s.created → s.Opens number s' := by
  have h : s.Numbered := hrun.invariant (numbered_start mapinfo) fun _ _ _ h hnext => h.next hnext
  refine ⟨h.keys, fun number c => ?_, fun c hmem => (h.kept c hmem).2, fun number s' => h.opens⟩
  rw [← h.entries]
  exact and_iff_left_of_imp fun hentry => (h.kept c ((h.entries number c).mp hentry).1).1

/-- A second channel is opened while the first one is full, which is empty after that. -/
def emptied : List (Event Int) :=
  [.InsertCharacter, .Update 0, .count 0 8, .InsertCharacter, .Update 1, .count 0 0, .count 1 8, .Tick 60]

/-- The third channel gets the number of the first one, which is still attached. -/
theorem channels_numbered_emptied : ∃ s s' : NumberedMap Int,
    Run (OfOption next) (start ⟨1, 10, [], []⟩) emptied s ∧ s.children = [0, 1] ∧ s.InsertCharacter = some (1, s') ∧
      s.Opens 1 s' := by
  have hrun : Run (OfOption next) (start ⟨1, 10, [], []⟩) emptied _ := run_ofOption_iff.mpr rfl
  exact ⟨_, _, hrun, rfl, rfl, (channels_numbered hrun).2.2.2 1 _ rfl (by decide)⟩

end NumberedMap

end AsioGameServer.world
