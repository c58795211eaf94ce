import AsioGameServer.Lib.Deferred
import AsioGameServer.World.Tick

open Transition Deferred

namespace AsioGameServer.prevTick

variable {χ φ β : Type}

/-- The request lists of a `Channel`, of a `CharacterManager` and of a `MonsterManager`. -/
inductive ChannelList where
  | req_erase_list | req_Insert_list | req_func_list
deriving DecidableEq, Repr

inductive CharacterManagerList where
  | req_erase_list | req_Insert_list | req_send_all | req_func_list
deriving DecidableEq, Repr

inductive MonsterManagerList where
  | req_func_list
deriving DecidableEq, Repr

/-- What is in a list: keys, characters `χ`, functions `φ`, and packets with a builder
`β`. -/
abbrev ChannelList.Entry (χ φ : Type) : ChannelList → Type
  | .req_erase_list => Int
  | .req_Insert_list => χ
  | .req_func_list => φ

abbrev CharacterManagerList.Entry (χ φ β : Type) : CharacterManagerList → Type
  | .req_erase_list => Int
  | .req_Insert_list => χ
  | .req_send_all => Packet_Symbal × β
  | .req_func_list => φ

abbrev MonsterManagerList.Entry (φ : Type) : MonsterManagerList → Type
  | .req_func_list => φ

namespace Channel

/-- The future of `async` is dropped, so a call returns when its request is in the list. -/
def Async_InsertCharacter (character : χ) (d : Desk (ChannelList.Entry χ φ)) : Desk (ChannelList.Entry χ φ) :=
  d.issue ⟨.req_Insert_list, character⟩

def Async_EraseCharacter (key : Int) (d : Desk (ChannelList.Entry χ φ)) : Desk (ChannelList.Entry χ φ) :=
  d.issue ⟨.req_erase_list, key⟩

def Async_Func (func : φ) (d : Desk (ChannelList.Entry χ φ)) : Desk (ChannelList.Entry χ φ) :=
  d.issue ⟨.req_func_list, func⟩

def PrevTick : Round (ChannelList.Entry χ φ) where
  collect l :=
    let l := ((l.assign .req_erase_list).assign .req_Insert_list).assign .req_func_list
    ((l.clear .req_erase_list).clear .req_Insert_list).clear .req_func_list
  order := [.req_erase_list, .req_Insert_list, .req_func_list]

theorem PrevTick_complete : (PrevTick : Round (ChannelList.Entry χ φ)).Complete := by
  constructor
  · intro req
    simp only [PrevTick, Lists.assign, Lists.clear, Lists.mk.injEq]
    exact ⟨funext fun k => by cases k <;> rfl, funext fun k => by cases k <;> rfl⟩
  · intro k
    cases k <;> simp [PrevTick]

end Channel

namespace CharacterManager

def Async_InsertCharacter (character : χ) (d : Desk (CharacterManagerList.Entry χ φ β)) :
    Desk (CharacterManagerList.Entry χ φ β) :=
  d.issue ⟨.req_Insert_list, character⟩

def Async_EraseCharacter (key : Int) (d : Desk (CharacterManagerList.Entry χ φ β)) :
    Desk (CharacterManagerList.Entry χ φ β) :=
  d.issue ⟨.req_erase_list, key⟩

def Async_SendAllCharacter (symbol : Packet_Symbal) (fbb : β) (d : Desk (CharacterManagerList.Entry χ φ β)) :
    Desk (CharacterManagerList.Entry χ φ β) :=
  d.issue ⟨.req_send_all, (symbol, fbb)⟩

def Async_Function (func : φ) (d : Desk (CharacterManagerList.Entry χ φ β)) :
    Desk (CharacterManagerList.Entry χ φ β) :=
  d.issue ⟨.req_func_list, func⟩

def PrevTick : Round (CharacterManagerList.Entry χ φ β) where
  collect l :=
    (((l.assignAny .req_erase_list).assignAny .req_send_all).assignAny .req_Insert_list).assignAny .req_func_list
  order := [.req_erase_list, .req_Insert_list, .req_send_all, .req_func_list]

/-- An empty list is as it is when it was copied and cleared. -/
theorem PrevTick_complete : (PrevTick : Round (CharacterManagerList.Entry χ φ β)).Complete := by
  constructor
  · intro req
    have hany : ∀ (k : CharacterManagerList) (l : Lists (CharacterManagerList.Entry χ φ β)), l.copy k = [] →
        l.assignAny k = (l.assign k).clear k := by
      intro k l hcopy
      unfold Lists.assignAny
      split
      · rename_i hempty
        have hreq : l.req k = [] := List.isEmpty_iff.mp hempty
        have hsame : Function.update l.copy k [] = l.copy := by rw [← hcopy, Function.update_eq_self]
        have hsame' : Function.update l.req k [] = l.req := by rw [← hreq, Function.update_eq_self]
        simp [Lists.assign, Lists.clear, hreq, hsame, hsame']
      · rfl
    simp only [PrevTick]
    rw [hany .req_erase_list _ rfl, hany .req_send_all _ rfl, hany .req_Insert_list _ rfl, hany .req_func_list _ rfl]
    simp only [Lists.assign, Lists.clear, Lists.mk.injEq]
    exact ⟨funext fun k => by cases k <;> rfl, funext fun k => by cases k <;> rfl⟩
  · intro k
    cases k <;> simp [PrevTick]

end CharacterManager

namespace MonsterManager

def Async_Function (func : φ) (d : Desk (MonsterManagerList.Entry φ)) : Desk (MonsterManagerList.Entry φ) :=
  d.issue ⟨.req_func_list, func⟩

def PrevTick : Round (MonsterManagerList.Entry φ) where
  collect l := (l.assign .req_func_list).clear .req_func_list
  order := [.req_func_list]

theorem PrevTick_complete : (PrevTick : Round (MonsterManagerList.Entry φ)).Complete := by
  constructor
  · intro req
    simp only [PrevTick, Lists.assign, Lists.clear, Lists.mk.injEq]
    exact ⟨funext fun k => by cases k; rfl, funext fun k => by cases k; rfl⟩
  · intro k
    cases k
    simp [PrevTick]

end MonsterManager

section World

open world

/-- The request lists of a channel, where a function is the `Escape` of a character. -/
def requests (channel : world.Channel) : ∀ k, List (ChannelList.Entry Int Int k)
  | .req_erase_list => channel.req_erase_list
  | .req_Insert_list => channel.req_Insert_list
  | .req_func_list => channel.req_func_list

def handle (held : List Int) (id : Nat) (w : World) : Request (ChannelList.Entry Int Int) → Except Fault World
  | ⟨.req_erase_list, key⟩ => World.EraseCharacter held id w key
  | ⟨.req_Insert_list, character⟩ => World.InsertCharacter id w character
  | ⟨.req_func_list, character⟩ => World.Escape w character

/-- A request that the world puts in a channel goes to the list of its kind. -/
theorem requests_issue (channel : world.Channel) (d : Desk (ChannelList.Entry Int Int))
    (hreq : d.req = requests channel)
    (code : Int) :
    (Channel.Async_InsertCharacter code d).req = requests (channel.Async_InsertCharacter code) ∧
      (Channel.Async_EraseCharacter code d).req = requests (channel.Async_EraseCharacter code) ∧
      (Channel.Async_Func code d).req = requests (channel.Async_Func code) := by
  simp only [Channel.Async_InsertCharacter, Channel.Async_EraseCharacter, Channel.Async_Func, Desk.issue, hreq]
  exact ⟨funext fun k => by cases k <;> rfl, funext fun k => by cases k <;> rfl, funext fun k => by cases k <;> rfl⟩

/-- The tick of a channel is a round that nothing interrupts. -/
theorem PrevTick_eq_round {channel : world.Channel} {d : Desk (ChannelList.Entry Int Int)}
    (hreq : d.req = requests channel) (hloops : d.loops = []) (hhandling : d.handling = none) (id : Nat) (w : World) :
    ∃ events d' new, Run (OfOption (Desk.next Channel.PrevTick)) d events d' ∧ d'.req = requests channel.clear ∧
      d'.processed = d.processed ++ new ∧
      w.PrevTick id channel = new.foldlM (handle (channel.req_Insert_list ++ channel.req_func_list) id)
        (w.onChannel id world.Channel.clear) := by
  obtain ⟨events, copy, hrun⟩ := Desk.run_round (d := d) Channel.PrevTick_complete (by decide) hloops hhandling
  refine ⟨events, _, _, hrun, funext fun k => by cases k <;> rfl, rfl, ?_⟩
  simp only [Channel.PrevTick, hreq, List.flatMap_cons, List.flatMap_nil, List.append_nil, List.foldlM_append,
    List.foldlM_map]
  rfl

end World

/-- Whatever other threads and the functions that `PrevTick` runs ask for meanwhile, of each
kind the requests that were processed, those that were copied out, and those in the list
are together the requests that were issued, in their order. -/
theorem requests_handled_once_in_order :
    (∀ events (d : Desk (ChannelList.Entry χ φ)), Run (OfOption (Desk.next Channel.PrevTick)) .start events d →
      d.Accounted) ∧
    (∀ events (d : Desk (CharacterManagerList.Entry χ φ β)),
      Run (OfOption (Desk.next CharacterManager.PrevTick)) .start events d → d.Accounted) ∧
    ∀ events (d : Desk (MonsterManagerList.Entry φ)),
      Run (OfOption (Desk.next MonsterManager.PrevTick)) .start events d → d.Accounted := by
  refine ⟨fun _ _ hrun => ?_, fun _ _ hrun => ?_, fun _ _ hrun => ?_⟩
  · exact Desk.accounted_of_run Channel.PrevTick_complete hrun
  · exact Desk.accounted_of_run CharacterManager.PrevTick_complete hrun
  · exact Desk.accounted_of_run MonsterManager.PrevTick_complete hrun

/-- A function that runs asks its own manager for another one, and for a packet. -/
theorem requests_handled_once_in_order_award :
    ∃ d : Desk (CharacterManagerList.Entry Unit Nat Unit),
      Run (OfOption (Desk.next CharacterManager.PrevTick)) .start
        [.issue ⟨.req_func_list, 1⟩, .issue ⟨.req_func_list, 2⟩, .collect, .leave, .leave, .leave, .take,
          .issue ⟨.req_func_list, 3⟩, .issue ⟨.req_send_all, (.LEVEL_UP, ())⟩, .finish, .take] d ∧
      d.processed = [⟨.req_func_list, 1⟩] ∧ d.handling = some ⟨.req_func_list, 2⟩ ∧
      d.req .req_func_list = [3] ∧ d.Accounted := by
  have hrun : ∃ d : Desk (CharacterManagerList.Entry Unit Nat Unit),
      Run (OfOption (Desk.next CharacterManager.PrevTick)) .start
        [.issue ⟨.req_func_list, 1⟩, .issue ⟨.req_func_list, 2⟩, .collect, .leave, .leave, .leave, .take,
          .issue ⟨.req_func_list, 3⟩, .issue ⟨.req_send_all, (.LEVEL_UP, ())⟩, .finish, .take] d ∧
      d.processed = [⟨.req_func_list, 1⟩] ∧ d.handling = some ⟨.req_func_list, 2⟩ ∧
      d.req .req_func_list = [3] := by
    simp only [run_ofOption_iff]
    exact ⟨_, rfl, rfl, rfl, rfl⟩
  obtain ⟨d, hrun, hprocessed, hhandling, hreq⟩ := hrun
  exact ⟨d, hrun, hprocessed, hhandling, hreq,
    (requests_handled_once_in_order (χ := Unit) (φ := Nat) (β := Unit)).2.1 _ d hrun⟩

end AsioGameServer.prevTick
