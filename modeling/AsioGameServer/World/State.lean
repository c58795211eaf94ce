import Mathlib.Logic.Function.Basic
import AsioGameServer.Packet

open Function

namespace AsioGameServer.world

/-- A `CharacterManager`. The weak pointers in `characters` are given by the codes
they are stored under. -/
structure CharacterManager where
  characters : List Int
  bMovable : Bool
  req_send_all : List Packet_Symbal
deriving DecidableEq, Repr

/-- A `Channel` with its child component, which `BeginPlay` creates. The request
lists hold the codes of the characters to insert, the codes to erase and the
characters to call `Escape` for. -/
structure Channel where
  mapCode : Int
  number : Int
  cm : Option CharacterManager
  req_Insert_list : List Int
  req_erase_list : List Int
  req_func_list : List Int
deriving DecidableEq, Repr

/-- A `MapInfo`: the channels by their numbers, and the destination of each portal
by its gate number. -/
structure MapInfo where
  mapCode : Int
  maxUserCount : Int
  channels : List (Int × Nat)
  portals : List (Int × Int)
deriving DecidableEq, Repr

/-- A `Character`: its location, the channel whose manager `cm` refers to, and
whether its `User` and that user's `Session` are alive. -/
structure Character where
  mapKey : Int
  channel : Int
  cm : Option Nat
  user : Bool
  session : Bool
deriving DecidableEq, Repr

/-- The maps by their codes, every channel that was created, and the characters by
their codes. A channel is referred to by its position in the list. -/
structure World where
  maps : Int → Option MapInfo
  channels : List Channel
  characters : Int → Character

/-- The null and expired pointers that are followed: in `CharacterManager::Tick`,
in `Channel::InsertCharacter` (user and session), in `Channel::Escape`, and the
map, channel or manager that a request or `MapInfo::InsertCharacter` looks up. -/
inductive Fault where
  | deadCharacter | deadUser | deadSession | noCharacterManager
  | nullMapInfo | nullChannel | nullManager
deriving DecidableEq, Repr

namespace Channel

/-- The constructor of `Channel`. -/
def new (mapCode number : Int) : Channel := ⟨mapCode, number, none, [], [], []⟩

def Async_InsertCharacter (ch : Channel) (character : Int) : Channel :=
  { ch with req_Insert_list := ch.req_Insert_list ++ [character] }

def Async_EraseCharacter (ch : Channel) (key : Int) : Channel :=
  { ch with req_erase_list := ch.req_erase_list ++ [key] }

def Async_Func (ch : Channel) (escape : Int) : Channel :=
  { ch with req_func_list := ch.req_func_list ++ [escape] }

def BeginPlay (ch : Channel) : Channel := { ch with cm := some ⟨[], true, []⟩ }

/-- The request lists once `PrevTick` has copied them. -/
def clear (ch : Channel) : Channel :=
  { ch with req_Insert_list := [], req_erase_list := [], req_func_list := [] }

end Channel

namespace MapInfo

def GetChannel (mapinfo : MapInfo) (index : Int) : Option Nat := mapinfo.channels.lookup index

def GetPortal (mapinfo : MapInfo) (gateNumber : Int) : Option Int := mapinfo.portals.lookup gateNumber

/-- The loop that looks for a number without a channel. -/
def unusedFrom (used : List Int) : Nat → Int → Int
  | 0, channelNumber => channelNumber
  | fuel + 1, channelNumber =>
    if channelNumber ∈ used then unusedFrom used fuel (channelNumber + 1) else channelNumber

/-- The least positive number without a channel. The loop takes no more rounds
than there are channels. -/
def unusedNumber (mapinfo : MapInfo) : Int :=
  unusedFrom (mapinfo.channels.map Prod.fst) mapinfo.channels.length 1

/-- `channels[channelNumber] = channel` on the ordered map. -/
def insertChannel (channelNumber : Int) (channel : Nat) : List (Int × Nat) → List (Int × Nat)
  | [] => [(channelNumber, channel)]
  | entry :: rest =>
    if channelNumber < entry.1 then (channelNumber, channel) :: entry :: rest
    else entry :: insertChannel channelNumber channel rest

theorem unusedFrom_not_mem {used : List Int} {fuel : Nat} {channelNumber : Int}
    (h : (used.filter (channelNumber ≤ ·)).length ≤ fuel) :
    unusedFrom used fuel channelNumber ∉ used := by
  induction fuel generalizing channelNumber with
  | zero =>
    intro hmem
    have : channelNumber ∈ used.filter (channelNumber ≤ ·) := by simpa [unusedFrom] using hmem
    simp [List.eq_nil_of_length_eq_zero (Nat.le_zero.mp h)] at this
  | succ fuel ih =>
    unfold unusedFrom
    split
    · rename_i hmem
      apply ih
      have hsplit : used.filter (channelNumber + 1 ≤ ·) =
          (used.filter (channelNumber ≤ ·)).filter (channelNumber + 1 ≤ ·) := by
        rw [List.filter_filter]
        refine List.filter_congr fun n _ => ?_
        simp only [← Bool.decide_and, decide_eq_decide]
        omega
      have hless : ((used.filter (channelNumber ≤ ·)).filter (channelNumber + 1 ≤ ·)).length <
          (used.filter (channelNumber ≤ ·)).length := by
        rw [List.length_filter_lt_length_iff_exists]
        refine ⟨channelNumber, by simpa using hmem, ?_⟩
        rw [decide_eq_true_eq]
        omega
      rw [hsplit]
      omega
    · assumption

/-- The number for a new channel is not in use. -/
theorem unusedNumber_not_mem (mapinfo : MapInfo) :
    mapinfo.unusedNumber ∉ mapinfo.channels.map Prod.fst := by
  refine unusedFrom_not_mem (Nat.le_trans (List.length_filter_le _ _) ?_)
  exact Nat.le_of_eq (List.length_map _)

theorem lookup_insertChannel {entries : List (Int × Nat)} {number : Int} (channel : Nat) (index : Int)
    (hunused : number ∉ entries.map Prod.fst) :
    (insertChannel number channel entries).lookup index =
      if index = number then some channel else entries.lookup index := by
  induction entries with
  | nil => by_cases hindex : index = number <;> simp [insertChannel, hindex]
  | cons entry rest ih =>
    simp only [List.map_cons, List.mem_cons, not_or] at hunused
    unfold insertChannel
    split
    · by_cases hindex : index = number
      · simp [hindex]
      · rw [List.lookup_cons, beq_false_of_ne hindex, if_neg hindex]
    · rw [List.lookup_cons, List.lookup_cons, ih hunused.2]
      by_cases hindex : index = entry.1
      · have hne : entry.1 ≠ number := Ne.symm hunused.1
        simp [hindex, hne]
      · simp only [beq_false_of_ne hindex]

end MapInfo

namespace World

def onChannel (w : World) (channel : Nat) (f : Channel → Channel) : World :=
  { w with channels := w.channels.modify channel f }

def onCharacter (w : World) (code : Int) (f : Character → Character) : World :=
  { w with characters := update w.characters code (f (w.characters code)) }

/-- The manager of a channel. -/
def manager (w : World) (channel : Nat) : Option CharacterManager := (w.channels[channel]?).bind Channel.cm

def onManager (w : World) (channel : Nat) (f : CharacterManager → CharacterManager) : World :=
  w.onChannel channel fun ch => { ch with cm := ch.cm.map f }

/-- A character is alive while its user holds it or one of the request lists that
store shared pointers does; `held` is what `PrevTick` has copied out of them. -/
def live (w : World) (held : List Int) (code : Int) : Bool :=
  (w.characters code).user || held.contains code ||
    w.channels.any fun ch => ch.req_Insert_list.contains code || ch.req_func_list.contains code

end World

end AsioGameServer.world
