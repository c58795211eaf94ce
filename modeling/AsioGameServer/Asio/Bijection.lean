import Mathlib.Data.List.Nodup
import AsioGameServer.Lib.Outcome
import AsioGameServer.Asio.Server

open Transition

namespace AsioGameServer.asio

variable {τ : Type}

/-- The session whose close an event posts. -/
def Event.closes : Event τ → Option Nat
  | .read session 0 => some session
  | _ => none

def Event.accepts : Event τ → Bool
  | .accept => true
  | _ => false

/-- A connection that is accepted and has no session yet. -/
def Task.creates : Task τ → Bool
  | .NewUser => true
  | _ => false

/-- The session a task is going to remove. -/
def Task.closes : Task τ → Option Nat
  | .Close session => some session
  | _ => none

/-- The user a task is going to erase. -/
def Task.erases : Task τ → Option Int
  | .EraseUser key => some key
  | _ => none

namespace Server

variable {s t : Server τ} {e : Event τ} {events : List (Event τ)} {task : Task τ} {rest : List (Task τ)}
  {key : Int} {session length i : Nat} {ss : Session}

/-- The sessions whose close was posted, as often as it was. -/
def closed (events : List (Event τ)) : List Nat := events.filterMap Event.closes

/-- The number of connections that were accepted. -/
def accepted (events : List (Event τ)) : Nat := events.countP Event.accepts

/-- The connections on the strand that have no session yet. -/
def creating (strand : List (Task τ)) : Nat := strand.countP Task.creates

/-- The sessions whose removal is on the strand. -/
def closing (strand : List (Task τ)) : List Nat := strand.filterMap Task.closes

/-- The users whose erasure is on the strand. -/
def erasing (strand : List (Task τ)) : List Int := strand.filterMap Task.erases

@[simp] theorem closed_concat : closed (events ++ [e]) = closed events ++ e.closes.toList := by
  cases h : e.closes <;> simp [closed, h]

@[simp] theorem accepted_concat :
    Server.accepted (events ++ [e]) = Server.accepted events + e.accepts.toNat := by
  cases h : e.accepts <;> simp [Server.accepted, h]

@[simp] theorem creating_concat : creating (rest ++ [task]) = creating rest + task.creates.toNat := by
  cases h : task.creates <;> simp [creating, h]

@[simp] theorem closing_concat : closing (rest ++ [task]) = closing rest ++ task.closes.toList := by
  cases h : task.closes <;> simp [closing, h]

@[simp] theorem erasing_concat : erasing (rest ++ [task]) = erasing rest ++ task.erases.toList := by
  cases h : task.erases <;> simp [erasing, h]

@[simp] theorem creating_cons : creating (task :: rest) = creating rest + task.creates.toNat := by
  cases h : task.creates <;> simp [creating, h]

@[simp] theorem closing_cons : closing (task :: rest) = task.closes.toList ++ closing rest := by
  cases h : task.closes <;> simp [closing, h]

@[simp] theorem erasing_cons : erasing (task :: rest) = task.erases.toList ++ erasing rest := by
  cases h : task.erases <;> simp [erasing, h]

/-- The keys are numbered in the order of creation. A session is in its map until its
close has run, and its user until the task that follows it has; each session reads on
or its close was posted, and what the strand still has to do for it was posted by that
close. -/
structure Tracked (events : List (Event τ)) (s : Server τ) : Prop where
  key : s.key = s.created.length
  accepted : s.created.length + creating s.strand = Server.accepted events
  named : ∀ (i : Nat) ss, s.created[i]? = some ss → ss.key = some (i : Int)
  reading : ∀ i ss, s.created[i]? = some ss → ss.reads + (closed events).count i = 1
  known : ∀ i ∈ closed events, i < s.created.length
  owed : ∀ i : Nat,
    (closing s.strand).count i + (erasing s.strand).count (i : Int) ≤ (closed events).count i
  sessions : ∀ key, key ∈ s.sessionKeys ↔
    ∃ i : Nat, key = i ∧ i < s.created.length ∧ (i ∈ closed events → i ∈ closing s.strand)
  users : ∀ key, key ∈ s.userKeys ↔
    ∃ i : Nat, key = i ∧ i < s.created.length ∧
      (i ∈ closed events → i ∈ closing s.strand ∨ (i : Int) ∈ erasing s.strand)
  once : s.sessionKeys.Nodup ∧ s.userKeys.Nodup

theorem tracked_start : Tracked [] (start : Server τ) := by
  constructor <;> simp [start, closed, Server.accepted, creating, closing, erasing, sessionKeys, userKeys]

/-- A session is closed at most once. -/
theorem Tracked.count_closed_le (h : Tracked events s) (i : Nat) : (closed events).count i ≤ 1 := by
  by_cases hknown : i < s.created.length
  · have hreading := h.reading i _ (List.getElem?_eq_getElem hknown)
    omega
  · have hnot : i ∉ closed events := fun hmem => hknown (h.known i hmem)
    rw [List.count_eq_zero.mpr hnot]
    omega

/-- The map entries of the next session are free. -/
theorem Tracked.fresh (h : Tracked events s) : s.key ∉ s.sessionKeys ∧ s.key ∉ s.userKeys := by
  rw [h.sessions, h.users, h.key]
  constructor
  · rintro ⟨i, hi, hlt, -⟩
    omega
  · rintro ⟨i, hi, hlt, -⟩
    omega

theorem lookup_eq_none_iff_not_mem {α : Type} {entries : List (Int × α)} :
    entries.lookup key = none ↔ key ∉ entries.map Prod.fst := by
  rw [List.lookup_eq_none_iff, List.mem_map]
  constructor
  · rintro hall ⟨entry, hentry, rfl⟩
    exact absurd (hall entry hentry) (by simp)
  · intro hnot entry hentry
    rw [bne_iff_ne]
    exact fun hkey => hnot ⟨entry, hentry, hkey.symm⟩

/-- What `NewUser` does where the maps have no entry of the key. -/
theorem newUser_eq (hsessions : s.key ∉ s.sessionKeys) (husers : s.key ∉ s.userKeys) :
    s.NewUser = if s.key < 2147483647 then
      .ok { s with
        key := s.key + 1
        created := s.created ++ [⟨some s.key, some s.key, 1⟩]
        sessions := s.sessions ++ [(s.key, s.created.length)]
        users := s.users ++ [(s.key, ⟨some s.created.length⟩)] }
      else .error .keyOverflow := by
  have hold : s.users.map (fun entry =>
      if entry.1 = s.key then (entry.1, ⟨some s.created.length⟩) else entry) = s.users := by
    rw [List.map_congr_left (g := id), List.map_id]
    intro entry hentry
    rw [if_neg]
    · rfl
    · rintro hkey
      exact husers (hkey ▸ List.mem_map_of_mem hentry)
  have hnew : (s.created ++ [{ Session.new.start with key := some s.key }]).modify s.created.length
      ({ · with user := some s.key }) = s.created ++ [⟨some s.key, some s.key, 1⟩] := by
    rw [List.modify_eq_take_cons_drop (by simp)]
    simp [Session.new, Session.start, Session.do_read]
  simp [NewUser, CreateSession, CreateUser, SetSession, onSession, hold, hnew,
    lookup_eq_none_iff_not_mem.mpr hsessions, lookup_eq_none_iff_not_mem.mpr husers]

theorem removeSocket_of_mem (hkey : key ∈ s.sessionKeys) :
    s.RemoveSocket key = (true, { s with sessions := s.sessions.filter (·.1 ≠ key) }) := by
  unfold RemoveSocket
  split
  · rename_i hnone
    exact absurd hkey (lookup_eq_none_iff_not_mem.mp hnone)
  · rfl

theorem removeUser_of_mem (hkey : key ∈ s.userKeys) :
    s.RemoveUser key = (true, s.PostFuction (.EraseUser key)) := by
  unfold RemoveUser
  split
  · rename_i hnone
    exact absurd hkey (lookup_eq_none_iff_not_mem.mp hnone)
  · rfl

/-- What the close of a session does where both maps have an entry of its key. -/
theorem close_eq (hkey : (s.created[session]?).bind Session.key = some key) (hsession : key ∈ s.sessionKeys)
    (huser : key ∈ s.userKeys) :
    s.close session = .ok { s with
      sessions := s.sessions.filter (·.1 ≠ key)
      strand := s.strand ++ [.EraseUser key] } := by
  have herase := removeUser_of_mem (s := { s with sessions := s.sessions.filter (·.1 ≠ key) }) huser
  simp only [close, hkey]
  rw [removeSocket_of_mem hsession]
  dsimp only
  rw [herase, PostFuction]

/-- The keys that are left when the entries of one are removed. -/
theorem mem_keys_filter {α : Type} {entries : List (Int × α)} {other : Int} :
    other ∈ (entries.filter (·.1 ≠ key)).map Prod.fst ↔ other ∈ entries.map Prod.fst ∧ other ≠ key := by
  simp only [List.mem_map, List.mem_filter, decide_eq_true_eq]
  constructor
  · rintro ⟨entry, ⟨hentry, hne⟩, rfl⟩
    exact ⟨⟨entry, hentry, rfl⟩, hne⟩
  · rintro ⟨⟨entry, hentry, rfl⟩, hne⟩
    exact ⟨entry, ⟨hentry, hne⟩, rfl⟩

/-- A function is posted that neither removes a session nor erases a user. -/
theorem Tracked.post (h : Tracked events s) (hcloses : task.closes = none) (herases : task.erases = none)
    (hevent : e.closes = none) (haccepts : e.accepts = task.creates) :
    Tracked (events ++ [e]) (s.PostFuction task) := by
  have haccepted := h.accepted
  constructor
  · exact h.key
  · simp [PostFuction, haccepts]
    omega
  · exact h.named
  · simpa [hevent, PostFuction] using h.reading
  · simpa [hevent, PostFuction] using h.known
  · simpa [hevent, PostFuction, hcloses, herases] using h.owed
  · simpa [hevent, PostFuction, hcloses, sessionKeys] using h.sessions
  · simpa [hevent, PostFuction, hcloses, herases, userKeys] using h.users
  · exact h.once

/-- The strand runs a function that concerns neither map. -/
theorem Tracked.other {func : τ} (h : Tracked events s) (hhead : s.strand = .other func :: rest) :
    Tracked (events ++ [.run]) { s with strand := rest } := by
  have haccepted := h.accepted
  rw [hhead] at haccepted
  constructor
  · exact h.key
  · simpa [Task.creates, Event.accepts] using haccepted
  · exact h.named
  · simpa [Event.closes] using h.reading
  · simpa [Event.closes] using h.known
  · simpa [Event.closes, hhead, Task.closes, Task.erases] using h.owed
  · simpa [Event.closes, hhead, Task.closes, sessionKeys] using h.sessions
  · simpa [Event.closes, hhead, Task.closes, Task.erases, userKeys] using h.users
  · exact h.once

/-- A read that does not end its session changes nothing that is tracked. -/
theorem Tracked.read_on (h : Tracked events s) (hlength : length ≠ 0) :
    Tracked (events ++ [.read session length]) s := by
  have hclosed : closed (events ++ [.read session length]) = closed events := by
    rw [closed_concat]
    cases length with
    | zero => exact absurd rfl hlength
    | succ n => simp [Event.closes]
  constructor
  · exact h.key
  · simpa [Event.accepts] using h.accepted
  · exact h.named
  · simpa [hclosed] using h.reading
  · simpa [hclosed] using h.known
  · simpa [hclosed] using h.owed
  · simpa [hclosed] using h.sessions
  · simpa [hclosed] using h.users
  · exact h.once

/-- A read that does not end its session is followed by another. -/
theorem read_on (hget : s.created[session]? = some ss) (hreads : ss.reads ≠ 0) (hlength : length ≠ 0) :
    s.read session length = some s := by
  have hsame : (s.created.modify session fun ss => { ss with reads := ss.reads - 1 }).modify session
      Session.do_read = s.created := by
    rw [List.modify_modify_eq]
    refine List.ext_getElem? fun i => ?_
    rw [List.getElem?_modify]
    split
    · rename_i hi
      rw [← hi, hget]
      simp [Session.do_read, Nat.sub_add_cancel (Nat.pos_of_ne_zero hreads)]
    · simp
  simp only [read, hget, if_neg hreads, if_neg hlength, onSession, hsame]

/-- The last read of a session posts its close. -/
theorem Tracked.read_end (h : Tracked events s) (hget : s.created[session]? = some ss)
    (hreads : ss.reads ≠ 0) :
    Tracked (events ++ [.read session 0])
      ((s.onSession session fun ss => { ss with reads := ss.reads - 1 }).PostFuction (.Close session)) := by
  have hlt : session < s.created.length := (List.getElem?_eq_some_iff.mp hget).1
  have hlength : (s.created.modify session fun ss => { ss with reads := ss.reads - 1 }).length =
      s.created.length := List.length_modify _ _ _
  have hopen : session ∉ closed events := by
    have hreading := h.reading session ss hget
    rw [← List.count_eq_zero]
    omega
  have haccepted := h.accepted
  constructor
  · simpa [PostFuction, onSession] using h.key
  · simpa [PostFuction, onSession, Task.creates, Event.accepts] using haccepted
  · intro i ss' hget'
    simp only [PostFuction, onSession, List.getElem?_modify] at hget'
    obtain ⟨old, hold, rfl⟩ := Option.map_eq_some_iff.mp hget'
    split <;> exact h.named i old hold
  · intro i ss' hget'
    simp only [PostFuction, onSession, List.getElem?_modify] at hget'
    obtain ⟨old, hold, rfl⟩ := Option.map_eq_some_iff.mp hget'
    have hreading := h.reading i old hold
    by_cases hi : session = i
    · subst hi
      rw [hget] at hold
      obtain rfl := Option.some.inj hold
      simp [Event.closes]
      omega
    · simpa [Event.closes, hi] using hreading
  · intro i hi
    simp only [closed_concat, Event.closes, Option.toList_some, List.mem_append, List.mem_singleton] at hi
    simp only [PostFuction, onSession, hlength]
    obtain hi | rfl := hi
    · exact h.known i hi
    · exact hlt
  · intro i
    have howed := h.owed i
    simp [PostFuction, onSession, Event.closes, Task.closes, Task.erases, List.count_append]
    omega
  · intro key
    refine (h.sessions key).trans (exists_congr fun i => and_congr_right fun _ => ?_)
    simp only [PostFuction, onSession, hlength, closed_concat, closing_concat, Event.closes, Task.closes,
      Option.toList_some, List.mem_append, List.mem_singleton]
    grind
  · intro key
    refine (h.users key).trans (exists_congr fun i => and_congr_right fun _ => ?_)
    simp only [PostFuction, onSession, hlength, closed_concat, closing_concat, erasing_concat, Event.closes,
      Task.closes, Task.erases, Option.toList_some, Option.toList_none, List.append_nil, List.mem_append,
      List.mem_singleton]
    grind
  · exact h.once

theorem getElem?_concat_eq_some {α : Type} {l : List α} {a b : α} (h : (l ++ [a])[i]? = some b) :
    l[i]? = some b ∨ i = l.length ∧ b = a := by
  obtain hlt | hge := Nat.lt_or_ge i l.length
  · rw [List.getElem?_append_left hlt] at h
    exact .inl h
  · rw [List.getElem?_append_right hge, List.getElem?_singleton] at h
    obtain ⟨hi, hb⟩ := Option.ite_none_right_eq_some.mp h
    exact .inr ⟨by omega, (Option.some.inj hb).symm⟩

/-- One more number is one more key. -/
theorem exists_key_succ {n : Nat} {p : Nat → Prop} (hp : p n) :
    (∃ i : Nat, key = i ∧ i < n + 1 ∧ p i) ↔ (∃ i : Nat, key = i ∧ i < n ∧ p i) ∨ key = n := by
  constructor
  · rintro ⟨i, hkey, hi, hpi⟩
    obtain hlt | rfl := Nat.lt_succ_iff_lt_or_eq.mp hi
    · exact .inl ⟨i, hkey, hlt, hpi⟩
    · exact .inr hkey
  · rintro (⟨i, hkey, hi, hpi⟩ | hkey)
    · exact ⟨i, hkey, by omega, hpi⟩
    · exact ⟨n, hkey, by omega, hp⟩

/-- The strand runs `NewUser`. -/
theorem Tracked.newUser (h : Tracked events s) (hhead : s.strand = .NewUser :: rest) :
    Outcome (Tracked (events ++ [.run])) (· = .keyOverflow) (NewUser { s with strand := rest }) := by
  obtain ⟨hsessions, husers⟩ := h.fresh
  have hkey := h.key
  have haccepted := h.accepted
  have howed := h.owed
  have hsessionKeys := h.sessions
  have huserKeys := h.users
  have hopen : s.created.length ∉ closed events := fun hmem => Nat.lt_irrefl _ (h.known _ hmem)
  rw [hhead] at haccepted howed hsessionKeys huserKeys
  rw [newUser_eq (s := { s with strand := rest }) hsessions husers]
  split
  · constructor
    · simp [hkey]
    · simp [Task.creates, Event.accepts] at haccepted ⊢
      omega
    · intro i ss hget
      obtain hold | ⟨rfl, rfl⟩ := getElem?_concat_eq_some hget
      · exact h.named i ss hold
      · rw [hkey]
    · intro i ss hget
      obtain hold | ⟨rfl, rfl⟩ := getElem?_concat_eq_some hget
      · simpa [Event.closes] using h.reading i ss hold
      · simpa [Event.closes, List.count_eq_zero] using hopen
    · intro i hi
      have hlt := h.known i (by simpa [Event.closes] using hi)
      simp
      omega
    · simpa [Event.closes, Task.closes, Task.erases] using howed
    · intro key
      simp only [closing_cons, Task.closes, Option.toList_none, List.nil_append] at hsessionKeys
      simp only [sessionKeys, closed_concat, Event.closes, Option.toList_none, List.append_nil,
        List.length_append, List.length_singleton, List.map_append, List.map_cons, List.map_nil,
        List.mem_append, List.mem_singleton]
      rw [exists_key_succ fun hmem => absurd hmem hopen, ← hsessionKeys key, ← hkey]
      rfl
    · intro key
      simp only [closing_cons, erasing_cons, Task.closes, Task.erases, Option.toList_none,
        List.nil_append] at huserKeys
      simp only [userKeys, closed_concat, Event.closes, Option.toList_none, List.append_nil,
        List.length_append, List.length_singleton, List.map_append, List.map_cons, List.map_nil,
        List.mem_append, List.mem_singleton]
      rw [exists_key_succ fun hmem => absurd hmem hopen, ← huserKeys key, ← hkey]
      rfl
    · have hsessionsOnce := h.once.1.concat hsessions
      have husersOnce := h.once.2.concat husers
      simp only [List.concat_eq_append] at hsessionsOnce husersOnce
      simp only [sessionKeys, userKeys, List.map_append, List.map_cons, List.map_nil]
      exact ⟨hsessionsOnce, husersOnce⟩
  · rfl

/-- A session whose close is on the strand is open, and is not closed twice. -/
theorem Tracked.of_close (h : Tracked events s) (hhead : s.strand = .Close session :: rest) :
    session ∈ closed events ∧ session ∉ closing rest ∧ (session : Int) ∈ s.sessionKeys ∧
      (session : Int) ∈ s.userKeys := by
  have hone := h.owed session
  have hle := h.count_closed_le session
  rw [hhead, closing_cons, Task.closes, Option.toList_some, List.singleton_append,
    List.count_cons_self] at hone
  have hclosed : session ∈ closed events := List.count_pos_iff.mp (by omega)
  have hclosing : session ∈ closing s.strand := by simp [hhead, Task.closes]
  have hlt := h.known session hclosed
  refine ⟨hclosed, List.count_eq_zero.mp (by omega), ?_, ?_⟩
  · exact (h.sessions _).mpr ⟨session, rfl, hlt, fun _ => hclosing⟩
  · exact (h.users _).mpr ⟨session, rfl, hlt, fun _ => .inl hclosing⟩

/-- The strand runs the close of a session. -/
theorem Tracked.close (h : Tracked events s) (hhead : s.strand = .Close session :: rest) :
    ∃ t, close session { s with strand := rest } = .ok t ∧ Tracked (events ++ [.run]) t := by
  obtain ⟨hclosed, hdone, hsession, huser⟩ := h.of_close hhead
  have haccepted := h.accepted
  have howed := h.owed
  have hsessionKeys := h.sessions
  have huserKeys := h.users
  rw [hhead] at haccepted howed hsessionKeys huserKeys
  simp [Task.creates] at haccepted
  simp only [closing_cons, erasing_cons, Task.closes, Task.erases, Option.toList_some, Option.toList_none,
    List.nil_append, List.singleton_append, List.mem_cons] at howed hsessionKeys huserKeys
  have hkey : (s.created[session]?).bind Session.key = some (session : Int) := by
    rw [List.getElem?_eq_getElem (h.known session hclosed)]
    exact h.named session _ (List.getElem?_eq_getElem (h.known session hclosed))
  refine ⟨_, close_eq (s := { s with strand := rest }) hkey hsession huser, ?_⟩
  constructor
  · exact h.key
  · simpa [Task.creates, Event.accepts] using haccepted
  · exact h.named
  · simpa [Event.closes] using h.reading
  · simpa [Event.closes] using h.known
  · intro i
    have hone := howed i
    simp only [closing_concat, erasing_concat, closed_concat, Event.closes, Task.closes, Task.erases,
      Option.toList_none, Option.toList_some, List.append_nil, List.count_append, List.count_cons,
      List.count_nil, beq_iff_eq, Int.ofNat_inj] at hone ⊢
    omega
  · intro other
    simp only [sessionKeys, mem_keys_filter, closed_concat, closing_concat, Event.closes, Task.closes,
      Option.toList_none, List.append_nil]
    rw [← sessionKeys, hsessionKeys]
    constructor
    · rintro ⟨⟨i, rfl, hi, hlisted⟩, hne⟩
      refine ⟨i, rfl, hi, fun hmem => (hlisted hmem).resolve_left ?_⟩
      rintro rfl
      exact hne rfl
    · rintro ⟨i, rfl, hi, hlisted⟩
      refine ⟨⟨i, rfl, hi, fun hmem => .inr (hlisted hmem)⟩, fun hsame => ?_⟩
      obtain rfl := Int.ofNat_inj.mp hsame
      exact hdone (hlisted hclosed)
  · intro other
    refine (huserKeys other).trans (exists_congr fun i => ?_)
    refine and_congr_right fun _ => and_congr_right fun _ => ?_
    simp only [closed_concat, closing_concat, erasing_concat, Event.closes, Task.closes, Task.erases,
      Option.toList_none, Option.toList_some, List.append_nil, List.mem_append, List.mem_singleton,
      Int.ofNat_inj]
    tauto
  · exact ⟨(List.filter_sublist.map _).nodup h.once.1, h.once.2⟩

/-- The strand runs the erasure of a user. -/
theorem Tracked.eraseUser (h : Tracked events s) (hhead : s.strand = .EraseUser key :: rest) :
    Tracked (events ++ [.run]) (eraseUser key { s with strand := rest }) := by
  have hcount := h.count_closed_le
  have haccepted := h.accepted
  have howed := h.owed
  have hsessionKeys := h.sessions
  have huserKeys := h.users
  rw [hhead] at haccepted howed hsessionKeys huserKeys
  simp only [closing_cons, erasing_cons, Task.closes, Task.erases, Option.toList_some, Option.toList_none,
    List.nil_append, List.singleton_append, List.mem_cons] at howed hsessionKeys huserKeys
  have hdone : ∀ i : Nat, key = i → i ∈ closed events ∧ i ∉ closing rest ∧ (i : Int) ∉ erasing rest := by
    rintro i rfl
    have hone := howed i
    have hle := hcount i
    rw [List.count_cons_self] at hone
    rw [← List.count_pos_iff, ← List.count_eq_zero, ← List.count_eq_zero]
    omega
  constructor
  · exact h.key
  · simpa [Server.eraseUser, Task.creates, Event.accepts] using haccepted
  · exact h.named
  · simpa [Server.eraseUser, Event.closes] using h.reading
  · simpa [Server.eraseUser, Event.closes] using h.known
  · intro i
    have hone := howed i
    simp only [Server.eraseUser, closed_concat, Event.closes, Option.toList_none, List.append_nil]
    rw [List.count_cons] at hone
    omega
  · intro other
    simpa [Server.eraseUser, Event.closes, sessionKeys] using hsessionKeys other
  · intro other
    simp only [Server.eraseUser, userKeys, mem_keys_filter, closed_concat, Event.closes, Option.toList_none,
      List.append_nil]
    rw [← userKeys, huserKeys]
    constructor
    · rintro ⟨⟨i, rfl, hi, hlisted⟩, hne⟩
      exact ⟨i, rfl, hi, fun hmem => (hlisted hmem).imp_right fun hin => hin.resolve_left hne⟩
    · rintro ⟨i, rfl, hi, hlisted⟩
      refine ⟨⟨i, rfl, hi, fun hmem => (hlisted hmem).imp_right .inr⟩, fun hsame => ?_⟩
      obtain ⟨hclosed, hclosing, herasing⟩ := hdone i hsame.symm
      exact (hlisted hclosed).elim hclosing herasing
  · exact ⟨h.once.1, (List.filter_sublist.map _).nodup h.once.2⟩

/-- The strand runs its next function. Only the last `int` stops it. -/
theorem Tracked.perform (h : Tracked events s) (hhead : s.strand = task :: rest) :
    Outcome (Tracked (events ++ [.run])) (· = .keyOverflow) (perform { s with strand := rest } task) := by
  cases task with
  | NewUser => exact h.newUser hhead
  | Close session =>
    obtain ⟨t, ht, htracked⟩ := h.close hhead
    rw [Server.perform, ht]
    exact htracked
  | EraseUser key => exact h.eraseUser hhead
  | other func => exact h.other hhead

/-- Every step keeps track of the connections. -/
theorem Tracked.next (h : Tracked events s) (hnext : OfOption next s e t) : Tracked (events ++ [e]) t := by
  unfold OfOption at hnext
  cases e with
  | accept =>
    obtain rfl := Option.some.inj hnext
    exact h.post rfl rfl rfl rfl
  | post func =>
    obtain rfl := Option.some.inj hnext
    exact h.post rfl rfl rfl rfl
  | read session length =>
    rw [Server.next] at hnext
    cases hget : s.created[session]? with
    | none => simp [read, hget] at hnext
    | some ss =>
      by_cases hreads : ss.reads = 0
      · simp [read, hget, hreads] at hnext
      by_cases hlength : length = 0
      · subst hlength
        simp only [read, hget, if_neg hreads, if_true] at hnext
        obtain rfl := Option.some.inj hnext
        exact h.read_end hget hreads
      · rw [Server.read_on hget hreads hlength] at hnext
        obtain rfl := Option.some.inj hnext
        exact h.read_on hlength
  | run =>
    cases hhead : s.strand with
    | nil => simp [Server.next, hhead] at hnext
    | cons task rest =>
      simp only [Server.next, hhead] at hnext
      exact (h.perform hhead).toOption hnext

theorem tracked_of_run (hrun : Run (OfOption next) start events s) : Tracked events s := by
  apply hrun.invariant_trace
  · exact tracked_start
  · exact fun past a e b ha hnext => ha.next hnext

/-- In every state that is reached the strand can run its next function, without a null
pointer or a key that was not set, unless the keys have run out. -/
theorem run_performs (hrun : Run (OfOption next) start events s) (hhead : s.strand = task :: rest) :
    Outcome (fun _ => True) (· = .keyOverflow) (perform { s with strand := rest } task) :=
  ((tracked_of_run hrun).perform hhead).imp (fun _ _ => trivial) fun _ => id

theorem Tracked.assigned_once (h : Tracked events s) : s.assignedKeys.Nodup := by
  unfold assignedKeys List.Nodup
  rw [List.pairwise_filterMap, List.pairwise_iff_getElem]
  intro i j hi hj hlt key hkey other hother hsame
  rw [h.named i _ (List.getElem?_eq_getElem hi)] at hkey
  rw [h.named j _ (List.getElem?_eq_getElem hj)] at hother
  have hkey := Option.some.inj hkey
  have hother := Option.some.inj hother
  omega

/-- The connection of the session with this key was accepted, and its close was not posted. -/
def IsOpen (events : List (Event τ)) (s : Server τ) (key : Int) : Prop :=
  ∃ i ss, s.created[i]? = some ss ∧ ss.key = some key ∧ i ∉ closed events

theorem Tracked.isOpen_iff (h : Tracked events s) :
    IsOpen events s key ↔ ∃ i : Nat, key = i ∧ i < s.created.length ∧ i ∉ closed events := by
  constructor
  · rintro ⟨i, ss, hget, hkey, hnot⟩
    rw [h.named i ss hget] at hkey
    exact ⟨i, (Option.some.inj hkey).symm, (List.getElem?_eq_some_iff.mp hget).1, hnot⟩
  · rintro ⟨i, rfl, hi, hnot⟩
    have hget := List.getElem?_eq_getElem hi
    exact ⟨i, _, hget, h.named i _ hget, hnot⟩

/-- Over every run of accepted connections, reads and tasks no key is assigned twice and
no close posted twice, and every session's key is a user's. Once the strand is empty each
accepted connection has had its session, and the keys of the sessions and of the users are
those of the open connections. -/
theorem run_bijective (hrun : Run (OfOption next) start events s) :
    s.assignedKeys.Nodup ∧ (closed events).Nodup ∧ (∀ key ∈ s.sessionKeys, key ∈ s.userKeys) ∧
      (s.strand = [] → s.created.length = Server.accepted events ∧ s.sessionKeys.Perm s.userKeys ∧
        ∀ key, key ∈ s.sessionKeys ↔ IsOpen events s key) := by
  have h := tracked_of_run hrun
  refine ⟨h.assigned_once, List.nodup_iff_count.mpr h.count_closed_le, fun key hkey => ?_,
    fun hempty => ?_⟩
  · obtain ⟨i, hi, hlt, hlisted⟩ := (h.sessions key).mp hkey
    exact (h.users key).mpr ⟨i, hi, hlt, fun hmem => .inl (hlisted hmem)⟩
  · have haccepted := h.accepted
    have hsessions := h.sessions
    have husers := h.users
    simp only [hempty, creating, closing, erasing, List.countP_nil, List.filterMap_nil, List.not_mem_nil,
      or_false] at haccepted hsessions husers
    refine ⟨haccepted, ?_, fun key => (hsessions key).trans h.isOpen_iff.symm⟩
    rw [List.perm_ext_iff_of_nodup h.once.1 h.once.2]
    exact fun key => (hsessions key).trans (husers key).symm

/-- Two connections, of which the first is closed. -/
theorem run_one_of_two_closed :
    ∃ s : Server Unit, Run (OfOption next) start [.accept, .accept, .run, .run, .read 0 0, .run, .run] s ∧
      s.sessionKeys = [1] ∧ s.sessionKeys.Perm s.userKeys := by
  have hrun : Run (OfOption next) start [.accept, .accept, .run, .run, .read 0 0, .run, .run]
      (⟨2, [⟨some 0, some 0, 0⟩, ⟨some 1, some 1, 1⟩], [(1, 1)], [(1, ⟨some 1⟩)], []⟩ : Server Unit) :=
    run_ofOption_iff.mpr (by decide)
  exact ⟨_, hrun, rfl, ((run_bijective hrun).2.2.2 rfl).2.1⟩

end Server

end AsioGameServer.asio
