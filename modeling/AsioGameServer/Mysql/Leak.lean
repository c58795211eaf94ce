import AsioGameServer.Lib.Transition
import AsioGameServer.Mysql.Execute

open Transition

namespace AsioGameServer.mysql

/-- A call in progress: it waits for a connection, or goes on with the pointer it
has obtained. -/
inductive Call where
  | waiting (op : Operation)
  | running (op : Operation) (conn : Option MYSQL)
deriving DecidableEq, Repr

/-- The connection a call has obtained. -/
def Call.lent : Call → List MYSQL
  | .waiting _ => []
  | .running _ conn => conn.toList

/-- A call that has returned, with the number of times it put its connection back. -/
structure Returned where
  op : Operation
  conn : Option MYSQL
  puts : Nat
  answer : Answer
deriving DecidableEq, Repr

/-- A pool and the calls of its execute operations. -/
structure Clients where
  pool : MysqlPool
  calls : List Call
  returned : List Returned

namespace Clients

/-- The interleaved steps of the calls: a call begins, asks `getOneConnect` once,
or runs to its end with the pointer it has. -/
inductive Event where
  | begin (op : Operation)
  | getOneConnect (i : Nat) (answers : Answers)
  | finish (i : Nat) (reply : Reply)

/-- A pool whose counter happens to start at `connect_count`, without calls. -/
def start (connect_count MAX_CONNECT : UInt32) : Clients :=
  ⟨.setParameter connect_count MAX_CONNECT, [], []⟩

/-- One iteration of `getContinueConnect`, or the one `getOneConnect` of
`executeSql(sql)`, which goes on with a null pointer too. -/
def connect (s : Clients) (i : Nat) (op : Operation) (answers : Answers) : Clients :=
  let (obtained, pool) := s.pool.getOneConnect answers
  if op.waits ∧ obtained.pointer = none then { s with pool }
  else { s with pool, calls := s.calls.set i (.running op obtained.pointer) }

/-- A call that returns. The count is the number of its connections that it added
to the idle queue. -/
def finish (s : Clients) (i : Nat) (op : Operation) (conn : Option MYSQL) (result : Answer × MysqlPool) :
    Clients :=
  let puts := conn.elim 0 fun c => result.2.mysqlpool.count c - s.pool.mysqlpool.count c
  { pool := result.2, calls := s.calls.eraseIdx i, returned := s.returned ++ [⟨op, conn, puts, result.1⟩] }

def step (s : Clients) : Event → Option Clients
  | .begin op => some { s with calls := s.calls ++ [.waiting op] }
  | .getOneConnect i answers =>
    match s.calls[i]? with
    | some (.waiting op) => some (s.connect i op answers)
    | _ => none
  | .finish i reply =>
    match s.calls[i]? with
    | some (.running op conn) => (s.pool.execute conn reply op).map (s.finish i op conn)
    | _ => none

/-- No connection leaks: every call that has returned put its connection back once,
and while no call is in progress, the idle queue holds each live connection once
and `getOneConnect` is not refused. -/
structure Released (s : Clients) : Prop where
  once : ∀ r ∈ s.returned, ∀ c, r.conn = some c → r.puts = 1
  idle : s.calls = [] → s.pool.live.Perm s.pool.mysqlpool
  admitted : s.calls = [] → ∀ answers, (s.pool.getOneConnect answers).1 ≠ .refused

/-- The condition on a step: no call of `executeSql_Vector(sql, result)` ends after
a query that succeeded. -/
def PutsBack (s : Clients) : Event → Prop
  | .finish i reply =>
    match s.calls[i]? with
    | some (.running op (some _)) => ¬ op.keeps reply
    | _ => True
  | _ => True

/-- The connections of the calls in progress. -/
def lent (s : Clients) : List MYSQL := s.calls.flatMap Call.lent

structure Kept (base : UInt32) (s : Clients) : Prop where
  books : s.pool.Accounted base s.lent
  once : ∀ r ∈ s.returned, ∀ c, r.conn = some c → r.puts = 1

variable {base : UInt32} {s t : Clients} {e : Event}

theorem Kept.released (h : Kept base s) : s.Released := by
  refine ⟨h.once, fun hcalls => ?_, fun hcalls answers hrefused => ?_⟩
  · simpa [lent, hcalls] using h.books.perm
  · exact h.books.getOneConnect_refused hrefused (by simp [lent, hcalls])

theorem Kept.connect {i : Nat} {op : Operation} {answers : Answers} (h : Kept base s)
    (hcall : s.calls[i]? = some (.waiting op)) : Kept base (s.connect i op answers) := by
  obtain ⟨before, after, hsplit, _, hset⟩ := split_of_getElem? hcall
  have hbooks := h.books.getOneConnect answers
  have hlent : s.lent = before.flatMap Call.lent ++ after.flatMap Call.lent := by
    simp [lent, hsplit, Call.lent]
  unfold Clients.connect
  simp only
  split_ifs with hnull
  · refine ⟨?_, h.once⟩
    rw [hnull.2] at hbooks
    exact hbooks
  · refine ⟨hbooks.congr ?_, h.once⟩
    rw [hlent]
    simp only [lent, hset, List.flatMap_append, List.flatMap_cons, Call.lent]
    rw [← List.append_assoc, ← List.append_assoc]
    exact List.perm_append_comm.append_right _

/-- The connection of a call that runs, besides those of the other calls. -/
theorem Kept.lent_running {i : Nat} {op : Operation} {conn : Option MYSQL} (h : Kept base s)
    (hcall : s.calls[i]? = some (.running op conn)) :
    s.pool.Accounted base (conn.toList ++ (s.calls.eraseIdx i).flatMap Call.lent) := by
  obtain ⟨before, after, hsplit, herase, _⟩ := split_of_getElem? hcall
  refine h.books.congr ?_
  rw [herase, lent, hsplit]
  simp only [List.flatMap_append, List.flatMap_cons, Call.lent]
  rw [← List.append_assoc, ← List.append_assoc]
  exact List.perm_append_comm.append_right _

theorem Kept.finish {i : Nat} {op : Operation} {conn : Option MYSQL} {reply : Reply}
    {result : Answer × MysqlPool} (h : Kept base s) (hcall : s.calls[i]? = some (.running op conn))
    (hexec : s.pool.execute conn reply op = some result) (hok : s.PutsBack (.finish i reply)) :
    Kept base (s.finish i op conn result) := by
  have hlent := h.lent_running hcall
  have honce : ∀ puts, (∀ c, conn = some c → puts = 1) →
      ∀ r ∈ s.returned ++ [⟨op, conn, puts, result.1⟩], ∀ c, r.conn = some c → r.puts = 1 := by
    intro puts hputs r hr c hc
    rcases List.mem_append.mp hr with hr | hr
    · exact h.once r hr c hc
    · obtain rfl := List.mem_singleton.mp hr
      exact hputs c hc
  cases conn with
  | none =>
    have hpool := execute_pool_none hexec
    refine ⟨?_, honce _ (by simp)⟩
    rw [Clients.finish, hpool]
    exact hlent
  | some conn =>
    have hkeeps : ¬ op.keeps reply := by simpa [PutsBack, hcall] using hok
    have hpool := execute_pool hexec
    rw [if_neg hkeeps] at hpool
    refine ⟨?_, honce _ fun c _ => ?_⟩
    · rw [Clients.finish, hpool]
      exact hlent.close
    · simp [hpool, MysqlPool.close]

theorem Kept.step (h : Kept base s) (hok : s.PutsBack e) (hstep : s.step e = some t) : Kept base t := by
  cases e with
  | begin op =>
    obtain rfl := Option.some.inj hstep
    exact ⟨by simpa [lent, Call.lent] using h.books, h.once⟩
  | getOneConnect i answers =>
    simp only [Clients.step] at hstep
    split at hstep
    · rename_i op hcall
      obtain rfl := Option.some.inj hstep
      exact h.connect hcall
    · cases hstep
  | finish i reply =>
    simp only [Clients.step] at hstep
    split at hstep
    · rename_i op conn hcall
      obtain ⟨result, hexec, rfl⟩ := Option.map_eq_some_iff.mp hstep
      exact h.finish hcall hexec hok
    · cases hstep

/-- A call that ends against the condition has not put its connection back. -/
theorem putsBack_of_once (hstep : s.step e = some t)
    (honce : ∀ r ∈ t.returned, ∀ c, r.conn = some c → r.puts = 1) : s.PutsBack e := by
  cases e with
  | begin op => trivial
  | getOneConnect i answers => trivial
  | finish i reply =>
    simp only [PutsBack]
    split
    · rename_i op conn hcall
      intro hkeeps
      simp only [Clients.step, hcall] at hstep
      obtain ⟨result, hexec, rfl⟩ := Option.map_eq_some_iff.mp hstep
      have hpool := execute_pool hexec
      rw [if_pos hkeeps] at hpool
      have hputs := honce ⟨op, some conn, _, result.1⟩ (List.mem_append_right _ (List.mem_singleton_self _))
        conn rfl
      simp [hpool] at hputs
    · trivial

/-- A run releases every connection, in each of its states, exactly when the
counter started below `MAX_CONNECT` and no call of `executeSql_Vector(sql, result)`
ends after a query that succeeded. -/
theorem run_releases_iff (connect_count MAX_CONNECT : UInt32) (events : List Event) (t : Clients)
    (hrun : Run (OfOption step) (start connect_count MAX_CONNECT) events t) :
    (∀ past future s, events = past ++ future →
        Run (OfOption step) (start connect_count MAX_CONNECT) past s → s.Released) ↔
      connect_count < MAX_CONNECT ∧
        Run (Guarded PutsBack (OfOption step)) (start connect_count MAX_CONNECT) events t := by
  have hiff (hroom : connect_count < MAX_CONNECT) :=
    have hstart : Kept connect_count (start connect_count MAX_CONNECT) :=
      ⟨MysqlPool.accounted_setParameter hroom, by simp [start]⟩
    run_guarded_iff_throughout (deterministic_ofOption step)
      (fun _ _ _ (ha : Kept connect_count _) hok hstep => ha.step hok hstep)
      (fun a e b ha hstep => ⟨fun hok => (ha.step hok hstep).released,
        fun hb => putsBack_of_once hstep hb.once⟩)
      hstart hstart.released hrun
  constructor
  · intro hall
    have hroom : connect_count < MAX_CONNECT := by
      have hfirst := (hall [] events _ rfl (.nil _)).admitted rfl ⟨fun _ => false, true, true⟩
      by_contra hfull
      simp [MysqlPool.getOneConnect, start, MysqlPool.setParameter, MysqlPool.connectBelowLimit, hfull] at hfirst
    exact ⟨hroom, (hiff hroom).mpr hall⟩
  · rintro ⟨hroom, hguarded⟩
    exact (hiff hroom).mp hguarded

/-- One statement on a fresh pool: its connection is idle afterwards. -/
theorem run_releases_one_statement :
    ∃ t, Run (OfOption step) (start 0 1)
        [.begin .executeSql, .getOneConnect 0 ⟨fun _ => false, true, true⟩, .finish 0 ⟨true, none⟩] t ∧
      t.pool.mysqlpool = [0] ∧ ∀ past future s,
        [.begin .executeSql, .getOneConnect 0 ⟨fun _ => false, true, true⟩, .finish 0 ⟨true, none⟩] =
          past ++ future → Run (OfOption step) (start 0 1) past s → s.Released := by
  have hrun : Run (Guarded PutsBack (OfOption step)) (start 0 1)
      [.begin .executeSql, .getOneConnect 0 ⟨fun _ => false, true, true⟩, .finish 0 ⟨true, none⟩] _ :=
    .cons ⟨trivial, rfl⟩ (.cons ⟨trivial, rfl⟩ (.cons ⟨id, rfl⟩ (.nil _)))
  exact ⟨_, hrun.of_guarded, rfl,
    (run_releases_iff 0 1 _ _ hrun.of_guarded).mpr ⟨by decide, hrun⟩⟩

/-- A pool of one connection and one query of `executeSql_Vector(sql, result)` that
succeeds: the connection is neither closed nor put back, and no other call gets one. -/
theorem vector_result_keeps_connection :
    ∃ events t, Run (OfOption step) (start 0 1) events t ∧ t.calls = [] ∧
      t.returned = [⟨.executeSql_Vector_result [], some 0, 0, .vector_result true []⟩] ∧
      t.pool.live = [0] ∧ t.pool.mysqlpool = [] ∧
      (∀ answers, (t.pool.getOneConnect answers).1 = .refused) ∧ ¬ t.Released := by
  have hrun : Run (OfOption step) (start 0 1)
      [.begin (.executeSql_Vector_result []), .getOneConnect 0 ⟨fun _ => false, true, true⟩,
        .finish 0 ⟨true, none⟩] _ :=
    .cons rfl (.cons rfl (.cons rfl (.nil _)))
  refine ⟨_, _, hrun, rfl, rfl, rfl, rfl, fun _ => rfl, fun hreleased => ?_⟩
  exact hreleased.admitted rfl ⟨fun _ => false, true, true⟩ rfl

end Clients

end AsioGameServer.mysql
