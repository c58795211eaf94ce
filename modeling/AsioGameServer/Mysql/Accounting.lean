import AsioGameServer.Lib.Transition
import AsioGameServer.Mysql.Pool

open Transition

namespace AsioGameServer.mysql

/-- A pool and the connections its clients hold. -/
structure Leases where
  pool : MysqlPool
  lent : List MYSQL

namespace Leases

/-- The calls of the clients, each of which holds the pool's lock: a client asks for
a connection, or passes to `close` a connection it holds or a null pointer. -/
inductive Call where
  | getOneConnect (answers : Answers)
  | close (conn : Option MYSQL)

/-- A pool after its constructor and `setParameter`, without clients. -/
def start (connect_count MAX_CONNECT : UInt32) : Leases := ⟨.setParameter connect_count MAX_CONNECT, []⟩

/-- A connection that is returned is no longer held, so it is returned once. -/
def next (s : Leases) : Call → Option Leases
  | .getOneConnect answers =>
    let (obtained, pool) := s.pool.getOneConnect answers
    some ⟨pool, obtained.pointer.toList ++ s.lent⟩
  | .close none => some ⟨s.pool.close none, s.lent⟩
  | .close (some conn) =>
    if conn ∈ s.lent then some ⟨s.pool.close (some conn), s.lent.erase conn⟩ else none

/-- The pool is in balance: the counter is the number of its connections, idle or
lent, within the limit, each connection is idle or lent to one holder, and the lent
ones are open. -/
structure Balanced (s : Leases) : Prop where
  count : s.pool.connect_count.toNat = s.pool.mysqlpool.length + s.lent.length
  bound : s.pool.connect_count ≤ s.pool.MAX_CONNECT
  once : (s.pool.mysqlpool ++ s.lent).Nodup
  opened : ∀ conn ∈ s.lent, conn ∈ s.pool.live

variable {s t : Leases} {call : Call} {calls : List Call} {base connect_count MAX_CONNECT : UInt32}

theorem balanced_of_accounted (h : s.pool.Accounted 0 s.lent) : s.Balanced := by
  refine ⟨?_, h.bound, h.perm.nodup_iff.mp h.nodup, fun conn hconn => ?_⟩
  · rw [h.count, h.perm.length_eq, List.length_append, UInt32.toNat_zero, Nat.zero_add]
  · exact h.perm.mem_iff.mpr (List.mem_append_right _ hconn)

/-- Every call keeps the books of the pool. -/
theorem accounted_next (h : s.pool.Accounted base s.lent) (hnext : OfOption next s call t) :
    t.pool.Accounted base t.lent := by
  unfold OfOption next at hnext
  cases call with
  | getOneConnect answers =>
    obtain rfl := Option.some.inj hnext
    exact h.getOneConnect answers
  | close conn =>
    cases conn with
    | none =>
      obtain rfl := Option.some.inj hnext
      exact h
    | some conn =>
      obtain ⟨hheld, hclosed⟩ := Option.ite_none_right_eq_some.mp hnext
      obtain rfl := Option.some.inj hclosed
      exact (h.congr (List.perm_cons_erase hheld)).close

/-- A pool whose limit is 0 never opens a connection. -/
theorem refused_next (hnext : OfOption next (start 0 0) call t) : t = start 0 0 := by
  unfold OfOption next at hnext
  cases call with
  | getOneConnect answers => exact (Option.some.inj hnext).symm
  | close conn =>
    cases conn with
    | none => exact (Option.some.inj hnext).symm
    | some conn => simp [start] at hnext

theorem balanced_of_run (hrun : Run (OfOption next) (start 0 MAX_CONNECT) calls s) : s.Balanced := by
  by_cases hroom : 0 < MAX_CONNECT
  · apply balanced_of_accounted
    apply hrun.invariant
    · exact MysqlPool.accounted_setParameter hroom
    · exact fun a call b ha hnext => accounted_next ha hnext
  · obtain rfl : MAX_CONNECT = 0 := by
      rw [UInt32.lt_iff_toNat_lt, UInt32.toNat_zero] at hroom
      rw [← UInt32.toNat_inj, UInt32.toNat_zero]
      omega
    have hsame : s = start 0 0 := by
      apply hrun.invariant
      · rfl
      · rintro a call b rfl hnext
        exact refused_next hnext
    rw [hsame]
    exact ⟨by decide, by decide, by decide, by simp [start]⟩

/-- Every run is balanced exactly where the counter, which the constructor leaves
alone, happens to be 0. -/
theorem runs_balanced_iff (connect_count MAX_CONNECT : UInt32) :
    (∀ calls s, Run (OfOption next) (start connect_count MAX_CONNECT) calls s → s.Balanced) ↔
      connect_count = 0 := by
  constructor
  · intro hruns
    have hcount := (hruns [] _ (.nil _)).count
    rw [← UInt32.toNat_inj, UInt32.toNat_zero]
    exact hcount
  · rintro rfl calls s hrun
    exact balanced_of_run hrun

/-- A counter that starts at the limit makes the pool refuse its first client. -/
theorem full_without_connections :
    ∃ calls s, Run (OfOption next) (start 10 10) calls s ∧ s.pool.mysqlpool = [] ∧ s.lent = [] ∧
      ¬ s.Balanced := by
  refine ⟨[.getOneConnect ⟨fun _ => false, true, true⟩], start 10 10, .cons rfl (.nil _), rfl, rfl, ?_⟩
  intro hbalanced
  have hcount := hbalanced.count
  simp [start, MysqlPool.setParameter] at hcount

end Leases

end AsioGameServer.mysql
