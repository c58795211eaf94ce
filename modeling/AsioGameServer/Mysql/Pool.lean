import Mathlib.Data.List.Perm.Basic
import Mathlib.Data.List.Nodup
import Mathlib.Tactic.Common

namespace AsioGameServer.mysql

/-- A connection handle. -/
abbrev MYSQL := Nat

/-- The fields of `MysqlPool` its functions work on. `live` records the
connections that were opened and not closed, and `opened` counts them all, so
that a new handle differs from every other. -/
structure MysqlPool where
  mysqlpool : List MYSQL
  MAX_CONNECT : UInt32
  connect_count : UInt32
  live : List MYSQL
  opened : Nat

/-- What the client library answers within one `getOneConnect`: whether
`mysql_ping` fails on a connection, and whether `mysql_init` and
`mysql_real_connect` succeed. -/
structure Answers where
  mysql_ping : MYSQL → Bool
  mysql_init : Bool
  mysql_real_connect : Bool

/-- How `getOneConnect` ends: with a connection, without one because none could be
opened, or without one because there are too many. The last two return null. -/
inductive Obtained where
  | conn (conn : MYSQL)
  | failed
  | refused
deriving DecidableEq, Repr

/-- The pointer `getOneConnect` returns. -/
def Obtained.pointer : Obtained → Option MYSQL
  | .conn c => some c
  | _ => none

namespace MysqlPool

/-- The constructor and `setParameter`. The constructor leaves `connect_count`
uninitialised. -/
def setParameter (connect_count MAX_CONNECT : UInt32) : MysqlPool := ⟨[], MAX_CONNECT, connect_count, [], 0⟩

def createOneConnect (p : MysqlPool) (a : Answers) : Obtained × MysqlPool :=
  if a.mysql_init then
    if a.mysql_real_connect then
      (.conn p.opened,
        { p with
          connect_count := p.connect_count + 1
          live := p.live ++ [p.opened]
          opened := p.opened + 1 })
    else (.failed, p)
  else (.failed, p)

/-- The loop of `getOneConnect` that closes idle connections from the front of the
queue while `mysql_ping` fails on them. -/
def closeDead (mysql_ping : MYSQL → Bool) (p : MysqlPool) : List MYSQL → MysqlPool
  | [] => { p with mysqlpool := [] }
  | front :: rest =>
    if mysql_ping front then
      closeDead mysql_ping
        { p with live := p.live.erase front, connect_count := p.connect_count - 1 } rest
    else { p with mysqlpool := front :: rest }

/-- The branch of `getOneConnect` for an empty queue, which occurs twice in it. -/
def connectBelowLimit (p : MysqlPool) (a : Answers) : Obtained × MysqlPool :=
  if p.connect_count < p.MAX_CONNECT then p.createOneConnect a else (.refused, p)

def getOneConnect (p : MysqlPool) (a : Answers) : Obtained × MysqlPool :=
  if p.mysqlpool ≠ [] then
    let p := closeDead a.mysql_ping p p.mysqlpool
    match p.mysqlpool with
    | conn :: rest => (.conn conn, { p with mysqlpool := rest })
    | [] => p.connectBelowLimit a
  else p.connectBelowLimit a

/-- `MysqlPool::close`, which puts a connection back. -/
def close (p : MysqlPool) : Option MYSQL → MysqlPool
  | some conn => { p with mysqlpool := p.mysqlpool ++ [conn] }
  | none => p

/-- The books of a pool whose counter started at `base`: every live connection is
idle or lent, once, and the counter has counted the live ones. -/
structure Accounted (base : UInt32) (lent : List MYSQL) (p : MysqlPool) : Prop where
  perm : p.live.Perm (p.mysqlpool ++ lent)
  nodup : p.live.Nodup
  fresh : ∀ c ∈ p.live, c < p.opened
  count : p.connect_count.toNat = base.toNat + p.live.length
  bound : p.connect_count ≤ p.MAX_CONNECT
  room : base < p.MAX_CONNECT

variable {base : UInt32} {lent : List MYSQL} {p : MysqlPool} {a : Answers}

theorem accounted_setParameter {MAX_CONNECT : UInt32} (h : base < MAX_CONNECT) :
    Accounted base [] (setParameter base MAX_CONNECT) :=
  ⟨.nil, .nil, by simp [setParameter], by simp [setParameter], UInt32.le_of_lt h, h⟩

theorem Accounted.congr {lent' : List MYSQL} (h : Accounted base lent p) (hlent : lent.Perm lent') :
    Accounted base lent' p :=
  ⟨h.perm.trans (hlent.append_left _), h.nodup, h.fresh, h.count, h.bound, h.room⟩

theorem Accounted.close {conn : MYSQL} (h : Accounted base (conn :: lent) p) :
    Accounted base lent (p.close (some conn)) := by
  refine ⟨h.perm.trans ?_, h.nodup, h.fresh, h.count, h.bound, h.room⟩
  rw [MysqlPool.close, List.append_assoc]
  rfl

theorem createOneConnect_ne_refused : (p.createOneConnect a).1 ≠ .refused := by
  unfold createOneConnect
  split_ifs <;> simp

theorem Accounted.createOneConnect (h : Accounted base lent p) (hroom : p.connect_count < p.MAX_CONNECT) :
    Accounted base ((p.createOneConnect a).1.pointer.toList ++ lent) (p.createOneConnect a).2 := by
  unfold MysqlPool.createOneConnect
  split_ifs
  · have hcount : (p.connect_count + 1).toNat = p.connect_count.toNat + 1 := by
      have hmax := p.MAX_CONNECT.toNat_lt
      rw [UInt32.lt_iff_toNat_lt] at hroom
      rw [UInt32.toNat_add]
      exact Nat.mod_eq_of_lt (Nat.lt_of_le_of_lt hroom hmax)
    refine ⟨?_, ?_, ?_, ?_, ?_, h.room⟩
    · refine (h.perm.append_right _).trans ?_
      rw [List.append_assoc]
      exact List.perm_append_comm.append_left _
    · refine List.nodup_append.mpr ⟨h.nodup, by simp, ?_⟩
      intro c hc d hd
      rw [List.mem_singleton.mp hd]
      exact Nat.ne_of_lt (h.fresh c hc)
    · intro c hc
      rcases List.mem_append.mp hc with hc | hc
      · exact Nat.lt_succ_of_lt (h.fresh c hc)
      · exact (List.mem_singleton.mp hc) ▸ Nat.lt_succ_self _
    · rw [hcount, h.count, List.length_append, List.length_singleton]
      omega
    · rw [UInt32.le_iff_toNat_le, hcount]
      exact UInt32.lt_iff_toNat_lt.mp hroom
  · exact h
  · exact h

/-- Closing the connection at the front of the queue. -/
theorem Accounted.closeFront {front : MYSQL} {rest : List MYSQL}
    (h : Accounted base lent { p with mysqlpool := front :: rest }) :
    Accounted base lent
      { p with mysqlpool := rest, live := p.live.erase front, connect_count := p.connect_count - 1 } := by
  have hmem : front ∈ p.live := h.perm.mem_iff.mpr (by simp)
  have hpos : 0 < p.live.length := List.length_pos_of_mem hmem
  have hcount : p.connect_count.toNat = base.toNat + p.live.length := h.count
  have hone : (1 : UInt32) ≤ p.connect_count := by
    rw [UInt32.le_iff_toNat_le, hcount]
    exact Nat.le_trans hpos (Nat.le_add_left _ _)
  have hless : (p.connect_count - 1).toNat = p.connect_count.toNat - 1 := UInt32.toNat_sub_of_le _ _ hone
  refine ⟨?_, h.nodup.erase front, fun c hc => h.fresh c (List.mem_of_mem_erase hc), ?_, ?_, h.room⟩
  · simpa using h.perm.erase front
  · rw [hless, hcount, List.length_erase_of_mem hmem]
    omega
  · refine UInt32.le_trans ?_ h.bound
    rw [UInt32.le_iff_toNat_le, hless]
    exact Nat.sub_le _ _

/-- Closing dead connections keeps the books. -/
theorem Accounted.closeDead {queue : List MYSQL} (mysql_ping : MYSQL → Bool)
    (h : Accounted base lent { p with mysqlpool := queue }) :
    Accounted base lent (closeDead mysql_ping p queue) := by
  induction queue generalizing p with
  | nil => exact h
  | cons front rest ih =>
    unfold MysqlPool.closeDead
    split_ifs
    · exact ih h.closeFront
    · exact h

theorem Accounted.connectBelowLimit (h : Accounted base lent p) :
    Accounted base ((p.connectBelowLimit a).1.pointer.toList ++ lent) (p.connectBelowLimit a).2 := by
  unfold MysqlPool.connectBelowLimit
  split_ifs with hroom
  · exact h.createOneConnect hroom
  · exact h

/-- With an empty queue, only lent connections fill the count up. -/
theorem Accounted.connectBelowLimit_refused (h : Accounted base lent p) (hempty : p.mysqlpool = [])
    (hrefused : (p.connectBelowLimit a).1 = .refused) : lent ≠ [] := by
  unfold MysqlPool.connectBelowLimit at hrefused
  split_ifs at hrefused with hroom
  · exact absurd hrefused createOneConnect_ne_refused
  · rintro rfl
    have hlive : p.live = [] := by simpa [hempty] using h.perm
    have hcount := h.count
    have hbase := UInt32.lt_iff_toNat_lt.mp h.room
    rw [UInt32.lt_iff_toNat_lt, hcount, hlive, List.length_nil, Nat.add_zero] at hroom
    exact hroom hbase

/-- `getOneConnect` keeps the books, with the connection it returns lent. -/
theorem Accounted.getOneConnect (h : Accounted base lent p) (a : Answers) :
    Accounted base ((p.getOneConnect a).1.pointer.toList ++ lent) (p.getOneConnect a).2 := by
  unfold MysqlPool.getOneConnect
  split_ifs
  · have hclosed := Accounted.closeDead a.mysql_ping h
    simp only
    split
    · rename_i conn rest hfront
      refine ⟨hclosed.perm.trans ?_, hclosed.nodup, hclosed.fresh, hclosed.count, hclosed.bound, hclosed.room⟩
      rw [hfront]
      exact List.perm_middle.symm
    · exact hclosed.connectBelowLimit
  · exact h.connectBelowLimit

/-- `getOneConnect` refuses only while some connection is lent. -/
theorem Accounted.getOneConnect_refused (h : Accounted base lent p)
    (hrefused : (p.getOneConnect a).1 = .refused) : lent ≠ [] := by
  unfold MysqlPool.getOneConnect at hrefused
  split_ifs at hrefused with hempty
  · have hclosed := Accounted.closeDead a.mysql_ping h
    simp only at hrefused
    split at hrefused
    · cases hrefused
    · exact hclosed.connectBelowLimit_refused ‹_› hrefused
  · exact h.connectBelowLimit_refused (by simpa using hempty) hrefused

end MysqlPool

end AsioGameServer.mysql
