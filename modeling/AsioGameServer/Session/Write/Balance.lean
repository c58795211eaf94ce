import Mathlib.Data.List.Perm.Basic
import AsioGameServer.Lib.Tiling
import AsioGameServer.Session.Write

open Transition Tiling

namespace AsioGameServer.session

/-- The length of the queue after a task, leaving out what the task posts. -/
def Task.effect (queued : Nat) : Task → Nat
  | .push_send _ (some _) => queued + 1
  | .push_send _ none => queued
  | .push_rest _ => queued + 1
  | .do_write => queued - 1

/-- Tasks that are going to post a `do_write` when they run. -/
def Task.posts : Task → Bool
  | .push_send _ (some _) => true
  | _ => false

/-- The element a task is going to put into the queue. -/
def Task.token : Task → List Outgoing
  | .push_send id (some sb) => [⟨id, sb, 0⟩]
  | .push_rest rest => [rest]
  | _ => []

/-- The element a write leaves to its handler. -/
def Handler.token : Handler → List Outgoing
  | .written o length => [o.advance length]
  | .reposted => []

namespace WriteSide

variable {s t : WriteSide} {e : Event} {id : Nat}

/-- The calls of `do_write` that running tasks and handlers still owe. -/
def promised (s : WriteSide) : Nat :=
  s.strand.countP Task.posts + s.handlers.countP (· = .reposted)

/-- Once the strand has run all of its tasks, no more elements are left in the
queue than calls of `do_write` are still owed. -/
def Balanced (s : WriteSide) : Prop := s.strand.foldl Task.effect s.send_buffers.length ≤ s.promised

theorem Balanced.moves (h : Balanced s) (htransferred : s.Transferred) (hmove : Moves s e t) :
    Balanced t := by
  simp only [Balanced, promised] at h ⊢
  cases hmove with
  | push sb =>
    cases sb <;> simp only [List.foldl_append, List.foldl_cons, List.foldl_nil, Task.effect,
      List.countP_append, List.countP_singleton, Task.posts] <;> grind
  | run_null hhead => simpa [hhead, Task.effect, Task.posts] using h
  | run_push hhead =>
    simp [hhead, Task.effect, Task.posts, List.countP_cons] at h ⊢
    omega
  | run_rest hhead => simpa [hhead, Task.effect, Task.posts] using h
  | run_idle hhead hempty => simpa [hhead, hempty, Task.effect, Task.posts] using h
  | run_start hhead hfront => simpa [hhead, hfront, Task.effect, Task.posts] using h
  | transmit holdest hlength => simpa using h
  | @failed i o before after hhandler => exact absurd rfl (htransferred o 0 (by simp [hhandler]))
  | low hhandler hlength hrest =>
    simp [hhandler, Task.effect, Task.posts] at h ⊢
    omega
  | finished hhandler hlength hall =>
    simp [hhandler, Task.effect, Task.posts] at h ⊢
    omega
  | resume hhandler =>
    simp [hhandler, Task.effect, Task.posts] at h ⊢
    omega

/-- Every element on its way: in a task, in the queue, in a write or in a handler. -/
def held (s : WriteSide) : List Outgoing :=
  s.strand.flatMap Task.token ++ s.send_buffers ++ s.sending ++ s.handlers.flatMap Handler.token

/-- The elements on their way that stem from one `PushSend` call. -/
def heldOf (s : WriteSide) (id : Nat) : List Outgoing := s.held.filter (·.id = id)

/-- What is on its way of one `PushSend` call and the ranges written from it: a
pushed buffer is on its way as one element, which starts where the ranges end, or
the ranges make up all of it. -/
inductive Accounted (id : Nat) : Option (Option SendBuffer) → List Outgoing → List (Nat × Nat) → Prop where
  | absent : Accounted id none [] []
  | null : Accounted id (some none) [] []
  | held {sb complete spans} (htiles : Tiles 0 spans complete) :
      Accounted id (some (some sb)) [⟨id, sb, complete⟩] spans
  | sent {sb spans} (htiles : Tiles 0 spans sb.size) : Accounted id (some (some sb)) [] spans

namespace Accounted

variable {pushed : Option (Option SendBuffer)} {o : Outgoing} {held held' others : List Outgoing}
  {spans : List (Nat × Nat)}

theorem perm (h : Accounted id pushed held spans) (hperm : held'.Perm held) :
    Accounted id pushed held' spans := by
  have hsame : held' = held := by
    cases h with
    | held => exact List.perm_singleton.mp hperm
    | absent | null | sent => exact List.perm_nil.mp hperm
  exact hsame ▸ h

/-- An element on its way is the only one of its call. -/
theorem of_cons (h : Accounted id pushed (o :: others) spans) :
    o.id = id ∧ pushed = some (some o.sb) ∧ others = [] ∧ Tiles 0 spans o.complete := by
  cases h with
  | held htiles => exact ⟨rfl, rfl, rfl, htiles⟩

theorem of_none (h : Accounted id none held spans) : held = [] ∧ spans = [] := by
  cases h
  exact ⟨rfl, rfl⟩

end Accounted

/-- Every `PushSend` call is accounted for. -/
def Ledger (s : WriteSide) : Prop := ∀ id, Accounted id s.pushed[id]? (s.heldOf id) (s.spansOf id)

theorem Ledger.init : Ledger Init := fun _ => .absent

theorem heldOf_perm {elements : List Outgoing} (h : s.held.Perm elements) (id : Nat) :
    (s.heldOf id).Perm (elements.filter (·.id = id)) :=
  h.filter _

/-- A step that passes elements on, without a new one and without a transmission. -/
theorem Ledger.perm (h : Ledger s) (hheld : t.held.Perm s.held) (hspans : t.spans = s.spans)
    (hpushed : t.pushed = s.pushed) : Ledger t := by
  intro id
  rw [hpushed, spansOf, hspans]
  exact (h id).perm (heldOf_perm hheld id)

/-- A `PushSend` call starts an account of its own. -/
theorem Ledger.push (h : Ledger s) (sb : Option SendBuffer)
    (hheld : t.held.Perm (sb.toList.map (Outgoing.mk s.pushed.length · 0) ++ s.held))
    (hspans : t.spans = s.spans) (hpushed : t.pushed = s.pushed ++ [sb]) : Ledger t := by
  intro id
  have hid := h id
  have hnew := heldOf_perm hheld id
  rw [hpushed, spansOf, hspans]
  rcases Nat.lt_trichotomy id s.pushed.length with hlt | rfl | hgt
  · rw [List.getElem?_append_left hlt]
    refine hid.perm (hnew.trans (List.Perm.of_eq ?_))
    cases sb <;> simp [heldOf, Nat.ne_of_gt hlt]
  · rw [List.getElem?_eq_none (Nat.le_refl _)] at hid
    obtain ⟨hnone, hspans⟩ := hid.of_none
    rw [heldOf] at hnone
    rw [List.getElem?_concat_length, ← spansOf, hspans]
    cases sb with
    | none => exact Accounted.null.perm (by simpa [hnone] using hnew)
    | some sb => exact (Accounted.held (tiles_nil.mpr rfl)).perm (by simpa [hnone] using hnew)
  · rw [List.getElem?_eq_none (by omega)] at hid
    rw [List.getElem?_eq_none (by simp; omega)]
    refine hid.perm (hnew.trans (List.Perm.of_eq ?_))
    cases sb <;> simp [heldOf, Nat.ne_of_lt hgt]

/-- A transmission extends the ranges of its element and moves its start on. -/
theorem Ledger.transmit {o : Outgoing} {others : List Outgoing} {length : Nat} (h : Ledger s)
    (hbefore : s.held.Perm (o :: others)) (hafter : t.held.Perm (o.advance length :: others))
    (hspans : t.spans = s.spans ++ [⟨o.id, o.complete, o.complete + length⟩])
    (hpushed : t.pushed = s.pushed) (hpos : 1 ≤ length) : Ledger t := by
  intro id
  have hid := (h id).perm (heldOf_perm hbefore id).symm
  refine Accounted.perm ?_ (heldOf_perm hafter id)
  by_cases hsame : o.id = id
  · subst hsame
    simp only [List.filter_cons, decide_true, if_true] at hid
    obtain ⟨_, hsb, hnone, htiles⟩ := hid.of_cons
    simp only [List.filter_cons, Outgoing.advance_id, decide_true, if_true, hnone, hpushed, hsb]
    refine .held ?_
    simpa [spansOf, hspans] using htiles.concat (Nat.lt_add_of_pos_right hpos)
  · simpa [List.filter_cons, hsame, hpushed, spansOf, hspans] using hid

/-- A write that completes its buffer is the last one for it. -/
theorem Ledger.finished (h : Ledger s) (o : Outgoing) (hheld : s.held.Perm (o :: t.held))
    (hspans : t.spans = s.spans) (hpushed : t.pushed = s.pushed) (hall : o.complete = o.sb.size) :
    Ledger t := by
  intro id
  have hid := (h id).perm (heldOf_perm hheld id).symm
  rw [hpushed, spansOf, hspans, ← spansOf]
  by_cases hsame : o.id = id
  · subst hsame
    simp only [List.filter_cons, decide_true, if_true] at hid
    obtain ⟨_, hsb, hnone, htiles⟩ := hid.of_cons
    rw [heldOf, hnone, hsb]
    exact .sent (hall ▸ htiles)
  · simpa [List.filter_cons, hsame, heldOf] using hid

theorem Ledger.moves (h : Ledger s) (htransferred : s.Transferred) (hpos : s.Transfers e)
    (hmove : Moves s e t) : Ledger t := by
  cases hmove with
  | push sb =>
    refine h.push sb (List.perm_iff_count.mpr fun a => ?_) rfl rfl
    cases sb <;> simp [held, Task.token, List.count_cons]
    omega
  | run_null hhead =>
    refine h.perm ?_ rfl rfl
    simp [held, hhead, Task.token]
  | run_push hhead =>
    refine h.perm (List.perm_iff_count.mpr fun a => ?_) rfl rfl
    simp [held, hhead, Task.token, List.count_cons]
    omega
  | run_rest hhead =>
    refine h.perm (List.perm_iff_count.mpr fun a => ?_) rfl rfl
    simp [held, hhead, Task.token, List.count_cons]
    omega
  | run_idle hhead hempty =>
    refine h.perm ?_ rfl rfl
    simp [held, hhead, Task.token]
  | run_start hhead hfront =>
    refine h.perm (List.perm_iff_count.mpr fun a => ?_) rfl rfl
    simp [held, hhead, hfront, Task.token, List.count_cons]
    omega
  | @transmit o sending length holdest hlength =>
    have hothers : s.held.Perm (o :: (s.strand.flatMap Task.token ++ s.send_buffers ++ sending ++
        s.handlers.flatMap Handler.token)) := by
      refine List.perm_iff_count.mpr fun a => ?_
      simp [held, holdest, List.count_cons]
      omega
    refine h.transmit hothers (List.perm_iff_count.mpr fun a => ?_) rfl rfl hpos
    simp [held, Handler.token, List.count_cons]
    omega
  | @failed i o before after hhandler => exact absurd rfl (htransferred o 0 (by simp [hhandler]))
  | low hhandler hlength hrest =>
    refine h.perm (List.perm_iff_count.mpr fun a => ?_) rfl rfl
    simp [held, hhandler, Task.token, Handler.token, List.count_cons]
    omega
  | @finished i o length before after hhandler hlength hall =>
    refine h.finished (o.advance length) (List.perm_iff_count.mpr fun a => ?_) rfl rfl hall
    simp [held, hhandler, Task.token, Handler.token, List.count_cons]
    omega
  | resume hhandler =>
    refine h.perm ?_ rfl rfl
    simp [held, hhandler, Task.token, Handler.token]

/-- Nothing is left to do: no task is posted, no write is started and no handler
is to run or running. -/
structure Quiescent (s : WriteSide) : Prop where
  strand : s.strand = []
  sending : s.sending = []
  handlers : s.handlers = []

theorem Balanced.queue_empty (h : Balanced s) (hquiet : s.Quiescent) : s.send_buffers = [] := by
  simp only [Balanced, promised, hquiet.strand, hquiet.handlers] at h
  exact List.eq_nil_of_length_eq_zero (Nat.le_zero.mp h)

/-- Whenever nothing is left to do, the queue is empty and the ranges written from
each pushed buffer follow each other from its first byte to its last, covering
every byte once. -/
theorem run_quiescent_all_sent (events : List Event) (t : WriteSide)
    (hrun : Run (Guarded Transfers (OfOption step)) Init events t) (hquiet : t.Quiescent) :
    t.send_buffers = [] ∧ ∀ id sb, t.pushed[id]? = some (some sb) →
      Tiles 0 (t.spansOf id) sb.size ∧
        ∀ i, (t.spansOf id).countP (fun r => r.1 ≤ i ∧ i < r.2) = if i < sb.size then 1 else 0 := by
  obtain ⟨hbalanced, hledger⟩ : Balanced t ∧ Ledger t := by
    apply run_transfers_invariant (fun _ _ hok => hok) hrun ⟨by simp [Balanced, Init], .init⟩
    rintro s e t ⟨hbalanced, hledger⟩ htransferred hpos hmove
    exact ⟨hbalanced.moves htransferred hmove, hledger.moves htransferred hpos hmove⟩
  have hqueue := hbalanced.queue_empty hquiet
  refine ⟨hqueue, fun id sb hpushed => ?_⟩
  have hid := hledger id
  have hnone : t.heldOf id = [] := by
    simp [heldOf, held, hqueue, hquiet.strand, hquiet.sending, hquiet.handlers]
  rw [hpushed, hnone] at hid
  cases hid with
  | sent htiles => exact ⟨htiles, fun i => by simpa using htiles.countP i⟩

/-- A short write whose remainder is sent behind another buffer. -/
theorem run_two_buffers_all_sent :
    ∃ t, Run (Guarded Transfers (OfOption step)) Init
        [.PushSend (some ⟨0, [], by decide⟩), .PushSend (some ⟨1, [7], by decide⟩), .run, .run, .run, .run,
          .transmit 1, .transmit 5, .complete 1, .complete 0, .run, .run, .resume 0, .run, .transmit 3,
          .complete 0, .run] t ∧
      t.spansOf 0 = [(0, 1), (1, 4)] ∧ t.spansOf 1 = [(0, 5)] ∧ t.send_buffers = [] := by
  have hexec : ([.PushSend (some ⟨0, [], by decide⟩), .PushSend (some ⟨1, [7], by decide⟩), .run, .run, .run,
      .run, .transmit 1, .transmit 5, .complete 1, .complete 0, .run, .run, .resume 0, .run, .transmit 3,
      .complete 0, .run].foldlM (fun s e => if Transfers s e then step s e else none) Init).map
      (fun t => (t.strand.length + t.sending.length + t.handlers.length, t.spansOf 0, t.spansOf 1)) =
        some (0, [(0, 1), (1, 4)], [(0, 5)]) := by decide +kernel
  obtain ⟨t, hfold, ht⟩ := Option.map_eq_some_iff.mp hexec
  simp only [Prod.mk.injEq, Nat.add_eq_zero_iff, List.length_eq_zero_iff] at ht
  obtain ⟨⟨⟨hstrand, hsending⟩, hhandlers⟩, hfirst, hsecond⟩ := ht
  rw [← run_guarded_ofOption_iff] at hfold
  exact ⟨t, hfold, hfirst, hsecond,
    (run_quiescent_all_sent _ t hfold ⟨hstrand, hsending, hhandlers⟩).1⟩

end WriteSide

end AsioGameServer.session
