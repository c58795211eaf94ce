import Mathlib.Logic.Function.Basic
import AsioGameServer.Lib.Transition

open Function Transition

namespace Deferred

variable {κ : Type} {ρ : κ → Type} {k : κ}

/-- A request of one of several kinds. -/
abbrev Request (ρ : κ → Type) := (k : κ) × ρ k

section OfKind

variable [DecidableEq κ]

/-- The requests of one kind, in their order. -/
def ofKind (k : κ) (requests : List (Request ρ)) : List (ρ k) :=
  requests.filterMap fun r => if h : r.1 = k then some (h ▸ r.2) else none

@[simp] theorem ofKind_nil : ofKind k ([] : List (Request ρ)) = [] := rfl

@[simp] theorem ofKind_append (first second : List (Request ρ)) :
    ofKind k (first ++ second) = ofKind k first ++ ofKind k second := List.filterMap_append

/-- A request is of its own kind. -/
theorem ofKind_singleton_self (r : ρ k) : ofKind k [(⟨k, r⟩ : Request ρ)] = [r] := by
  simp [ofKind]

/-- A request is of no other kind. -/
theorem ofKind_singleton_of_ne {r : Request ρ} (hne : r.1 ≠ k) : ofKind k [r] = [] := by
  simp [ofKind, hne]

end OfKind

/-- The lists that requests are put in, by their kinds, and the copies of them. -/
structure Lists (ρ : κ → Type) where
  req : ∀ k, List (ρ k)
  copy : ∀ k, List (ρ k)

namespace Lists

variable [DecidableEq κ]

/-- The copy of one list takes over what the list has. -/
def assign (k : κ) (l : Lists ρ) : Lists ρ := { l with copy := update l.copy k (l.req k) }

/-- One list is emptied. What its copy has is not touched. -/
def clear (k : κ) (l : Lists ρ) : Lists ρ := { l with req := update l.req k [] }

/-- A list is copied and cleared, if there is anything in it. -/
def assignAny (k : κ) (l : Lists ρ) : Lists ρ := if (l.req k).isEmpty then l else (l.assign k).clear k

end Lists

/-- How requests are handled: what is done to the lists under the lock, and the order in
which the kinds are gone through after it. -/
structure Round (ρ : κ → Type) where
  collect : Lists ρ → Lists ρ
  order : List κ

/-- Everything is copied out, and every kind is gone through. -/
structure Round.Complete (round : Round ρ) : Prop where
  collect : ∀ req, round.collect ⟨req, fun _ => []⟩ = ⟨fun _ => [], req⟩
  order : ∀ k, k ∈ round.order

/-- Where requests stand: in the lists, in the parts of the copies that the loops of the
round have not reached, with the handler that runs, or behind. `loops` are the loops that
have not ended, and `issued` is what was put in so far. -/
structure Desk (ρ : κ → Type) extends Lists ρ where
  loops : List κ
  handling : Option (Request ρ)
  processed : List (Request ρ)
  issued : List (Request ρ)

/-- A request is put in, by whatever thread. The thread of the round goes on: it begins a
round, calls the handler of the next request, which may put in others, returns from it, and
leaves a loop. -/
inductive Event (ρ : κ → Type) where
  | issue (request : Request ρ)
  | collect
  | take
  | finish
  | leave

namespace Desk

/-- Nothing was asked for. -/
def start : Desk ρ := ⟨⟨fun _ => [], fun _ => []⟩, [], none, [], []⟩

section Steps

variable [DecidableEq κ]

/-- A request is entered at the end of the list of its kind, also while a round is going on. -/
def issue (d : Desk ρ) (request : Request ρ) : Desk ρ :=
  { d with
    req := update d.req request.1 (d.req request.1 ++ [request.2])
    issued := d.issued ++ [request] }

/-- The copies are variables of the round, which are empty before. -/
def collect (round : Round ρ) (d : Desk ρ) : Desk ρ :=
  { d with toLists := round.collect ⟨d.req, fun _ => []⟩, loops := round.order }

def next (round : Round ρ) (d : Desk ρ) : Event ρ → Option (Desk ρ)
  | .issue request => some (d.issue request)
  | .collect =>
    match d.loops with
    | [] => some (d.collect round)
    | _ :: _ => none
  | .take =>
    match d.loops, d.handling with
    | k :: _, none =>
      match d.copy k with
      | [] => none
      | r :: rest => some { d with copy := update d.copy k rest, handling := some ⟨k, r⟩ }
    | _, _ => none
  | .finish => d.handling.map fun r => { d with handling := none, processed := d.processed ++ [r] }
  | .leave =>
    match d.loops, d.handling with
    | k :: loops, none => if (d.copy k).isEmpty then some { d with loops } else none
    | _, _ => none

end Steps

section Account

variable [DecidableEq κ] {round : Round ρ} {d d' : Desk ρ}

/-- Of each kind, what was processed, what was copied out, and what is in the lists are
together what was put in, in its order. -/
def Accounted (d : Desk ρ) : Prop :=
  ∀ k, ofKind k d.processed ++ (ofKind k d.handling.toList ++ d.copy k) ++ d.req k = ofKind k d.issued

/-- A copy is used up when its loop ends. -/
structure Balanced (d : Desk ρ) : Prop where
  accounted : d.Accounted
  ended : ∀ k, k ∉ d.loops → d.copy k = []

/-- Where nothing was asked for, nothing is missing. -/
theorem Balanced.start : (start : Desk ρ).Balanced := ⟨fun _ => rfl, fun _ _ => rfl⟩

/-- A request that was issued is in its list, behind the earlier ones. -/
theorem Balanced.issue (h : d.Balanced) (request : Request ρ) : (d.issue request).Balanced := by
  refine ⟨fun k => ?_, h.ended⟩
  have hk := h.accounted k
  obtain ⟨kind, r⟩ := request
  simp only [Desk.issue, ofKind_append]
  by_cases hkind : kind = k
  · subst hkind
    rw [update_self, ofKind_singleton_self, ← hk]
    simp
  · rw [update_of_ne (Ne.symm hkind), ofKind_singleton_of_ne hkind, List.append_nil, hk]

/-- The copies take over all lists, so that no request is lost between the two. This is what a
complete round is for. -/
theorem Balanced.collect (hround : round.Complete) (h : d.Balanced) (hloops : d.loops = []) :
    (d.collect round).Balanced := by
  refine ⟨fun k => ?_, fun k hk => absurd (hround.order k) hk⟩
  have hk := h.accounted k
  have hcopy : d.copy k = [] := h.ended k (by rw [hloops]; exact List.not_mem_nil)
  simp only [Desk.collect, hround.collect]
  rw [← hk, hcopy]
  simp

/-- The request that is handled is the first of its copy. -/
theorem Balanced.take (h : d.Balanced) {kind : κ} {loops : List κ} {r : ρ kind} {rest : List (ρ kind)}
    (hloops : d.loops = kind :: loops) (hhandling : d.handling = none) (hcopy : d.copy kind = r :: rest) :
    Balanced { d with copy := update d.copy kind rest, handling := some ⟨kind, r⟩ } := by
  refine ⟨fun k => ?_, fun k hk => ?_⟩
  · have hk := h.accounted k
    rw [hhandling] at hk
    dsimp only
    by_cases hkind : kind = k
    · subst hkind
      rw [update_self, Option.toList_some, ofKind_singleton_self, ← hk, hcopy]
      rfl
    · rw [update_of_ne (Ne.symm hkind), Option.toList_some, ofKind_singleton_of_ne hkind, ← hk]
      rfl
  · have hkind : k ≠ kind := fun heq => hk (by simp [hloops, heq])
    exact (update_of_ne hkind _ _).trans (h.ended k hk)

/-- The request that was handled is the last of those processed. -/
theorem Balanced.finish (h : d.Balanced) {r : Request ρ} (hhandling : d.handling = some r) :
    Balanced { d with handling := none, processed := d.processed ++ [r] } := by
  refine ⟨fun k => ?_, h.ended⟩
  have hk := h.accounted k
  rw [hhandling] at hk
  simp [← hk]

/-- A loop ends where its copy is used up. -/
theorem Balanced.leave (h : d.Balanced) {kind : κ} {loops : List κ} (hloops : d.loops = kind :: loops)
    (hcopy : d.copy kind = []) : Balanced { d with loops } := by
  refine ⟨h.accounted, fun k hk => ?_⟩
  by_cases hkind : k = kind
  · subst hkind
    exact hcopy
  · exact h.ended k (by simp [hloops, hkind, hk])

/-- Every event keeps the books balanced. -/
theorem Balanced.next (hround : round.Complete) (h : d.Balanced) {e : Event ρ} (hnext : d.next round e = some d') :
    d'.Balanced := by
  cases e with
  | issue request =>
    cases hnext
    exact h.issue request
  | collect =>
    simp only [Desk.next] at hnext
    split at hnext
    · rename_i hloops
      cases hnext
      exact h.collect hround hloops
    · cases hnext
  | take =>
    simp only [Desk.next] at hnext
    split at hnext
    · rename_i hloops hhandling
      split at hnext
      · cases hnext
      · rename_i hcopy
        cases hnext
        exact h.take hloops hhandling hcopy
    · cases hnext
  | finish =>
    obtain ⟨r, hhandling, rfl⟩ := Option.map_eq_some_iff.mp hnext
    exact h.finish hhandling
  | leave =>
    simp only [Desk.next] at hnext
    split at hnext
    · rename_i hloops _
      split at hnext
      · rename_i hcopy
        cases hnext
        exact h.leave hloops (List.isEmpty_iff.mp hcopy)
      · cases hnext
    · cases hnext

/-- Whatever the threads do, no request is lost, handled twice, or overtaken by one of its
kind. -/
theorem accounted_of_run (hround : round.Complete) {events : List (Event ρ)}
    (hrun : Run (OfOption (Desk.next round)) start events d) : d.Accounted := by
  have hbalanced : d.Balanced := hrun.invariant .start fun _ _ _ h hnext => h.next hround hnext
  exact hbalanced.accounted

end Account

section Uninterrupted

variable [DecidableEq κ] {round : Round ρ} {d : Desk ρ}

/-- One loop, when nothing else happens. -/
theorem run_loop (round : Round ρ) {loops : List κ} {rest : List (ρ k)} (hloops : d.loops = k :: loops)
    (hhandling : d.handling = none) (hcopy : d.copy k = rest) :
    ∃ events, Run (OfOption (Desk.next round)) d events
      { d with
        copy := update d.copy k []
        loops
        processed := d.processed ++ rest.map (Sigma.mk k) } := by
  induction rest generalizing d with
  | nil =>
    refine ⟨[.leave], run_singleton_iff.mpr ?_⟩
    have hsame : update d.copy k [] = d.copy := by rw [← hcopy, update_eq_self]
    simp [OfOption, Desk.next, hloops, hhandling, hcopy, hsame]
  | cons r rest ih =>
    have htake : d.next round .take =
        some { d with copy := update d.copy k rest, handling := some ⟨k, r⟩ } := by
      simp [Desk.next, hloops, hhandling, hcopy]
    have hfinish : ({ d with copy := update d.copy k rest, handling := some ⟨k, r⟩ } : Desk ρ).next round .finish =
        some { d with
          copy := update d.copy k rest
          handling := none
          processed := d.processed ++ [⟨k, r⟩] } := rfl
    obtain ⟨events, hrun⟩ := ih (d := { d with
      copy := update d.copy k rest
      handling := none
      processed := d.processed ++ [⟨k, r⟩] }) hloops rfl (update_self _ _ _)
    refine ⟨.take :: .finish :: events, .cons htake (.cons hfinish ?_)⟩
    simpa [hhandling] using hrun

/-- The loops of a round, from the first to the last: what is issued meanwhile does not lengthen
them, since they go through the copies. By induction on the loops that are left. -/
theorem run_loops (round : Round ρ) {loops : List κ} (hloops : d.loops = loops) (hnodup : loops.Nodup)
    (hhandling : d.handling = none) :
    ∃ events copy, Run (OfOption (Desk.next round)) d events
      { d with
        copy
        loops := []
        processed := d.processed ++ loops.flatMap fun k => (d.copy k).map (Sigma.mk k) } := by
  induction loops generalizing d with
  | nil =>
    have hsame : { d with loops := [], processed := d.processed ++ [] } = d := by
      rw [List.append_nil, ← hloops]
    refine ⟨[], d.copy, ?_⟩
    rw [List.flatMap_nil, hsame]
    exact .nil d
  | cons k loops ih =>
    obtain ⟨events, hloop⟩ := run_loop round hloops hhandling rfl
    obtain ⟨hk, hnodup⟩ := List.nodup_cons.mp hnodup
    obtain ⟨events', copy, hrest⟩ := ih (d := { d with
      copy := update d.copy k []
      loops
      processed := d.processed ++ (d.copy k).map (Sigma.mk k) }) rfl hnodup hhandling
    refine ⟨events ++ events', copy, run_append_iff.mpr ⟨_, hloop, ?_⟩⟩
    have hothers : loops.flatMap (fun j => (update d.copy k [] j).map (Sigma.mk j)) =
        loops.flatMap fun j => (d.copy j).map (Sigma.mk j) :=
      List.flatMap_congr fun j hj => by rw [update_of_ne (ne_of_mem_of_not_mem hj hk)]
    simpa [hothers] using hrest

/-- A round that nothing interrupts handles all that is in the lists, kind by kind. -/
theorem run_round (hround : round.Complete) (hnodup : round.order.Nodup) (hloops : d.loops = [])
    (hhandling : d.handling = none) :
    ∃ events copy, Run (OfOption (Desk.next round)) d events
      { d with
        req := fun _ => []
        copy
        processed := d.processed ++ round.order.flatMap fun k => (d.req k).map (Sigma.mk k) } := by
  have hcollect : d.next round .collect = some (d.collect round) := by simp [Desk.next, hloops]
  obtain ⟨events, copy, hrun⟩ := run_loops round (d := d.collect round) rfl hnodup hhandling
  refine ⟨.collect :: events, copy, .cons hcollect ?_⟩
  simpa [Desk.collect, hround.collect, hloops] using hrun

end Uninterrupted

end Desk

end Deferred
