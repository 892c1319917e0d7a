import WorkStealing.Proofs.Convoy.Arrival
import WorkStealing.Proofs.Convoy.Line

set_option autoImplicit false

/-!
# Who gets the last unit

The owner has come down to the head slot, taken it off the window and joined the line. Nothing shows
any more, so calls that come now find nothing. Those in line are offered what is in the slot one
after the other; the first that wants it gets it, and the slot stays off the window.
-/
namespace WorkStealing

namespace Call

def wants (u : UnitId) : Call → Bool
  | .pop => true
  | .remove _ v => v = u
  | .push _ | .steal => false

/-- The reply to a call that is offered what is in the last slot. -/
def verdict (call : Call) : Option UnitId → Reply
  | some u => if call.wants u then .taken u else .missed
  | none => .missed

def leaves (call : Call) (o : Option UnitId) : Option UnitId := o.filter fun u => !call.wants u

section Offers

variable {call : Call} {u : UnitId}

theorem verdict_of_wants (h : call.wants u = true) : call.verdict (some u) = .taken u := if_pos h

theorem leaves_of_wants (h : call.wants u = true) : call.leaves (some u) = none := by
  simp [leaves, h]

theorem verdict_of_spurns {o : Option UnitId} (h : ∀ u, o = some u → call.wants u = false) :
    call.verdict o = .missed := by
  cases o with
  | none => rfl
  | some u => exact if_neg (by rw [h u rfl]; exact Bool.false_ne_true)

theorem leaves_of_spurns {o : Option UnitId} (h : ∀ u, o = some u → call.wants u = false) :
    call.leaves o = o := by
  cases o with
  | none => rfl
  | some u => simp [leaves, h u rfl]

end Offers

end Call

theorem LockedStage.exists_lastSlot {stage : LockedStage} (h : stage.pledge = .slot) :
    ∃ e, stage = .lastSlot e := by
  cases stage with
  | lastSlot e => exact ⟨e, rfl⟩
  | steal | store | rebase | extract => cases h

/-- A scan that saw the unit of the head slot saw it there. -/
def Deque.Sees (d : Deque) : LockedStage → Prop
  | .extract _ u i g => g = d.generation ∧ (d.ring.cell d.head = some u → i = d.head)
  | .steal | .lastSlot _ | .store _ | .rebase _ => True

/-- The pool after the call was offered what is in its head slot. -/
structure Deque.Offered (d : Deque) (call : Call) (d' : Deque) : Prop where
  head : d'.head = d.head
  tail : d'.tail = d.tail
  generation : d'.generation = d.generation
  slot : d'.ring.cell d.head = call.leaves (d.ring.cell d.head)

theorem Deque.Sees.offered {d d' : Deque} {call : Call} {stage : LockedStage}
    (h : d.Sees stage) (ho : d.Offered call d') : d'.Sees stage := by
  cases stage with
  | extract side u i g =>
    refine ⟨h.1.trans ho.generation.symm, fun hc => ?_⟩
    rw [ho.head] at hc ⊢
    exact h.2 (Option.mem_filter_iff.1 (ho.slot.symm.trans hc)).1
  | steal | lastSlot | store | rebase => trivial

namespace Site

variable {s : Site} {call : Call} {stage : LockedStage}

section Offering

theorem offered_spurned (call : Call)
    (h : ∀ u, s.deque.ring.cell s.deque.head = some u → call.wants u = false) :
    call.verdict (s.deque.ring.cell s.deque.head) = .missed ∧
      s.deque.Offered call s.released.deque :=
  ⟨Call.verdict_of_spurns h, rfl, rfl, rfl, (Call.leaves_of_spurns h).symm⟩

theorem offered_taken (call : Call) (hr : s.deque.ring.Sound) {u : UnitId}
    (hc : s.deque.ring.cell s.deque.head = some u) (hw : call.wants u = true) :
    call.verdict (s.deque.ring.cell s.deque.head) = .taken u ∧
      s.deque.Offered call (s.grabbed s.deque.head u).released.deque := by
  refine ⟨?_, rfl, rfl, rfl, ?_⟩
  · rw [hc]
    exact Call.verdict_of_wants hw
  · rw [hc, Call.leaves_of_wants hw]
    exact hr.cell_put_self ..

theorem Stands.eq_head_of_cell (h : s.Stands .slot) {i : Nat} {u : UnitId}
    (hc : s.deque.ring.cell i = some u) : s.deque.ring.cell s.deque.head = some u := by
  have hmem := h.mem_backlog_iff.2 ⟨i, hc⟩
  rw [h.backlog_slot, ← h.lowered rfl, Option.mem_toList] at hmem
  exact hmem

theorem Stands.offers_lastSlot (h : s.Stands .slot) {e : Option UnitId}
    (ha : s.Awaits call (.lastSlot e)) : ∃ x,
      (LockedStage.lastSlot e).pass s =
        .ok (.reply (call.verdict (s.deque.ring.cell s.deque.head)), x) ∧
      s.deque.Offered call x.deque := by
  have hlow := h.lowered rfl
  cases hc : s.deque.ring.cell s.deque.head with
  | none =>
    obtain ⟨hverdict, hoffered⟩ := offered_spurned (s := s) call (by simp [hc])
    rw [hc] at hverdict
    refine ⟨s.released, ?_, hoffered⟩
    rw [LockedStage.pass, LockedStage.run, lastSlot_hole h.ring hlow (hlow ▸ hc), hverdict]
    split
    · exact popBack_empty (s := s.released) (Nat.le_of_eq hlow.symm) none
    · rfl
  | some u =>
    have hwants : call.wants u = true ∧ (e = none ∨ e = some u) := by
      cases ha with
      | pop => exact ⟨rfl, .inl rfl⟩
      | removeLast v hv =>
        obtain rfl := hv u (hlow ▸ hc)
        exact ⟨decide_eq_true rfl, .inr rfl⟩
    obtain ⟨hverdict, hoffered⟩ := offered_taken call h.ring hc hwants.1
    rw [hc] at hverdict
    refine ⟨(s.grabbed s.deque.head u).released, ?_, hoffered⟩
    rw [LockedStage.pass, LockedStage.run,
      lastSlot_taken h.ring hlow (hlow ▸ hc) (h.knows_of_cell hc) hwants.2, hverdict, ← hlow]
    rfl

theorem Stands.offers_extract (h : s.Stands .slot) {side : Side} {u : UnitId} {i g : Nat}
    (hsees : s.deque.Sees (.extract side u i g)) : ∃ x,
      (LockedStage.extract side u i g).pass s =
        .ok (.reply ((Call.remove side u).verdict (s.deque.ring.cell s.deque.head)), x) ∧
      s.deque.Offered (.remove side u) x.deque := by
  obtain ⟨rfl, hseen⟩ := hsees
  by_cases hc : s.deque.ring.cell s.deque.head = some u
  · obtain rfl := hseen hc
    obtain ⟨hverdict, hoffered⟩ :=
      offered_taken (.remove side u) h.ring hc (decide_eq_true rfl)
    have hsettled : (s.grabbed s.deque.head u).settled s.deque.head =
        s.grabbed s.deque.head u := by
      refine if_neg fun hlt => ?_
      exact Nat.lt_irrefl _ (Nat.lt_of_lt_of_le hlt.2 (Nat.le_of_eq (h.lowered rfl).symm))
    refine ⟨(s.grabbed s.deque.head u).released, ?_, hoffered⟩
    rw [LockedStage.pass, LockedStage.run,
      extract_taken h.ring hc (h.knows_of_cell hc) (h.head_lt_max hc) side, hsettled, hverdict]
    rfl
  · have hspurns : ∀ v, s.deque.ring.cell s.deque.head = some v →
        (Call.remove side u).wants v = false := fun v hv =>
      decide_eq_false fun huv => hc (hv.trans (congrArg some huv.symm))
    obtain ⟨hverdict, hoffered⟩ := offered_spurned (.remove side u) hspurns
    refine ⟨s.released, ?_, hoffered⟩
    rw [LockedStage.pass, LockedStage.run,
      extract_missed h.ring (fun hci => hc (h.eq_head_of_cell hci)), hverdict]
    rfl

theorem Stands.offers (h : s.Stands .slot) (ha : s.Awaits call stage)
    (hcall : ∀ u, call ≠ .push u) (hsees : s.deque.Sees stage) : ∃ x,
      stage.pass s = .ok (.reply (call.verdict (s.deque.ring.cell s.deque.head)), x) ∧
      s.deque.Offered call x.deque := by
  cases ha with
  | rebase u | store u => exact absurd rfl (hcall u)
  | pop => exact h.offers_lastSlot .pop
  | removeLast u hc => exact h.offers_lastSlot (.removeLast u hc)
  | extract => exact h.offers_extract hsees
  | steal =>
    obtain ⟨hverdict, hoffered⟩ := offered_spurned (s := s) .steal fun _ _ => rfl
    refine ⟨s.released, ?_, hoffered⟩
    rw [LockedStage.pass, LockedStage.run,
      stealLocked_empty (Nat.le_of_eq (h.lowered rfl).symm), hverdict]
    rfl

theorem Stands.turn_offers (h : s.Stands .slot) (ha : s.Awaits call stage)
    (hcall : ∀ u, call ≠ .push u) (hsees : s.deque.Sees stage) {ticket ahead : Nat}
    (hnow : s.deque.foreign.nowServing = ticket) :
    Ensures (call.turn ticket ahead stage s) fun o =>
      o.1 = .landed (call.verdict (s.deque.ring.cell s.deque.head)) ∧
        s.deque.Offered call o.2.deque := by
  obtain ⟨m, hdeque⟩ := s.exists_deque_noteWait ahead
  have hcore := s.core_noteWait ahead
  have hsees' : (s.noteWait ahead).deque.Sees stage := by
    rw [hdeque]
    exact hsees
  obtain ⟨x, hpass, hoffered⟩ := (h.of_core hcore).offers (ha.congr hcore) hcall hsees'
  rw [hdeque] at hpass hoffered
  rw [Call.turn_eq hnow, hpass, ok_bind]
  refine .bind (call.conclude_deque _ x) ?_
  rintro x' ⟨m', hm'⟩
  refine .ok ⟨rfl, ?_⟩
  rw [hm']
  exact ⟨hoffered.head, hoffered.tail, hoffered.generation, hoffered.slot⟩

end Offering

theorem Stands.start_misses (h : s.Stands .slot)
    (hlock : s.deque.foreign.nowServing < s.deque.foreign.nextTicket)
    (hc : call.Admissible s.units) (hcall : call.isOwner = false) :
    Ensures (call.start s) fun o => o.1 = .landed .missed ∧
      ∃ m, o.2.deque = { s.deque with metrics := m } := by
  have hempty : s.deque.tail ≤ s.deque.head := Nat.le_of_eq (h.lowered rfl).symm
  have hopening : call.opening s = .ok (.reply .missed, s) := by
    cases call with
    | push | pop => cases hcall
    | steal => exact if_pos hempty
    | remove side u =>
      cases side with
      | owner => cases hcall
      | foreign =>
        change s.remove .foreign u = _
        by_cases hheld : s.units.holder? u = some s.deque.id
        · rw [remove_foreign hheld]
          exact scan_missed h.ring h.tail_le_round .foreign fun i hi hi' => by
            change i < s.deque.tail at hi'
            omega
        · exact remove_elsewhere (hc u rfl).knows hheld .foreign
  rw [Call.start_eq, hopening, ok_bind, Call.proceed_held hlock]
  refine .bind (call.conclude_deque .missed s) fun x hx => ?_
  exact .ok ⟨rfl, hx⟩

theorem Arrives.sees {s' : Site} {π : Pledge} {ticket ahead : Nat}
    (h : s.Arrives call (.waiting ticket ahead stage) s') (hs : s.Stands π)
    (hg : s'.deque.generation = s.deque.generation) : s'.deque.Sees stage := by
  cases h with
  | waits head ring _ _ seen =>
    cases stage with
    | extract side u i g =>
      obtain ⟨hgen, hi, hi', hc⟩ := seen side u i g rfl
      refine ⟨hgen.trans hg.symm, fun hhead => ?_⟩
      rw [head, ring] at hhead
      have hround := hs.tail_le_round
      rw [head]
      exact eq_of_mod_eq s.deque.head hi (by omega) (Nat.le_refl _) (by omega)
        (hs.mod_eq_of_cell hc hhead)
    | steal | lastSlot | store | rebase => trivial

end Site

namespace Convoy

section Awards

/-- The replies to the calls in line that are offered what is in the last slot one after the
other. -/
def awards : List Waiter → Option UnitId → Nat → Reply
  | [], _, _ => .missed
  | x :: line, o, i => if x.seat = i then x.call.verdict o else awards line (x.call.leaves o) i

theorem awards_front (x : Waiter) (line : List Waiter) (o : Option UnitId) :
    awards (x :: line) o x.seat = x.call.verdict o := if_pos rfl

theorem awards_of_ne {x : Waiter} {i : Nat} (h : x.seat ≠ i) (line : List Waiter)
    (o : Option UnitId) : awards (x :: line) o i = awards line (x.call.leaves o) i := if_neg h

theorem awards_none (line : List Waiter) (i : Nat) : awards line none i = .missed := by
  induction line with
  | nil => rfl
  | cons x line ih =>
    rw [awards]
    split
    · rfl
    · exact ih

theorem awards_of_spurns {line : List Waiter} {i : Nat}
    (h : ∀ x ∈ line, x.seat = i → ∀ u, x.call.wants u = false) (o : Option UnitId) :
    awards line o i = .missed := by
  induction line generalizing o with
  | nil => rfl
  | cons x line ih =>
    rw [awards]
    split
    · exact Call.verdict_of_spurns fun u _ => h x List.mem_cons_self ‹_› u
    · exact ih (fun z hz => h z (List.mem_cons_of_mem x hz)) _

/-- The first call in line that wants the unit gets it, and nobody else. -/
theorem exists_awarded {line : List Waiter} {u : UnitId}
    (hsorted : line.Pairwise fun x y => x.seat < y.seat)
    (hwanted : ∃ x ∈ line, x.call.wants u = true) :
    ∃ y ∈ line, y.call.wants u = true ∧ awards line (some u) y.seat = .taken u ∧
      (∀ x ∈ line, x.seat < y.seat → x.call.wants u = false) ∧
      ∀ i, i ≠ y.seat → awards line (some u) i = .missed := by
  induction line with
  | nil =>
    obtain ⟨x, hx, -⟩ := hwanted
    cases hx
  | cons z line ih =>
    obtain ⟨hz, hsorted⟩ := List.pairwise_cons.1 hsorted
    cases hw : z.call.wants u with
    | true =>
      refine ⟨z, List.mem_cons_self, hw, ?_, ?_, fun i hi => ?_⟩
      · rw [awards_front, Call.verdict_of_wants hw]
      · intro x hx hlt
        rcases List.mem_cons.1 hx with rfl | hx
        · exact absurd hlt (Nat.lt_irrefl _)
        · exact absurd hlt (Nat.lt_asymm (hz x hx))
      · rw [awards_of_ne hi.symm, Call.leaves_of_wants hw]
        exact awards_none line i
    | false =>
      -- what `z` does not want it passes on, so the first that wants it is further back
      have hspurns : ∀ v, some u = some v → z.call.wants v = false := by
        rintro v ⟨⟩
        exact hw
      obtain ⟨x, hx, hxw⟩ := hwanted
      have hx' : x ∈ line := by
        rcases List.mem_cons.1 hx with rfl | hx
        · rw [hw] at hxw
          cases hxw
        · exact hx
      obtain ⟨y, hy, hyw, haward, hfirst, hrest⟩ := ih hsorted ⟨x, hx', hxw⟩
      refine ⟨y, List.mem_cons_of_mem z hy, hyw, ?_, ?_, fun i hi => ?_⟩
      · rw [awards_of_ne (Nat.ne_of_lt (hz y hy)), Call.leaves_of_spurns hspurns]
        exact haward
      · exact List.forall_mem_cons.2 ⟨fun _ => hw, hfirst⟩
      · rw [awards]
        split
        · exact Call.verdict_of_spurns hspurns
        · rw [Call.leaves_of_spurns hspurns]
          exact hrest i hi

end Awards

end Convoy

end WorkStealing
