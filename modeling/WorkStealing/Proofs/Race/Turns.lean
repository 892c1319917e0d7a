import WorkStealing.Proofs.Convoy.Grants
import WorkStealing.Proofs.Race.Lending
import WorkStealing.Race

set_option autoImplicit false

/-!
# Turns of the threads

Where the threads of a race may stand between two steps, and what one step of a thread does to the
pool. A thread relies on little from one step to the next, and the others leave it alone.
-/
namespace WorkStealing

def Site.lends (s : Site) : Option UnitId → Site
  | none => s
  | some u => s.lend u

namespace RaceThread

def isQueued (th : RaceThread) : Bool :=
  match th.spot with
  | .queued .. => true
  | .idle | .ready .. => false

def carried (th : RaceThread) : List UnitId :=
  match th.spot with
  | .idle => []
  | .ready call _ | .queued call .. => call.pending

inductive Steals : RaceThread → Prop where
  | retired : Steals ⟨.retired, .idle⟩
  | idle : Steals ⟨.thieve, .idle⟩
  | ready : Steals ⟨.thieve, .ready .steal .steal⟩
  | queued (ticket ahead : Nat) : Steals ⟨.thieve, .queued .steal ticket ahead .steal⟩

end RaceThread

namespace RacePlan

variable (plan : RacePlan)

def afterFlight (ownerDone : Bool) (duty : Duty) (call : Call) : Flight → RaceThread
  | .landed r => ⟨plan.next ownerDone duty r, .idle⟩
  | .waiting ticket ahead locked => ⟨duty, .queued call ticket ahead locked⟩

def afterGrant (ownerDone : Bool) (duty : Duty) (call : Call) : Next FreeStage → RaceThread
  | .reply r => ⟨plan.next ownerDone duty r, .idle⟩
  | .go stage => ⟨duty, .ready call stage⟩

/-- The step of one thread: where it stands then, the site, and what it was handed. -/
def turn (ownerDone : Bool) (s : Site) : RaceThread → Checked (RaceThread × Site × List UnitId)
  | ⟨duty, .idle⟩ =>
    match Race.callOf duty s with
    | none => return (⟨duty, .idle⟩, s, [])
    | some (call, s) => do
      let (stage, s) ← call.launch s
      return (⟨duty, .ready call stage⟩, s, [])
  | ⟨duty, .ready call stage⟩ => do
    let (flight, s) ← call.advance stage s
    return (plan.afterFlight ownerDone duty call flight, s, flight.got)
  | ⟨duty, .queued call ticket ahead stage⟩ =>
    if s.deque.foreign.serves ticket then do
      let (next, s) ← call.grant ticket ahead stage s
      return (plan.afterGrant ownerDone duty call next, s, next.got)
    else return (⟨duty, .queued call ticket ahead stage⟩, s, [])

theorem step_eq {r : Race} {t : Nat} {th : RaceThread} (h : r.threads[t]? = some th) :
    r.step plan t = plan.turn r.ownerDone r.site th >>= fun x =>
      .ok ⟨x.2.1, r.threads.set t x.1, x.2.2 ++ r.received⟩ := by
  have hsame : r.threads.set t th = r.threads := by
    obtain ⟨ht, hth⟩ := List.getElem?_eq_some_iff.1 h
    rw [← hth]
    exact List.set_getElem_self ht
  obtain ⟨duty, spot⟩ := th
  rw [Race.step, h]
  cases spot with
  | idle =>
    simp only [turn]
    cases Race.callOf duty r.site with
    | none => simp [hsame]
    | some x =>
      obtain ⟨call, s⟩ := x
      dsimp only
      cases call.launch s with
      | error e => rfl
      | ok y => rfl
  | ready call stage =>
    simp only [turn]
    cases call.advance stage r.site with
    | error e => rfl
    | ok x =>
      obtain ⟨flight, s⟩ := x
      cases flight with
      | waiting ticket ahead locked => rfl
      | landed reply => cases reply <;> rfl
  | queued call ticket ahead stage =>
    simp only [turn]
    split
    · cases call.grant ticket ahead stage r.site with
      | error e => rfl
      | ok x =>
        obtain ⟨next, s⟩ := x
        cases next with
        | go stage => rfl
        | reply reply => cases reply <;> rfl
    · simp [hsame]

/-- What the owner does when so many units are made. -/
inductive Due (made : Nat) : Duty → Prop where
  | produce (h : made < plan.total.toNat) : Due made (.produce made)
  | interlude {i : Nat} (h : made = i + 1) (hi : i < plan.total.toNat) : Due made (.interlude i)
  | drain (h : made = plan.total.toNat) : Due made .drain
  | retired (h : made = plan.total.toNat) : Due made .retired

inductive Asks (made : Nat) : Duty → Call → Prop where
  | push {i : Nat} (h : made = i + 1) (hi : i < plan.total.toNat) :
    Asks made (.produce i) (.push ⟨i⟩)
  | interlude {i : Nat} (h : made = i + 1) (hi : i < plan.total.toNat) :
    Asks made (.interlude i) .pop
  | drain (h : made = plan.total.toNat) : Asks made .drain .pop

/-- Where the owner stands: what it has lent, and what its call has pledged. -/
inductive Owner (s : Site) (made : Nat) : RaceThread → Option UnitId → Pledge → Prop where
  | idle {duty : Duty} (h : plan.Due made duty)
    (hempty : duty = .retired → s.deque.tail ≤ s.deque.head) :
    Owner s made ⟨duty, .idle⟩ none .none
  | opening {duty : Duty} {u : UnitId} (h : plan.Asks made duty (.push u)) :
    Owner s made ⟨duty, .ready (.push u) (.push u)⟩ (some u) .none
  | running {duty : Duty} {call : Call} {stage : FreeStage} {π : Pledge}
    (h : plan.Asks made duty call) (hr : s.Resumes call stage π) :
    Owner s made ⟨duty, .ready call stage⟩ none π
  | waiting {duty : Duty} {call : Call} {ticket ahead : Nat} {locked : LockedStage}
    (h : plan.Asks made duty call) (ha : s.Awaits call locked) :
    Owner s made ⟨duty, .queued call ticket ahead locked⟩ none locked.pledge

variable {plan : RacePlan} {made : Nat}

theorem due_produceFrom (h : made ≤ plan.total.toNat) : plan.Due made (plan.produceFrom made) := by
  unfold produceFrom
  split
  · exact .produce ‹_›
  · exact .drain (by omega)

theorem produceFrom_ne_retired (i : Nat) : plan.produceFrom i ≠ .retired := by
  unfold produceFrom
  split <;> simp

theorem Asks.isOwner {duty : Duty} {call : Call} (h : plan.Asks made duty call) :
    call.isOwner = true := by
  cases h <;> rfl

theorem Asks.next {duty : Duty} {call : Call} (h : plan.Asks made duty call) (ownerDone : Bool)
    (r : Reply) : plan.Due made (plan.next ownerDone duty r) ∧
      (plan.next ownerDone duty r = .retired → call = .pop ∧ r = .missed) := by
  cases h with
  | @push i h hi =>
    unfold RacePlan.next
    dsimp only
    split
    · exact ⟨.interlude h hi, by simp⟩
    · rw [← h]
      exact ⟨due_produceFrom (by omega), fun hr => absurd hr (produceFrom_ne_retired _)⟩
  | @interlude i h hi =>
    unfold RacePlan.next
    dsimp only
    rw [← h]
    exact ⟨due_produceFrom (by omega), fun hr => absurd hr (produceFrom_ne_retired _)⟩
  | drain h =>
    unfold RacePlan.next
    dsimp only
    split
    · rename_i hr
      exact ⟨.retired h, fun _ => ⟨rfl, hr⟩⟩
    · exact ⟨.drain h, by simp⟩

theorem Owner.passes {s s' : Site} {th : RaceThread} {lent : Option UnitId} {π : Pledge}
    (h : plan.Owner s made th lent π) (hp : s.Passes s')
    (hempty : s.deque.tail ≤ s.deque.head → s'.deque.tail ≤ s'.deque.head) :
    plan.Owner s' made th lent π := by
  cases h with
  | idle h hretired => exact .idle h fun hd => hempty (hretired hd)
  | opening h => exact .opening h
  | running h hr => exact .running h (hr.passes hp)
  | waiting h ha => exact .waiting h (ha.passes hp)

end RacePlan

namespace Site

variable {s s' : Site} {π π' : Pledge}

/-- The line at the lock has changed as the thread that moved has. -/
def Lines (s : Site) (queued : Bool) (s' : Site) (queued' : Bool) : Prop :=
  s'.deque.foreign.nextTicket + s.deque.foreign.nowServing + queued.toNat =
    s.deque.foreign.nextTicket + s'.deque.foreign.nowServing + queued'.toNat

theorem Queues.lines {flight : Flight} (h : s.Queues flight s') (plan : RacePlan)
    (ownerDone : Bool) (duty : Duty) (call : Call) :
    s.Lines false s' (plan.afterFlight ownerDone duty call flight).isQueued := by
  cases flight with
  | landed r =>
    obtain ⟨hnow, hnext⟩ := h
    simp [Lines, RacePlan.afterFlight, RaceThread.isQueued, hnow, hnext]
  | waiting ticket ahead locked =>
    obtain ⟨_, hnow, hnext⟩ := h
    simp [Lines, RacePlan.afterFlight, RaceThread.isQueued, hnow, hnext]
    omega

theorem Releases.lines (h : s.Releases s') (plan : RacePlan) (ownerDone : Bool) (duty : Duty)
    (call : Call) (next : Next FreeStage) :
    s.Lines true s' (plan.afterGrant ownerDone duty call next).isQueued := by
  obtain ⟨hnow, hnext⟩ := h
  cases next <;> simp [Lines, RacePlan.afterGrant, RaceThread.isQueued, hnow, hnext] <;> omega

end Site

section Empty

variable {s : Site}

theorem Call.settle_window (call : Call) (o : Next LockedStage × Site) :
    Ensures (call.settle o) fun x => x.2.deque.head = o.2.deque.head ∧
      x.2.deque.tail = o.2.deque.tail ∧ ∀ r, x.1 = .landed r → o.1 = .reply r := by
  obtain ⟨next, s⟩ := o
  cases next with
  | reply r =>
    refine .bind (call.conclude_deque r s) ?_
    rintro s' ⟨m, hm⟩
    refine .ok ⟨by rw [hm], by rw [hm], ?_⟩
    rintro r' ⟨⟩
    rfl
  | go locked => exact .ok ⟨rfl, rfl, by simp⟩

theorem Call.steal_advance_empty (h : s.deque.tail ≤ s.deque.head) :
    Ensures (Call.steal.advance .steal s) fun x => x.2.deque.tail ≤ x.2.deque.head := by
  have hrun : FreeStage.steal.run s = .ok (.reply .missed, s) := if_pos h
  rw [advance_eq, hrun]
  refine (steal.settle_window (.reply .missed, s)).mono fun x hx => ?_
  rw [hx.1, hx.2.1]
  exact h

theorem Call.steal_grant_empty {ticket ahead : Nat} (h : s.deque.tail ≤ s.deque.head) :
    Ensures (Call.steal.grant ticket ahead .steal s) fun x =>
      x.2.deque.tail ≤ x.2.deque.head := by
  obtain ⟨m, hm⟩ := s.exists_noteWait ahead
  have hwait : (s.noteWait ahead).deque.tail ≤ (s.noteWait ahead).deque.head := by
    rw [hm]
    exact h
  have hrun : Ensures (LockedStage.steal.run (s.noteWait ahead)) fun x =>
      x.2.deque.tail ≤ x.2.deque.head := by
    rw [LockedStage.run, Site.stealLocked_empty hwait]
    exact .ok hwait
  refine .bind (.trivial _) fun _ _ => .bind hrun ?_
  rintro ⟨next, s'⟩ hs'
  cases next with
  | go stage => exact .ok hs'
  | reply r =>
    refine .bind (steal.conclude_deque r s'.released) ?_
    rintro s'' ⟨m, hm⟩
    refine .ok ?_
    rw [hm]
    exact hs'

theorem Call.pop_advance_missed (h : s.Stands .none) :
    Ensures (Call.pop.advance (.popBack none) s) fun x =>
      x.1 = .landed .missed → x.2.deque.tail ≤ x.2.deque.head := by
  have hs : s.Sound [] := h.sound
  have hrun : Ensures (s.popBack none) fun x =>
      x.1 = .reply .missed → x.2.deque.tail ≤ x.2.deque.head := by
    by_cases hempty : s.deque.tail ≤ s.deque.head
    · rw [Site.popBack_empty hempty none]
      exact .ok fun _ => hempty
    · rcases Site.popBack_none hs.deque (fun i u => hs.knows_of_cell) (by omega) with
        ⟨t, u, hrun, _⟩ | ⟨hrun, _⟩
      · rw [hrun]
        exact .ok (by simp)
      · rw [hrun]
        exact .ok (by simp)
  rw [advance_eq]
  refine .bind hrun fun o ho => (pop.settle_window o).mono ?_
  rintro x ⟨hhead, htail, hreply⟩ hx
  rw [hhead, htail]
  exact ho (hreply _ hx)

theorem Call.pop_grant_not_missed {ticket ahead : Nat} (h : s.Stands .slot) :
    Ensures (Call.pop.grant ticket ahead (.lastSlot none) s) fun x => x.1 ≠ .reply .missed := by
  have hs := h.of_core (s.core_noteWait ahead)
  have hrun : Ensures ((s.noteWait ahead).lastSlot none) fun x => x.1 ≠ .reply .missed := by
    cases hc : (s.noteWait ahead).deque.ring.cell (s.noteWait ahead).deque.tail with
    | none =>
      rw [Site.lastSlot_hole hs.ring (hs.lowered rfl) hc]
      exact .ok (by simp)
    | some u =>
      rw [Site.lastSlot_taken hs.ring (hs.lowered rfl) hc (hs.knows_of_cell hc) (.inl rfl)]
      exact .ok (by simp)
  refine .bind (.trivial _) fun _ _ => .bind hrun ?_
  rintro ⟨next, s'⟩ hnext
  cases next with
  | go stage => exact .ok (by simp)
  | reply r => exact .bind (.trivial _) fun _ _ => .ok fun hr => hnext (by cases hr; rfl)

end Empty

end WorkStealing
