import WorkStealing.Deque.Flight
import WorkStealing.Proofs.Deque.Soundness
import WorkStealing.Proofs.Ensures

set_option autoImplicit false

/-!
# Turns of a call

How the stages of a call follow each other. After a free stage a call has landed, goes on at once
because nobody holds the lock, or waits in line; at its end it is counted and gives back the
reference to the unit that it got.
-/
namespace WorkStealing

namespace Site

def count (s : Site) : Option Tally → Site
  | some t => s.tally t
  | none => s

def held (s : Site) : Site := s.setForeign s.deque.foreign.draw.2

def released (s : Site) : Site := s.setForeign s.deque.foreign.release

theorem Sound.held {s : Site} {pending : List UnitId} (h : s.Sound pending) :
    s.held.Sound pending := h.congr rfl rfl rfl rfl rfl rfl

theorem Sound.released {s : Site} {pending : List UnitId} (h : s.Sound pending) :
    s.released.Sound pending := h.congr rfl rfl rfl rfl rfl rfl

theorem tally_setUnits (s : Site) (t : Tally) (units : UnitTable) :
    (s.tally t).setUnits units = (s.setUnits units).tally t := by
  unfold tally
  have htel : (s.setUnits units).telemetry = s.telemetry := rfl
  rw [htel]
  split <;> rfl

theorem exists_count (s : Site) (o : Option Tally) :
    ∃ m, s.count o = { s with deque := { s.deque with metrics := m } } := by
  cases o with
  | none => exact ⟨s.deque.metrics, rfl⟩
  | some t => exact s.exists_tally t

end Site

namespace Call

def opening (call : Call) (s : Site) : Checked (Next LockedStage × Site) := do
  let (stage, s) ← call.launch s
  stage.run s

/-- What follows a free stage, with at most `grants` locked stages. -/
def proceed (call : Call) (grants : Nat) :
    Next LockedStage × Site → Checked (Flight × Site)
  | (.reply r, s) => do return (.landed r, ← call.conclude r s)
  | (.go locked, s) =>
    if s.held.deque.foreign.serves s.deque.foreign.nextTicket then
      match grants with
      | 0 => throw .outOfGrants
      | grants + 1 => do
        match ← call.grant s.deque.foreign.nextTicket
          (s.held.deque.foreign.ahead s.deque.foreign.nextTicket) locked s.held with
        | (.reply r, s) => return (.landed r, s)
        | (.go stage, s) => call.fly grants stage s
    else return (.waiting s.deque.foreign.nextTicket
      (s.held.deque.foreign.ahead s.deque.foreign.nextTicket) locked, s.held)

def resume (call : Call) (grants : Nat) : Next FreeStage × Site → Checked (Flight × Site)
  | (.reply r, s) => do return (.landed r, ← call.conclude r s.released)
  | (.go stage, s) => call.fly grants stage s.released

theorem fly_eq (call : Call) (grants : Nat) (stage : FreeStage) (s : Site) :
    call.fly grants stage s = stage.run s >>= call.proceed grants := by
  rw [fly, advance]
  cases stage.run s with
  | error e => rfl
  | ok result =>
    obtain ⟨next, s'⟩ := result
    cases next with
    | go locked =>
      cases grants <;> rfl
    | reply r =>
      change ((call.conclude r s' >>= fun s'' => pure (Flight.landed r, s'')) >>= _) =
        (call.conclude r s' >>= fun s'' => pure (Flight.landed r, s''))
      cases call.conclude r s' <;> rfl

theorem launch_fly (call : Call) (grants : Nat) (s : Site) :
    (do let (stage, s) ← call.launch s; call.fly grants stage s) =
      call.opening s >>= call.proceed grants := by
  rw [opening]
  cases call.launch s with
  | error e => rfl
  | ok result => exact fly_eq ..

theorem launch_deque {call : Call} {s s' : Site} {stage : FreeStage}
    (h : call.launch s = .ok (stage, s')) : s'.deque = s.deque := by
  cases call with
  | push u =>
    simp only [launch, Site.updateUnits] at h
    cases hr : s.units.retain u with
    | error e =>
      rw [hr] at h
      cases h
    | ok t =>
      rw [hr] at h
      cases h
      rfl
  | pop | steal | remove =>
    cases h
    rfl

theorem start_eq (call : Call) (s : Site) :
    call.start s = call.opening s >>= call.proceed (grantBudget 1 s.deque.length) := by
  rw [start, opening]
  cases h : call.launch s with
  | error e => rfl
  | ok result =>
    obtain ⟨stage, s'⟩ := result
    rw [ok_bind, ok_bind, ← launch_deque h]
    exact fly_eq ..

section Conclusion

variable {call : Call} {s : Site}

theorem conclude_of_not_taken {r : Reply} (h : ∀ u, r ≠ .taken u) :
    call.conclude r s = .ok (s.count (call.tally? r)) := by
  unfold conclude
  cases r with
  | taken u => exact absurd rfl (h u)
  | stored | refused | missed => cases call.tally? _ <;> rfl

theorem conclude_of_taken (call : Call) (u : UnitId) (s : Site) :
    call.conclude (.taken u) s =
      (s.count (call.tally? (.taken u))).updateUnits (·.release u) := by
  unfold conclude
  cases call.tally? (.taken u) <;> rfl

theorem conclude_deque (call : Call) (r : Reply) (s : Site) :
    Ensures (call.conclude r s) fun s' => ∃ m, s'.deque = { s.deque with metrics := m } := by
  have hcount : ∃ m, (s.count (call.tally? r)).deque = { s.deque with metrics := m } := by
    obtain ⟨m, hm⟩ := s.exists_count (call.tally? r)
    exact ⟨m, congrArg Site.deque hm⟩
  cases r with
  | taken u =>
    rw [conclude_of_taken]
    exact .bind (.trivial _) fun _ _ => .ok hcount
  | stored | refused | missed =>
    rw [conclude_of_not_taken (by simp)]
    exact .ok hcount

theorem conclude_taken {u : UnitId} {t : UnitTable} {e : UnitEntry}
    (hs : s.units = t.setHolder u none) (he : t.find? u = some e) (hr : 0 < e.refs) :
    call.conclude (.taken u) s =
      .ok ((s.setUnits (t.letGo u)).count (call.tally? (.taken u))) := by
  have hrelease : s.units.release u = .ok (t.letGo u) := by
    rw [hs]
    exact UnitTable.release_detached he hr
  unfold conclude
  cases call.tally? (.taken u) with
  | none =>
    simp only [Site.updateUnits, hrelease, ok_bind, pure_eq_ok]
    rfl
  | some tally =>
    have hunits : (s.tally tally).units = s.units := by
      obtain ⟨m, hm⟩ := s.exists_tally tally
      rw [hm]
    simp only [Site.updateUnits, hunits, hrelease, ok_bind, pure_eq_ok]
    exact congrArg Except.ok (s.tally_setUnits tally _)

end Conclusion

section Tickets

variable {call : Call} {s : Site}

theorem proceed_reply {r : Reply} {s' : Site} (h : call.conclude r s = .ok s') (grants : Nat) :
    call.proceed grants (.reply r, s) = .ok (.landed r, s') := by
  simp [proceed, h]

theorem proceed_go (h : s.deque.Unlocked) (grants : Nat) (locked : LockedStage) :
    call.proceed (grants + 1) (.go locked, s) = locked.run s.held >>= call.resume grants := by
  have hserves : s.held.deque.foreign.serves s.deque.foreign.nextTicket = true :=
    decide_eq_true h.symm
  have hahead : s.held.deque.foreign.ahead s.deque.foreign.nextTicket = 0 := by
    simp [TicketLock.ahead, Site.held, Site.setForeign, TicketLock.draw, h.symm]
  rw [proceed, if_pos hserves]
  simp only [grant, hahead, Site.noteWait_zero, require_eq_ok hserves, ok_bind]
  cases locked.run s.held with
  | error e => rfl
  | ok result =>
    obtain ⟨next, s'⟩ := result
    cases next with
    | go stage => rfl
    | reply r =>
      change ((call.conclude r s'.released >>= fun s'' => pure (Next.reply r, s'')) >>= _) =
        (call.conclude r s'.released >>= fun s'' => pure (Flight.landed r, s''))
      cases call.conclude r s'.released <;> rfl

theorem resume_reply (grants : Nat) (r : Reply) :
    call.resume grants (.reply r, s) = call.proceed grants (.reply r, s.released) := rfl

theorem resume_go (grants : Nat) (stage : FreeStage) :
    call.resume grants (.go stage, s) = stage.run s.released >>= call.proceed grants :=
  fly_eq ..

theorem proceed_go_held (h : s.deque.foreign.nowServing < s.deque.foreign.nextTicket)
    (grants : Nat) (locked : LockedStage) :
    call.proceed grants (.go locked, s) =
      .ok (.waiting s.deque.foreign.nextTicket
        (s.deque.foreign.nextTicket - s.deque.foreign.nowServing) locked, s.held) := by
  have hserves : s.held.deque.foreign.serves s.deque.foreign.nextTicket = false :=
    decide_eq_false (Nat.ne_of_lt h)
  simp only [proceed, hserves]
  rfl

end Tickets

end Call

end WorkStealing
