import WorkStealing.Proofs.Convoy.Yields
import WorkStealing.Proofs.Ensures

set_option autoImplicit false

/-!
# A reference that is on its way

Between the start of a push and its first stage the unit has a reference that no slot accounts for:
it is lent. The steals of others run as they would without it.
-/
namespace WorkStealing

namespace Ensures

variable {α α' β β' : Type}

/-- A run beside another one: what holds of their first parts lets their second parts be
compared. -/
theorem bind_beside {x : Checked α} {y : Checked α'} {ψ : α → α'} {f : α → Checked β}
    {g : α' → Checked β'} {φ : β → β'} (h : Ensures x fun a => y = .ok (ψ a))
    (hf : ∀ a, Ensures (f a) fun b => g (ψ a) = .ok (φ b)) :
    Ensures (x >>= f) fun b => (y >>= g) = .ok (φ b) := by
  refine h.bind fun a ha => (hf a).mono fun b hb => ?_
  rw [ha]
  exact hb

end Ensures

namespace UnitTable

variable (t : UnitTable) (u v : UnitId)

theorem setHolder_retained (p : Option PoolId) :
    (t.retained u).setHolder v p = (t.setHolder v p).retained u := by
  apply ext_find?
  intro w
  simp only [retained, setHolder, find?_update]
  by_cases hu : u = w
  · by_cases hv : v = w
    · simp [hu, hv, Function.comp_def]
    · simp [hu, hv]
  · by_cases hv : v = w
    · simp [hu, hv]
    · simp [hu, hv]

theorem detach_beside :
    Ensures (t.detach v) fun t' => (t.retained u).detach v = .ok (t'.retained u) := by
  cases hv : t.find? v with
  | none =>
    have hrun : t.detach v = .error .noSuchUnit := by
      simp only [detach, lookup, hv]
      rfl
    rw [hrun]
    exact .error _ _
  | some e =>
    have hk : t.Knows v := ⟨e, hv⟩
    rw [detach_eq hk, detach_eq (knows_retained.2 hk), setHolder_retained]
    exact .ok rfl

theorem release_beside :
    Ensures (t.release v) fun t' => (t.retained u).release v = .ok (t'.retained u) := by
  refine .bind (P := fun e => t.find? v = some e) ?_ fun e he => ?_
  · intro e he
    unfold lookup at he
    split at he
    · cases he
      assumption
    · cases he
  · refine .bind (P := fun _ => 0 < e.refs) ?_ fun _ hrefs => .ok ?_
    · intro _ h
      by_contra hrefs
      rw [require, if_neg hrefs] at h
      cases h
    · have hv : (t.retained u).find? v =
          some (if u = v then { e with refs := e.refs + 1 } else e) := by
        rw [retained, find?_update, he]
        split <;> rfl
      have hpos : 0 < (if u = v then { e with refs := e.refs + 1 } else e).refs := by
        split
        · exact Nat.succ_pos _
        · exact hrefs
      rw [release_eq hv hpos]
      congr 1
      apply ext_find?
      intro w
      simp only [retained, find?_update]
      by_cases hu : u = w
      · by_cases hw : v = w
        · subst hu hw
          simp [he]
          omega
        · simp [hu, hw]
      · by_cases hw : v = w
        · simp [hu, hw]
        · simp [hu, hw]

end UnitTable

namespace Site

def lend (s : Site) (u : UnitId) : Site := s.setUnits (s.units.retained u)

variable (s : Site) (u : UnitId)

theorem lend_tally (t : Tally) : (s.lend u).tally t = (s.tally t).lend u := by
  have hunits : (s.tally t).units = s.units := by
    obtain ⟨m, hm⟩ := s.exists_tally t
    rw [hm]
  rw [lend, lend, hunits, tally_setUnits]

theorem lend_noteWait (rounds : Nat) : (s.lend u).noteWait rounds = (s.noteWait rounds).lend u := by
  unfold noteWait
  have htel : (s.lend u).telemetry = s.telemetry := rfl
  rw [htel]
  split <;> rfl

theorem grab_beside (i : Nat) (e : Option UnitId) :
    Ensures (s.grab i e) fun x => (s.lend u).grab i e = .ok (x.1, x.2.lend u) := by
  have hring : (s.lend u).deque.ring = s.deque.ring := rfl
  unfold grab
  rw [hring]
  cases s.deque.ring.read i with
  | error e => exact .error _ _
  | ok c =>
    cases c with
    | none => exact .ok rfl
    | some v =>
      simp only [ok_bind]
      split
      · cases s.deque.ring.write i none with
        | error e => exact .error _ _
        | ok ring =>
          simp only [ok_bind]
          exact (s.units.detach_beside u v).bind_beside fun _ => .ok rfl
      · exact .ok rfl

theorem updateUnits_beside {f : UnitTable → Checked UnitTable}
    (hf : Ensures (f s.units) fun t => f (s.units.retained u) = .ok (t.retained u)) :
    Ensures (s.updateUnits f) fun s' => (s.lend u).updateUnits f = .ok (s'.lend u) :=
  hf.bind_beside fun _ => .ok rfl

theorem stealLocked_beside :
    Ensures s.stealLocked fun x => (s.lend u).stealLocked = .ok (x.1, x.2.lend u) := by
  have hdeque : (s.lend u).deque = s.deque := rfl
  unfold stealLocked
  rw [hdeque]
  dsimp only
  split
  · exact .ok rfl
  · cases Word.succ s.deque.head with
    | error e => exact .error _ _
    | ok next =>
      simp only [ok_bind]
      refine ((s.setHead next).grab_beside u s.deque.head none).bind_beside ?_
      rintro ⟨grab, s'⟩
      cases grab <;> exact .ok rfl

end Site

namespace Call

variable (s : Site) (u : UnitId)

theorem conclude_beside (call : Call) (r : Reply) :
    Ensures (call.conclude r s) fun s' => call.conclude r (s.lend u) = .ok (s'.lend u) := by
  unfold conclude
  cases call.tally? r with
  | none =>
    cases r with
    | taken v => exact s.updateUnits_beside u (s.units.release_beside u v)
    | stored | refused | missed => exact .ok rfl
  | some t =>
    dsimp only
    rw [s.lend_tally u t]
    cases r with
    | taken v => exact (s.tally t).updateUnits_beside u ((s.tally t).units.release_beside u v)
    | stored | refused | missed => exact .ok rfl

theorem steal_advance_beside :
    Ensures (Call.steal.advance .steal s) fun x =>
      Call.steal.advance .steal (s.lend u) = .ok (x.1, x.2.lend u) := by
  have hdeque : (s.lend u).deque = s.deque := rfl
  rw [advance_eq, advance_eq]
  simp only [FreeStage.run, Site.peekSteal, hdeque]
  split
  · simp only [pure_eq_ok, ok_bind, settle]
    exact (conclude_beside s u .steal .missed).bind_beside fun _ => .ok rfl
  · exact .ok rfl

theorem steal_grant_beside (ticket ahead : Nat) :
    Ensures (Call.steal.grant ticket ahead .steal s) fun x =>
      Call.steal.grant ticket ahead .steal (s.lend u) = .ok (x.1, x.2.lend u) := by
  have hdeque : (s.lend u).deque = s.deque := rfl
  unfold grant
  rw [hdeque]
  cases require (s.deque.foreign.serves ticket) .brokenLine with
  | error e => exact .error _ _
  | ok _ =>
    simp only [ok_bind, LockedStage.run, s.lend_noteWait u]
    refine ((s.noteWait ahead).stealLocked_beside u).bind_beside ?_
    rintro ⟨next, s'⟩
    cases next with
    | go stage => exact .ok rfl
    | reply r =>
      exact (conclude_beside s'.released u .steal r).bind_beside fun _ => .ok rfl

end Call

end WorkStealing
