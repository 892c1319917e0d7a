import WorkStealing.Proofs.Deque.Turns
import WorkStealing.Proofs.Ensures

set_option autoImplicit false

/-!
# Pushes that store nothing

A push touches the slots of a pool only to store its unit there, or once it has a larger ring to
move them to. Until it is stored, and for good if it is refused, every slot is as it was.
-/
namespace WorkStealing

structure Site.SameRings (s s' : Site) : Prop where
  ring : s'.deque.ring = s.deque.ring
  replaced : s'.deque.foreign.contents = s.deque.foreign.contents

namespace Site.SameRings

variable {s s' s'' : Site}

theorem refl (s : Site) : s.SameRings s := ⟨rfl, rfl⟩

theorem trans (h : s.SameRings s') (h' : s'.SameRings s'') : s.SameRings s'' :=
  ⟨h'.ring.trans h.ring, h'.replaced.trans h.replaced⟩

theorem tally (s : Site) (t : Tally) : s.SameRings (s.tally t) := by
  unfold Site.tally
  split <;> exact ⟨rfl, rfl⟩

theorem noteWait (s : Site) (rounds : Nat) : s.SameRings (s.noteWait rounds) := by
  unfold Site.noteWait
  split <;> exact ⟨rfl, rfl⟩

end Site.SameRings

theorem Site.updateUnits_sameRings (s : Site) (f : UnitTable → Checked UnitTable) :
    Ensures (s.updateUnits f) s.SameRings :=
  .bind (.trivial _) fun _ _ => .ok ⟨rfl, rfl⟩

theorem Call.conclude_sameRings (call : Call) (r : Reply) (s : Site) :
    Ensures (call.conclude r s) s.SameRings := by
  refine (call.conclude_deque r s).mono ?_
  rintro s' ⟨m, hm⟩
  exact ⟨by rw [hm], by rw [hm]⟩

section Stages

variable {u : UnitId}

/-- What a free stage of a push of `u` comes to, as far as the rings are concerned. -/
def SparesFree (u : UnitId) (s : Site) : Next LockedStage × Site → Prop
  | (.reply r, s') => r = .stored ∨ s.SameRings s'
  | (.go locked, s') => (locked = .rebase u ∨ locked = .store u) ∧ s.SameRings s'

def SparesLocked (u : UnitId) (s : Site) : Next FreeStage × Site → Prop
  | (.reply r, s') => r = .stored ∨ s.SameRings s'
  | (.go stage, s') => stage = .place u ∧ s.SameRings s'

theorem place_sparesFree (u : UnitId) (s : Site) : Ensures (s.place u) (SparesFree u s) := by
  unfold Site.place
  split
  · exact .bind (.trivial _) fun _ _ => .ok (.inl rfl)
  · exact .ok ⟨.inr rfl, .refl s⟩

theorem push_sparesFree (u : UnitId) (s : Site) : Ensures (s.push u) (SparesFree u s) := by
  unfold Site.push
  refine .bind (.trivial _) fun holder _ => ?_
  cases holder with
  | some q => exact .bind (Site.updateUnits_sameRings s _) fun s' h => .ok (.inr h)
  | none =>
    dsimp only
    split
    · exact .ok ⟨.inl rfl, ⟨rfl, rfl⟩⟩
    · have hattach : s.SameRings (s.attach u) := ⟨rfl, rfl⟩
      refine (place_sparesFree u (s.attach u)).mono ?_
      rintro ⟨next, s'⟩ h
      cases next with
      | reply r => exact Or.imp_right hattach.trans h
      | go locked => exact ⟨h.1, hattach.trans h.2⟩

theorem free_spares {stage : FreeStage} (h : stage = .push u ∨ stage = .place u) (s : Site) :
    Ensures (stage.run s) (SparesFree u s) := by
  rcases h with rfl | rfl
  · exact push_sparesFree u s
  · exact place_sparesFree u s

theorem rebase_spares (u : UnitId) (s : Site) :
    Ensures ((LockedStage.rebase u).run s) (SparesLocked u s) := by
  have hrebase : Ensures s.rebase s.SameRings := by
    refine .bind (.trivial _) fun _ _ => .ok ?_
    have htally := Site.SameRings.tally ((s.setHead (s.deque.ring.position s.deque.head)).setTail
      (s.deque.ring.position s.deque.tail)) .rebase
    exact ⟨htally.ring, htally.replaced⟩
  exact .bind hrebase fun s' h => .ok ⟨rfl, h⟩

theorem grow_spares (s : Site) (n : Nat) :
    Ensures (s.grow n) fun o => o.1 = none ∨ s.SameRings o.2 := by
  unfold Site.grow
  refine .bind (.trivial _) fun growth _ => ?_
  cases growth with
  | error e => exact .ok (.inr ⟨rfl, rfl⟩)
  | ok growth => exact .ok (.inl rfl)

theorem store_spares (u : UnitId) (s : Site) :
    Ensures ((LockedStage.store u).run s) (SparesLocked u s) := by
  change Ensures (s.storeLocked u) _
  unfold Site.storeLocked
  refine .bind (.trivial _) fun _ _ => .bind (.trivial _) fun n _ => ?_
  split
  · exact .bind (.trivial _) fun _ _ => .ok (.inl rfl)
  · refine .bind (grow_spares s n) ?_
    rintro ⟨e, s'⟩ h
    cases e with
    | none => exact .bind (.trivial _) fun _ _ => .ok (.inl rfl)
    | some e =>
      have hsame : s.SameRings s' := h.resolve_left (by simp)
      refine .bind (Site.updateUnits_sameRings s' _) fun s₁ h₁ => ?_
      refine .bind (Site.updateUnits_sameRings s₁ _) fun s₂ h₂ => .ok (.inr ?_)
      exact hsame.trans (h₁.trans h₂)

theorem locked_spares {locked : LockedStage} (h : locked = .rebase u ∨ locked = .store u)
    (s : Site) : Ensures (locked.run s) (SparesLocked u s) := by
  rcases h with rfl | rfl
  · exact rebase_spares u s
  · exact store_spares u s

end Stages

namespace Call

variable {u : UnitId}

theorem advance_spares {stage : FreeStage} (h : stage = .push u ∨ stage = .place u) (s : Site) :
    Ensures ((Call.push u).advance stage s) fun o => match o.1 with
      | .landed r => r = .stored ∨ s.SameRings o.2
      | .waiting _ _ locked => (locked = .rebase u ∨ locked = .store u) ∧ s.SameRings o.2 := by
  refine .bind (free_spares h s) ?_
  rintro ⟨next, s'⟩ hs
  cases next with
  | reply r =>
    refine .bind (conclude_sameRings _ _ s') fun s'' hs' => .ok ?_
    exact hs.imp_right fun hs => hs.trans hs'
  | go locked => exact .ok ⟨hs.1, hs.2.trans ⟨rfl, rfl⟩⟩

theorem grant_spares {locked : LockedStage} (h : locked = .rebase u ∨ locked = .store u)
    (ticket ahead : Nat) (s : Site) :
    Ensures ((Call.push u).grant ticket ahead locked s) (SparesLocked u s) := by
  have hwait := Site.SameRings.noteWait s ahead
  refine .bind (.trivial _) fun _ _ => .bind (locked_spares h (s.noteWait ahead)) ?_
  rintro ⟨next, s'⟩ hs
  cases next with
  | reply r =>
    have hrelease : s'.SameRings (s'.setForeign s'.deque.foreign.release) := ⟨rfl, rfl⟩
    refine .bind (conclude_sameRings _ _ _) fun s'' hs' => .ok ?_
    exact hs.imp_right fun hs => hwait.trans (hs.trans (hrelease.trans hs'))
  | go stage => exact .ok ⟨hs.1, hwait.trans (hs.2.trans ⟨rfl, rfl⟩)⟩

theorem fly_spares {grants : Nat} {stage : FreeStage} (h : stage = .push u ∨ stage = .place u)
    (s : Site) :
    Ensures ((Call.push u).fly grants stage s) fun o =>
      o.1 = .landed .stored ∨ s.SameRings o.2 := by
  induction grants generalizing stage s with
  | zero =>
    rw [fly]
    refine .bind (advance_spares h s) ?_
    rintro ⟨flight, s'⟩ hs
    cases flight with
    | landed r => exact .ok (hs.imp_left (congrArg _))
    | waiting ticket ahead locked =>
      dsimp only
      split
      · exact .error _ _
      · exact .ok (.inr hs.2)
  | succ grants ih =>
    rw [fly]
    refine .bind (advance_spares h s) ?_
    rintro ⟨flight, s'⟩ hs
    cases flight with
    | landed r => exact .ok (hs.imp_left (congrArg _))
    | waiting ticket ahead locked =>
      dsimp only
      split
      · refine .bind (grant_spares hs.1 ticket ahead s') ?_
        rintro ⟨next, s''⟩ hs'
        cases next with
        | reply r => exact .ok (hs'.imp (congrArg _) hs.2.trans)
        | go stage =>
          refine (ih (.inr hs'.1) s'').mono fun o ho => ?_
          exact ho.imp_right fun ho => hs.2.trans (hs'.2.trans ho)
      · exact .ok (.inr hs.2)

/-- A push that is not stored leaves every slot of the pool as it was. -/
theorem push_spares (u : UnitId) (s : Site) :
    Ensures ((Call.push u).perform s) fun o => o.1 = .stored ∨ s.SameRings o.2 := by
  have hlaunch : Ensures ((Call.push u).launch s) fun o => o.1 = .push u ∧ s.SameRings o.2 :=
    .bind (Site.updateUnits_sameRings s _) fun _ h => .ok ⟨rfl, h⟩
  have hstart : Ensures ((Call.push u).start s) fun o =>
      o.1 = .landed .stored ∨ s.SameRings o.2 := by
    refine .bind hlaunch ?_
    rintro ⟨stage, s'⟩ ⟨hstage, hs⟩
    refine (fly_spares (.inl hstage) s').mono fun o ho => ?_
    exact ho.imp_right hs.trans
  refine .bind hstart ?_
  rintro ⟨flight, s'⟩ hs
  cases flight with
  | landed r => exact .ok (hs.imp_left Flight.landed.inj)
  | waiting ticket ahead locked => exact .error _ _

end Call

end WorkStealing
