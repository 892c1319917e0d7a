import WorkStealing.Proofs.Deque.Turns
import WorkStealing.Proofs.Ensures

set_option autoImplicit false

/-!
# What all stages of a call have in common

A call changes its pool by a handful of elementary changes. What holds of each of them, and of one
change after another, holds of every stage, and of a call from its start to where it lands or waits.
This needs nothing of the state the pool is in.
-/
namespace WorkStealing

def Flight.tally? (call : Call) : Flight → Option Tally
  | .landed r => call.tally? r
  | .waiting .. => none

def Next.tally? {α : Type} (call : Call) : Next α → Option Tally
  | .reply r => call.tally? r
  | .go _ => none

namespace Site

/-- A relation between a site and what becomes of it, with what a call was counted under meanwhile,
that holds of the elementary changes. -/
structure Steady (R : Option Tally → Site → Site → Prop) : Prop where
  refl : ∀ s, R none s s
  trans : ∀ {o s s' s''}, R none s s' → R o s' s'' → R o s s''
  trans' : ∀ {o s s' s''}, R o s s' → R none s' s'' → R o s s''
  units : ∀ s t, R none s (s.setUnits t)
  head : ∀ s n, R none s (s.setHead n)
  tail : ∀ s n, R none s (s.setTail n)
  write : ∀ s i c, Ensures (s.deque.ring.write i c) fun ring =>
    R none s { s with deque := { s.deque with ring } }
  tickets : ∀ s l, l.contents = s.deque.foreign.contents → R none s (s.setForeign l)
  wait : ∀ s n, R none s (s.noteWait n)
  counted : ∀ s o, R o s (s.count o)
  rebased : ∀ s p m n, R none s ((s.tally .rebase).emit (.rebased p m n))
  grow : ∀ s n, Ensures (s.grow n) fun x => R none s x.2

namespace Steady

variable {R : Option Tally → Site → Site → Prop} (h : Steady R) (s : Site)

include h

section Elementary

theorem updateUnits (f : UnitTable → Checked UnitTable) :
    Ensures (s.updateUnits f) (R none s) :=
  .bind (.trivial _) fun units _ => .ok (h.units s units)

theorem putAtTail (u : UnitId) : Ensures (s.putAtTail u) (R none s) :=
  .bind (.trivial _) fun next _ => .bind (h.write s _ _) fun ring hring =>
    .ok (h.trans hring (h.tail { s with deque := { s.deque with ring } } next))

theorem grab (i : Nat) (e : Option UnitId) : Ensures (s.grab i e) fun x => R none s x.2 := by
  unfold Site.grab
  refine .bind (.trivial _) fun c _ => ?_
  cases c with
  | none => exact .ok (h.refl s)
  | some u =>
    dsimp only
    split
    · exact .bind (h.write s _ _) fun ring hring => .bind (.trivial _) fun units _ =>
        .ok (h.trans hring (h.units { s with deque := { s.deque with ring } } units))
    · exact .ok (h.refl s)

theorem settleHead (i : Nat) : Ensures (s.settleHead i) (R none s) := by
  unfold Site.settleHead
  split
  · refine .bind (.trivial _) fun _ _ => .ok ?_
    split
    · exact h.head s _
    · exact h.refl s
  · exact .ok (h.refl s)

theorem rebase : Ensures s.rebase (R none s) :=
  .bind (.trivial _) fun _ _ =>
    .ok (h.trans (h.trans (h.head s _) (h.tail _ _)) (h.rebased _ _ _ _))

end Elementary

section Free

theorem place (u : UnitId) : Ensures (s.place u) fun x => R none s x.2 := by
  unfold Site.place
  split
  · exact .bind (h.putAtTail s u) fun _ hs => .ok hs
  · exact .ok (h.refl s)

theorem push (u : UnitId) : Ensures (s.push u) fun x => R none s x.2 := by
  unfold Site.push
  refine .bind (.trivial _) fun holder _ => ?_
  cases holder with
  | some q => exact .bind (h.updateUnits s _) fun _ hs => .ok hs
  | none =>
    have hattach : R none s (s.attach u) := h.units s _
    dsimp only
    split
    · exact .ok hattach
    · exact (h.place (s.attach u) u).mono fun _ hs => h.trans hattach hs

theorem popAbove (e : Option UnitId) (above : Nat) :
    Ensures (s.popAbove e above) fun x => R none s x.2 := by
  induction above generalizing s with
  | zero => exact .bind (.trivial _) fun _ _ => .ok (h.tail s _)
  | succ above ih =>
    unfold Site.popAbove
    refine .bind (.trivial _) fun tail _ => .bind (h.grab (s.setTail tail) tail e) ?_
    rintro ⟨grab, s'⟩ hgrab
    have hs' : R none s s' := h.trans (h.tail s tail) hgrab
    cases grab with
    | taken u => exact .ok hs'
    | hole =>
      dsimp only
      split
      · exact (ih s').mono fun _ hs => h.trans hs' hs
      · exact .ok hs'
    | other => exact .bind (.trivial _) fun _ _ => .ok (h.trans hs' (h.tail s' _))

theorem popBack (e : Option UnitId) : Ensures (s.popBack e) fun x => R none s x.2 := by
  unfold Site.popBack
  split
  · exact .ok (h.refl s)
  · exact h.popAbove s e _

theorem peekSteal : Ensures s.peekSteal fun x => R none s x.2 := by
  unfold Site.peekSteal
  split <;> exact .ok (h.refl s)

theorem scan (side : Side) (u : UnitId) : Ensures (s.scan side u) fun x => R none s x.2 := by
  refine .bind (.trivial _) fun found _ => ?_
  cases found <;> exact .ok (h.refl s)

theorem remove (side : Side) (u : UnitId) :
    Ensures (s.remove side u) fun x => R none s x.2 := by
  unfold Site.remove
  refine .bind (.trivial _) fun holder _ => ?_
  split
  · exact .ok (h.refl s)
  · cases side with
    | foreign => exact h.scan s .foreign u
    | owner =>
      dsimp only
      split
      · exact .ok (h.refl s)
      · refine .bind (.trivial _) fun _ _ => .bind (.trivial _) fun _ _ => ?_
        split
        · exact h.popBack s _
        · exact h.scan s .owner u

theorem free (stage : FreeStage) : Ensures (stage.run s) fun x => R none s x.2 := by
  cases stage with
  | push u => exact h.push s u
  | place u => exact h.place s u
  | popBack e => exact h.popBack s e
  | steal => exact h.peekSteal s
  | remove side u => exact h.remove s side u
  | scan side u => exact h.scan s side u

end Free

section Locked

theorem storeLocked (u : UnitId) : Ensures (s.storeLocked u) fun x => R none s x.2 := by
  unfold Site.storeLocked
  refine .bind (.trivial _) fun _ _ => .bind (.trivial _) fun n _ => ?_
  split
  · exact .bind (h.putAtTail s u) fun _ hs => .ok hs
  · refine .bind (h.grow s n) ?_
    rintro ⟨e, s'⟩ hs'
    cases e with
    | none => exact .bind (h.putAtTail s' u) fun _ hs => .ok (h.trans hs' hs)
    | some e =>
      refine .bind (h.updateUnits s' _) fun s₁ h₁ => ?_
      exact .bind (h.updateUnits s₁ _) fun s₂ h₂ => .ok (h.trans hs' (h.trans h₁ h₂))

theorem lastSlot (e : Option UnitId) : Ensures (s.lastSlot e) fun x => R none s x.2 := by
  unfold Site.lastSlot
  dsimp only
  split
  · exact .bind (.trivial _) fun _ _ => .ok (h.tail s _)
  · refine .bind (h.grab s _ e) ?_
    rintro ⟨grab, s'⟩ hs'
    cases grab with
    | taken u => exact .ok hs'
    | hole =>
      dsimp only
      split <;> exact .ok hs'
    | other => exact .bind (.trivial _) fun _ _ => .ok (h.trans hs' (h.tail s' _))

theorem stealLocked : Ensures s.stealLocked fun x => R none s x.2 := by
  unfold Site.stealLocked
  dsimp only
  split
  · exact .ok (h.refl s)
  · refine .bind (.trivial _) fun next _ => .bind (h.grab (s.setHead next) _ none) ?_
    rintro ⟨grab, s'⟩ hgrab
    have hs' : R none s s' := h.trans (h.head s next) hgrab
    cases grab <;> exact .ok hs'

theorem extract (side : Side) (u : UnitId) (i g : Nat) :
    Ensures (s.extract side u i g) fun x => R none s x.2 := by
  unfold Site.extract
  split
  · exact .ok (h.refl s)
  · refine .bind (h.grab s i (some u)) ?_
    rintro ⟨grab, s'⟩ hs'
    cases grab with
    | taken v => exact .bind (h.settleHead s' i) fun _ hs => .ok (h.trans hs' hs)
    | hole => exact .ok hs'
    | other => exact .ok hs'

theorem locked (stage : LockedStage) : Ensures (stage.run s) fun x => R none s x.2 := by
  cases stage with
  | rebase u => exact .bind (h.rebase s) fun _ hs => .ok hs
  | store u => exact h.storeLocked s u
  | lastSlot e => exact h.lastSlot s e
  | steal => exact h.stealLocked s
  | extract side u i g => exact h.extract s side u i g

end Locked

section Calls

variable (call : Call)

theorem launch : Ensures (call.launch s) fun x => R none s x.2 := by
  cases call with
  | push u => exact .bind (h.updateUnits s _) fun _ hs => .ok hs
  | pop | steal | remove => exact .ok (h.refl s)

theorem conclude (r : Reply) : Ensures (call.conclude r s) (R (call.tally? r) s) := by
  cases r with
  | taken u =>
    rw [Call.conclude_of_taken]
    exact (h.updateUnits _ _).mono fun _ hs => h.trans' (h.counted s _) hs
  | stored | refused | missed =>
    rw [Call.conclude_of_not_taken (by simp)]
    exact .ok (h.counted s _)

theorem advance (stage : FreeStage) :
    Ensures (call.advance stage s) fun x => R (x.1.tally? call) s x.2 := by
  refine .bind (h.free s stage) ?_
  rintro ⟨next, s'⟩ hs'
  cases next with
  | reply r => exact .bind (h.conclude s' call r) fun _ hs => .ok (h.trans hs' hs)
  | go locked => exact .ok (h.trans hs' (h.tickets s' _ rfl))

theorem grant (ticket ahead : Nat) (stage : LockedStage) :
    Ensures (call.grant ticket ahead stage s) fun x => R (x.1.tally? call) s x.2 := by
  refine .bind (.trivial _) fun _ _ => .bind (h.locked (s.noteWait ahead) stage) ?_
  rintro ⟨next, s'⟩ hstage
  have hs' : R none s (s'.setForeign s'.deque.foreign.release) :=
    h.trans (h.wait s ahead) (h.trans hstage (h.tickets s' _ rfl))
  cases next with
  | reply r => exact .bind (h.conclude _ call r) fun _ hs => .ok (h.trans hs' hs)
  | go stage => exact .ok hs'

theorem fly (grants : Nat) (stage : FreeStage) :
    Ensures (call.fly grants stage s) fun x => R (x.1.tally? call) s x.2 := by
  induction grants generalizing stage s with
  | zero =>
    rw [Call.fly]
    refine .bind (h.advance s call stage) ?_
    rintro ⟨flight, s'⟩ hs'
    cases flight with
    | landed r => exact .ok hs'
    | waiting ticket ahead locked =>
      dsimp only
      split
      · exact .error _ _
      · exact .ok hs'
  | succ grants ih =>
    rw [Call.fly]
    refine .bind (h.advance s call stage) ?_
    rintro ⟨flight, s'⟩ hs'
    cases flight with
    | landed r => exact .ok hs'
    | waiting ticket ahead locked =>
      dsimp only
      split
      · refine .bind (h.grant s' call ticket ahead locked) ?_
        rintro ⟨next, s''⟩ hs''
        cases next with
        | reply r => exact .ok (h.trans hs' hs'')
        | go stage => exact (ih s'' stage).mono fun x hs => h.trans (h.trans hs' hs'') hs
      · exact .ok hs'

theorem start : Ensures (call.start s) fun x => R (x.1.tally? call) s x.2 := by
  refine .bind (h.launch s call) ?_
  rintro ⟨stage, s'⟩ hs'
  exact (h.fly s' call _ stage).mono fun x hs => h.trans hs' hs

theorem perform : Ensures (call.perform s) fun x => R (call.tally? x.1) s x.2 := by
  refine .bind (h.start s call) ?_
  rintro ⟨flight, s'⟩ hs'
  cases flight with
  | landed r => exact .ok hs'
  | waiting => exact .error _ _

end Calls

end Steady

end Site

end WorkStealing
