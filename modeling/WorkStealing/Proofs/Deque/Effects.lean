import WorkStealing.Proofs.Deque.Steady

set_option autoImplicit false

/-!
# What calls log and count

The log of a pool only grows. A call is counted once, at its end, under what it came to; on its way
there it counts at most growth, rebases and waits for the lock. A unit that is queued nowhere is
refused only after growth has failed, which is logged. This holds of every run that ends, in
whatever state the pool is.
-/
namespace WorkStealing

def Tally.isCall : Tally → Bool
  | .resize | .rebase => false
  | .push | .pop | .steal | .stealMiss | .remove | .removeMiss => true

/-- From `s` to `s'` the log has grown, and at most one call was counted, under `o`. -/
structure Site.Works (s : Site) (o : Option Tally) (s' : Site) : Prop where
  telemetry : s'.telemetry = s.telemetry
  log : s.log.toList <+: s'.log.toList
  count : ∀ t, t.isCall → s'.deque.metrics.count t =
    s.deque.metrics.count t + if s.telemetry ∧ o = some t then 1 else 0

namespace Site

namespace Works

variable {s s' s'' : Site} {o : Option Tally}

theorem of_same (htelemetry : s'.telemetry = s.telemetry) (hlog : s'.log = s.log)
    (hmetrics : s'.deque.metrics = s.deque.metrics) : s.Works none s' where
  telemetry := htelemetry
  log := hlog ▸ List.prefix_refl _
  count t _ := by simp [hmetrics]

theorem refl (s : Site) : s.Works none s := of_same rfl rfl rfl

theorem trans (h : s.Works none s') (h' : s'.Works o s'') : s.Works o s'' where
  telemetry := h'.telemetry.trans h.telemetry
  log := h.log.trans h'.log
  count t ht := by
    rw [h'.count t ht, h.count t ht, h.telemetry]
    simp

theorem trans' (h : s.Works o s') (h' : s'.Works none s'') : s.Works o s'' where
  telemetry := h'.telemetry.trans h.telemetry
  log := h.log.trans h'.log
  count t ht := by
    rw [h'.count t ht, h.count t ht]
    simp

theorem emit (s : Site) (e : Event) : s.Works none (s.emit e) where
  telemetry := rfl
  log := by simp [Site.emit]
  count t _ := by simp [Site.emit]

theorem tally (s : Site) (t : Tally) : s.Works (some t) (s.tally t) := by
  unfold Site.tally
  by_cases htel : s.telemetry = true
  · rw [if_pos htel]
    refine ⟨rfl, List.prefix_refl _, fun t' _ => ?_⟩
    rw [Metrics.count_add]
    simp [htel]
  · rw [if_neg htel]
    exact ⟨rfl, List.prefix_refl _, fun t' _ => by simp [htel]⟩

theorem tally_apart (s : Site) {t : Tally} (ht : t.isCall = false) : s.Works none (s.tally t) where
  telemetry := (tally s t).telemetry
  log := (tally s t).log
  count t' ht' := by
    have hne : t ≠ t' := by
      rintro rfl
      rw [ht] at ht'
      cases ht'
    rw [(tally s t).count t' ht']
    simp [hne]

theorem counted (s : Site) (o : Option Tally) : s.Works o (s.count o) := by
  cases o with
  | none => exact refl s
  | some t => exact tally s t

theorem noteWait (s : Site) (rounds : Nat) : s.Works none (s.noteWait rounds) := by
  unfold Site.noteWait
  split
  · exact ⟨rfl, List.prefix_refl _, fun t _ => by simp [Metrics.count_addLockWait]⟩
  · exact refl s

theorem steady : Steady fun o s s' => s.Works o s' where
  refl := refl
  trans := trans
  trans' := trans'
  units _ _ := of_same rfl rfl rfl
  head _ _ := of_same rfl rfl rfl
  tail _ _ := of_same rfl rfl rfl
  write _ _ _ := fun _ _ => of_same rfl rfl rfl
  tickets _ _ _ := of_same rfl rfl rfl
  wait := noteWait
  counted := counted
  rebased s _ _ _ := .trans (.tally_apart s rfl) (.emit _ _)
  grow s n := by
    unfold Site.grow
    refine .bind (.trivial _) fun growth _ => ?_
    cases growth with
    | error e => exact .ok (.emit s _)
    | ok growth =>
      have hgrew := Works.emit s
        (.grew s.deque.id s.deque.name s.deque.capacity growth.grown.capacity n)
      refine .ok (hgrew.trans (Works.trans (Works.of_same ?_ ?_ ?_) (Works.tally_apart _ rfl)))
      all_goals rfl

end Works

end Site

namespace Call

variable (call : Call) (s : Site)

theorem advance_works (stage : FreeStage) :
    Ensures (call.advance stage s) fun x => s.Works (x.1.tally? call) x.2 :=
  Site.Works.steady.advance s call stage

theorem grant_works (ticket ahead : Nat) (stage : LockedStage) :
    Ensures (call.grant ticket ahead stage s) fun x => s.Works (x.1.tally? call) x.2 :=
  Site.Works.steady.grant s call ticket ahead stage

theorem start_works : Ensures (call.start s) fun x => s.Works (x.1.tally? call) x.2 :=
  Site.Works.steady.start s call

theorem perform_works : Ensures (call.perform s) fun x => s.Works (call.tally? x.1) x.2 :=
  Site.Works.steady.perform s call

end Call

def Event.isGrowthFailure : Event → Bool
  | .growthFailed .. => true
  | .created .. | .grew .. | .rebased .. | .dropped .. => false

def Site.AlwaysGrew (s : Site) : Prop := ∀ e ∈ s.log.toList, e.isGrowthFailure = false

instance (s : Site) : Decidable s.AlwaysGrew := List.decidableBAll ..

theorem Site.Works.alwaysGrew {s s' : Site} {o : Option Tally} (h : s.Works o s')
    (hs' : s'.AlwaysGrew) : s.AlwaysGrew :=
  fun e he => hs' e (h.log.subset he)

section Refusals

variable (s : Site) (u : UnitId)

theorem Site.place_accepts :
    Ensures (s.place u) fun x => ∀ e, x.1 ≠ .reply (.refused e) := by
  unfold place
  split
  · exact .bind (.trivial _) fun _ _ => .ok (by simp)
  · exact .ok (by simp)

theorem Site.push_accepts (hu : s.units.holder? u = none) :
    Ensures (s.push u) fun x => ∀ e, x.1 ≠ .reply (.refused e) := by
  unfold push
  refine .bind (P := fun holder => holder = none) ?_ ?_
  · intro holder hholder
    unfold UnitTable.holder UnitTable.lookup at hholder
    cases he : s.units.find? u with
    | none =>
      rw [he] at hholder
      cases hholder
    | some e =>
      rw [he] at hholder
      cases hholder
      simpa [UnitTable.holder?, he] using hu
  · rintro _ rfl
    dsimp only
    split
    · exact .ok (by simp)
    · exact (s.attach u).place_accepts u

theorem Site.storeLocked_refused :
    Ensures (s.storeLocked u) fun x => ∀ e, x.1 = .reply (.refused e) → ¬ x.2.AlwaysGrew := by
  unfold storeLocked
  refine .bind (.trivial _) fun _ _ => .bind (.trivial _) fun n _ => ?_
  split
  · exact .bind (.trivial _) fun _ _ => .ok (by simp)
  · refine .bind (P := fun x => x.1.isSome → ¬ x.2.AlwaysGrew) ?_ ?_
    · unfold grow
      refine .bind (.trivial _) fun growth _ => ?_
      cases growth with
      | error e =>
        refine .ok fun _ h => ?_
        have hfailed := h (.growthFailed s.deque.id s.deque.capacity e) (by simp [Site.emit])
        cases hfailed
      | ok growth => exact .ok (by simp)
    · rintro ⟨e, s'⟩ h
      cases e with
      | none => exact .bind (.trivial _) fun _ _ => .ok (by simp)
      | some e =>
        refine .bind (Works.steady.updateUnits s' _) fun s₁ h₁ => ?_
        refine .bind (Works.steady.updateUnits s₁ _) fun s₂ h₂ => .ok fun _ _ hs₂ => ?_
        exact h rfl (h₁.alwaysGrew (h₂.alwaysGrew hs₂))

namespace Call

variable (call : Call)

theorem advance_accepts (stage : FreeStage)
    (h : Ensures (stage.run s) fun x => ∀ e, x.1 ≠ .reply (.refused e)) :
    Ensures (call.advance stage s) fun x => ∀ e, x.1 ≠ .landed (.refused e) := by
  refine .bind h ?_
  rintro ⟨next, s'⟩ hx
  cases next with
  | reply r => exact .bind (.trivial _) fun _ _ => .ok fun e he => hx e (by cases he; rfl)
  | go locked => exact .ok (by simp)

theorem grant_refused {ticket ahead : Nat} {stage : LockedStage}
    (h : stage = .rebase u ∨ stage = .store u) :
    Ensures (call.grant ticket ahead stage s) fun x => ∀ e, x.1 = .reply (.refused e) →
      ¬ x.2.AlwaysGrew := by
  have hstage : Ensures (stage.run (s.noteWait ahead)) fun x =>
      ∀ e, x.1 = .reply (.refused e) → ¬ x.2.AlwaysGrew := by
    rcases h with rfl | rfl
    · exact .bind (.trivial _) fun _ _ => .ok (by simp)
    · exact Site.storeLocked_refused _ u
  refine .bind (.trivial _) fun _ _ => .bind hstage ?_
  rintro ⟨next, s'⟩ hx
  cases next with
  | go stage => exact .ok (by simp)
  | reply r =>
    refine .bind (Site.Works.steady.conclude _ call r) fun s'' h' => .ok fun e he hs'' => ?_
    cases he
    exact hx e rfl (h'.alwaysGrew hs'')

end Call

end Refusals

end WorkStealing
