import WorkStealing.Proofs.Deque.Solo
import WorkStealing.Proofs.Deque.Unmetered

set_option autoImplicit false

/-!
# Which calls need the lock

The free stage of a call does not look at the counters of the lock: with any counters it ends alike.
Whether it ends with an answer or at the lock is told by the window and the unit that the call
names.
-/
namespace WorkStealing

namespace Site

def relocked (next now : Nat) (s : Site) : Site :=
  s.setForeign { s.deque.foreign with nextTicket := next, nowServing := now }

end Site

def relockedSite {α : Type} (next now : Nat) (o : α × Site) : α × Site :=
  (o.1, o.2.relocked next now)

namespace Site

variable (s : Site) (next now : Nat)

section FreeStages

theorem relocked_updateUnits (f : UnitTable → Checked UnitTable) :
    (s.relocked next now).updateUnits f = relocked next now <$> s.updateUnits f :=
  bind_same fun _ => rfl

theorem relocked_putAtTail (u : UnitId) :
    (s.relocked next now).putAtTail u = relocked next now <$> s.putAtTail u :=
  bind_same fun _ => bind_same fun _ => rfl

theorem relocked_grab (index : Nat) (expected : Option UnitId) :
    (s.relocked next now).grab index expected =
      relockedSite next now <$> s.grab index expected := by
  refine bind_same fun c => ?_
  cases c with
  | none => rfl
  | some u => exact ite_mapped (fun _ => bind_same fun _ => bind_same fun _ => rfl) fun _ => rfl

theorem relocked_place (u : UnitId) :
    (s.relocked next now).place u = relockedSite next now <$> s.place u :=
  ite_mapped (fun _ => bind_mapped (s.relocked_putAtTail next now u) fun _ => rfl) fun _ => rfl

theorem relocked_push (u : UnitId) :
    (s.relocked next now).push u = relockedSite next now <$> s.push u := by
  refine bind_same fun holder => ?_
  cases holder with
  | some holder => exact bind_mapped (s.relocked_updateUnits next now _) fun _ => rfl
  | none => exact ite_mapped (fun _ => rfl) fun _ => (s.attach u).relocked_place next now u

theorem relocked_popAbove (expected : Option UnitId) (above : Nat) :
    (s.relocked next now).popAbove expected above =
      relockedSite next now <$> s.popAbove expected above := by
  induction above generalizing s with
  | zero => exact bind_same fun _ => rfl
  | succ above ih =>
    refine bind_same fun tail =>
      bind_mapped ((s.setTail tail).relocked_grab next now tail expected) ?_
    rintro ⟨grab, s⟩
    cases grab with
    | taken u => rfl
    | hole => exact ite_mapped (fun _ => ih s) fun _ => rfl
    | other => exact bind_same fun _ => rfl

theorem relocked_popBack (expected : Option UnitId) :
    (s.relocked next now).popBack expected = relockedSite next now <$> s.popBack expected :=
  ite_mapped (fun _ => rfl) fun _ => s.relocked_popAbove next now expected _

theorem relocked_scan (side : Side) (u : UnitId) :
    (s.relocked next now).scan side u = relockedSite next now <$> s.scan side u := by
  refine bind_same fun index => ?_
  cases index <;> rfl

theorem relocked_remove (side : Side) (u : UnitId) :
    (s.relocked next now).remove side u = relockedSite next now <$> s.remove side u := by
  refine bind_same fun holder => ite_mapped (fun _ => rfl) fun _ => ?_
  cases side with
  | foreign => exact s.relocked_scan next now .foreign u
  | owner =>
    refine ite_mapped (fun _ => rfl) fun _ => bind_same fun newest => bind_same fun c => ?_
    exact ite_mapped (fun _ => s.relocked_popBack next now (some u)) fun _ =>
      s.relocked_scan next now .owner u

theorem relocked_runFree (stage : FreeStage) :
    stage.run (s.relocked next now) = relockedSite next now <$> stage.run s := by
  cases stage with
  | push u => exact s.relocked_push next now u
  | place u => exact s.relocked_place next now u
  | popBack expected => exact s.relocked_popBack next now expected
  | steal => exact ite_mapped (fun _ => rfl) fun _ => rfl
  | remove side u => exact s.relocked_remove next now side u
  | scan side u => exact s.relocked_scan next now side u

end FreeStages

end Site

namespace Call

variable (call : Call) (s : Site) (next now : Nat)

theorem relocked_launch :
    call.launch (s.relocked next now) = relockedSite next now <$> call.launch s := by
  cases call with
  | push u => exact bind_mapped (s.relocked_updateUnits next now _) fun _ => rfl
  | pop | steal | remove => rfl

theorem relocked_opening :
    call.opening (s.relocked next now) = relockedSite next now <$> call.opening s := by
  refine bind_mapped (call.relocked_launch s next now) ?_
  rintro ⟨stage, s⟩
  exact s.relocked_runFree next now stage

theorem relocked_conclude (r : Reply) :
    call.conclude r (s.relocked next now) = Site.relocked next now <$> call.conclude r s := by
  have htally (t : Tally) : (s.relocked next now).tally t = (s.tally t).relocked next now := by
    unfold Site.tally
    change (if s.telemetry then _ else _) = _
    cases s.telemetry <;> rfl
  unfold conclude
  cases call.tally? r with
  | none =>
    cases r with
    | taken u => exact s.relocked_updateUnits next now _
    | _ => rfl
  | some t =>
    dsimp only
    rw [htally]
    cases r with
    | taken u => exact (s.tally t).relocked_updateUnits next now _
    | _ => rfl

end Call

/-! ## Which windows send a call to the lock -/

namespace Site

/-- Whether a call has to take the lock. A push does if its unit is free but there is no room for
it, or the tail is at its end; a pop if no unit is left above the head slot; a steal if the window
is not empty; a removal if its unit is queued here, unless the owner finds it in the newest slot and
that is not the last one. -/
def Contends (s : Site) : Call → Prop
  | .push u => s.units.holder? u = none ∧
      (s.deque.tail = Word.max ∨ s.deque.capacity - 1 ≤ s.deque.tail - s.deque.head)
  | .pop => s.deque.head < s.deque.tail ∧
      ∀ i, s.deque.head + 1 ≤ i → i < s.deque.tail → s.deque.ring.cell i = none
  | .steal => s.deque.head < s.deque.tail
  | .remove .foreign u => u ∈ s.deque.queued
  | .remove .owner u => u ∈ s.deque.queued ∧
      (s.deque.ring.cell (s.deque.tail - 1) ≠ some u ∨ s.deque.tail - s.deque.head = 1)

end Site

namespace Slots

theorem dropNewest_cons_of_units_eq_nil {w : Slots} (h : units w = []) (c : Option UnitId) :
    dropNewest (c :: w) = [] := by
  induction w using List.reverseRecOn with
  | nil => cases c <;> rfl
  | append_singleton w c' ih =>
    rw [units_append, List.append_eq_nil_iff] at h
    cases c' with
    | none =>
      rw [← List.cons_append, dropNewest_concat_none]
      exact ih h.1
    | some u => cases h.2

end Slots

namespace Deque

theorem queued_cons {d : Deque} (h : d.head < d.tail) :
    d.queued = (d.ring.cell d.head).toList ++ { d with head := d.head + 1 }.queued := by
  rw [queued_eq, queued_eq, window_cons h]
  cases d.ring.cell d.head <;> rfl

theorem holes_iff {d : Deque} :
    (∀ i, d.head + 1 ≤ i → i < d.tail → d.ring.cell i = none) ↔
      { d with head := d.head + 1 }.queued = [] := by
  rw [List.eq_nil_iff_forall_not_mem]
  constructor
  · intro h u hu
    obtain ⟨i, hi, hi', hc⟩ := mem_queued.1 hu
    have hnone := h i hi hi'
    exact nomatch hnone.symm.trans hc
  · intro h i hi hi'
    refine Option.eq_none_iff_forall_ne_some.2 fun u hc => ?_
    exact h u (mem_queued.2 ⟨i, hi, hi', hc⟩)

end Deque

namespace Site

variable {s : Site}

/-- The free stages of the call end, and at the lock exactly if `p`. -/
def EndsAtLock (s : Site) (run : Checked (Next LockedStage × Site)) (p : Prop) : Prop :=
  ∃ o s', run = .ok (o, s') ∧ s'.deque.foreign = s.deque.foreign ∧ ((∃ stage, o = .go stage) ↔ p)

theorem endsAtLock_reply {r : Reply} {s' : Site} {p : Prop}
    (hs : s'.deque.foreign = s.deque.foreign) (hp : ¬ p) : s.EndsAtLock (.ok (.reply r, s')) p :=
  ⟨_, s', rfl, hs, ⟨fun ⟨_, h⟩ => (nomatch h), fun h => absurd h hp⟩⟩

theorem endsAtLock_go {stage : LockedStage} {s' : Site} {p : Prop}
    (hs : s'.deque.foreign = s.deque.foreign) (hp : p) : s.EndsAtLock (.ok (.go stage, s')) p :=
  ⟨_, s', rfl, hs, ⟨fun _ => hp, fun _ => ⟨stage, rfl⟩⟩⟩

theorem push_endsAtLock (h : s.Sound []) {u : UnitId} (hr : s.units.Registered u) :
    s.EndsAtLock ((Call.push u).opening s) (s.Contends (.push u)) := by
  obtain ⟨e, he, hrefs⟩ := h.counted.exists_entry hr
  cases hn : s.units.holder? u with
  | some q =>
    rw [Call.opening, push_held he hrefs hn]
    refine endsAtLock_reply rfl fun hc => ?_
    have hnone := hn.symm.trans hc.1
    cases hnone
  | none =>
    rw [Call.opening, push_free he hrefs hn]
    by_cases ht : s.deque.tail = Word.max
    · rw [if_pos ht]
      exact endsAtLock_go rfl ⟨hn, .inl ht⟩
    · have hd : (s.setUnits (s.units.hold u s.deque.id)).deque.Sound := h.deque
      have hlength : s.deque.length = s.deque.tail - s.deque.head := rfl
      have hcapacity : s.deque.capacity = s.deque.ring.capacity := rfl
      rw [if_neg ht]
      by_cases hroom : s.deque.length + 1 < s.deque.ring.capacity
      · rw [place_stored hd hroom (Nat.lt_of_le_of_ne h.deque.tail_le ht)]
        refine endsAtLock_reply rfl fun hc => ?_
        have := hc.2.resolve_left ht
        omega
      · rw [place_full hd (Nat.le_of_not_lt hroom)]
        exact endsAtLock_go rfl ⟨hn, .inr (by omega)⟩

theorem pop_endsAtLock (h : s.Sound []) : s.EndsAtLock (Call.pop.opening s) (s.Contends .pop) := by
  change s.EndsAtLock (s.popBack none) _
  by_cases hlt : s.deque.head < s.deque.tail
  · have hqueued := Deque.queued_cons hlt
    rcases popBack_none h.deque (fun _ _ => h.knows_of_cell) hlt with
      ⟨t, u, hrun, ht, -, -, hwindow, -⟩ | ⟨hrun, -, -, -, hunits⟩
    · rw [hrun]
      refine endsAtLock_reply rfl fun hc => ?_
      -- without a unit above the head nothing would be left of the window
      have hnil : ((s.setTail t).grabbed t u).deque.window = [] := by
        rw [hwindow, Deque.window_cons hlt]
        exact Slots.dropNewest_cons_of_units_eq_nil (Deque.holes_iff.1 hc.2) _
      have hle : t ≤ s.deque.head := Deque.window_eq_nil.1 hnil
      omega
    · rw [hrun]
      refine endsAtLock_go rfl ⟨hlt, Deque.holes_iff.2 ?_⟩
      rw [Deque.queued_eq s.deque, hunits] at hqueued
      exact List.self_eq_append_right.1 hqueued
  · rw [popBack_empty (Nat.le_of_not_lt hlt)]
    exact endsAtLock_reply rfl fun hc => hlt hc.1

theorem steal_endsAtLock (s : Site) : s.EndsAtLock (Call.steal.opening s) (s.Contends .steal) := by
  change s.EndsAtLock s.peekSteal _
  rw [peekSteal]
  split
  · rename_i hle
    exact endsAtLock_reply rfl (Nat.not_lt.2 hle)
  · rename_i hlt
    exact endsAtLock_go rfl (Nat.lt_of_not_le hlt)

theorem remove_endsAtLock (h : s.Sound []) {u : UnitId} (hk : s.units.Knows u) (side : Side) :
    s.EndsAtLock ((Call.remove side u).opening s) (s.Contends (.remove side u)) := by
  change s.EndsAtLock (s.remove side u) _
  have hholder : s.units.holder? u = some s.deque.id ↔ u ∈ s.deque.queued := by
    simpa using h.holder u
  by_cases hqueued : u ∈ s.deque.queued
  · have hheld := hholder.2 hqueued
    obtain ⟨i, hi, hi', hc⟩ := Deque.mem_queued.1 hqueued
    cases side with
    | foreign =>
      obtain ⟨j, -, -, -, hscan⟩ := scan_found h.deque .foreign hi hi' hc
      rw [remove_foreign hheld, hscan]
      exact endsAtLock_go rfl hqueued
    | owner =>
      have hlt : s.deque.head < s.deque.tail := by omega
      rw [remove_owner h.deque.ring hheld, if_neg (Nat.not_le.2 hlt)]
      by_cases hlast : s.deque.ring.cell (s.deque.tail - 1) = some u
      · rw [if_pos hlast, popBack_some h.deque (h.knows_of_cell hc) hlt hlast]
        split
        · refine endsAtLock_reply rfl fun hcontends => ?_
          have := hcontends.2.resolve_left fun hne => hne hlast
          omega
        · exact endsAtLock_go rfl ⟨hqueued, .inr (by omega)⟩
      · have hi'' : i < s.scanEnd .owner := by
          have hne : i ≠ s.deque.tail - 1 := fun hi => hlast (hi ▸ hc)
          change i < s.deque.tail - 1
          omega
        obtain ⟨j, -, -, -, hscan⟩ := scan_found h.deque .owner hi hi'' hc
        rw [if_neg hlast, hscan]
        exact endsAtLock_go rfl ⟨hqueued, .inl hlast⟩
  · rw [remove_elsewhere hk fun hheld => hqueued (hholder.1 hheld)]
    refine endsAtLock_reply rfl fun hcontends => hqueued ?_
    cases side with
    | foreign => exact hcontends
    | owner => exact hcontends.1

theorem opening_endsAtLock (h : s.Sound []) {call : Call} (hc : call.Admissible s.units) :
    s.EndsAtLock (call.opening s) (s.Contends call) := by
  cases call with
  | push u => exact push_endsAtLock h (hc u rfl)
  | pop => exact pop_endsAtLock h
  | steal => exact s.steal_endsAtLock
  | remove side u => exact remove_endsAtLock h (hc u rfl).knows side

/-- Behind a lock that somebody holds the call waits in line, at its end. -/
theorem start_waits (h : s.Sound []) {call : Call} (hc : call.Admissible s.units) {next now : Nat}
    (hheld : now < next) (hcontends : s.Contends call) :
    ∃ stage s', call.start (s.relocked next now) = .ok (.waiting next (next - now) stage, s') ∧
      s'.deque.foreign.nextTicket = next + 1 ∧ s'.deque.foreign.nowServing = now := by
  obtain ⟨o, s', hrun, -, ho⟩ := opening_endsAtLock h hc
  obtain ⟨stage, rfl⟩ := ho.2 hcontends
  have hopening : call.opening (s.relocked next now) =
      .ok (.go stage, s'.relocked next now) := by
    rw [Call.relocked_opening, hrun]
    rfl
  refine ⟨stage, (s'.relocked next now).held, ?_, rfl, rfl⟩
  rw [Call.start_eq, hopening, ok_bind]
  exact Call.proceed_go_held (s := s'.relocked next now) hheld _ stage

/-- A call that does not need the lock ends alike whether the lock is free or held. -/
theorem start_lands (h : s.Sound []) (hu : s.deque.Unlocked) {call : Call}
    (hc : call.Admissible s.units) (next now : Nat) (hcontends : ¬ s.Contends call) :
    ∃ r s', call.perform s = .ok (r, s') ∧ s'.deque.foreign = s.deque.foreign ∧
      call.start (s.relocked next now) = .ok (.landed r, s'.relocked next now) := by
  obtain ⟨o, s', hrun, hforeign, ho⟩ := opening_endsAtLock h hc
  obtain ⟨s'', hperform, -⟩ := perform_scene h hu hc
  cases o with
  | go stage => exact absurd (ho.1 ⟨stage, rfl⟩) hcontends
  | reply r =>
    have hstart : call.start s = call.conclude r s' >>= fun s'' => .ok (.landed r, s'') := by
      rw [Call.start_eq, hrun]
      rfl
    cases hend : call.conclude r s' with
    | error e =>
      rw [Call.perform, hstart, hend] at hperform
      cases hperform
    | ok s₁ =>
      obtain ⟨m, hm⟩ := call.conclude_deque r s' s₁ hend
      refine ⟨r, s₁, ?_, ?_, ?_⟩
      · rw [Call.perform, hstart, hend]
        rfl
      · rw [hm]
        exact hforeign
      · rw [Call.start_eq, Call.relocked_opening, hrun]
        change (call.conclude r (s'.relocked next now) >>= fun s'' => _) = _
        rw [Call.relocked_conclude, hend]
        rfl

end Site

end WorkStealing
