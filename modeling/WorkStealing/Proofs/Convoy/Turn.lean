import WorkStealing.Proofs.Convoy.Boarding

set_option autoImplicit false

/-!
# Turns in the line

When its turn comes a call runs its locked stage, lets the lock go, and runs the free stage that may
follow. It lands or goes back to the end of the line, and either way less is left to be granted.
-/
namespace WorkStealing

namespace Call

def turn (call : Call) (ticket ahead : Nat) (stage : LockedStage) (s : Site) :
    Checked (Flight × Site) := do
  match ← call.grant ticket ahead stage s with
  | (.reply r, s) => return (.landed r, s)
  | (.go stage, s) => call.advance stage s

end Call

/-- A locked stage, the release of the lock, and the free stage that may follow. -/
def LockedStage.pass (stage : LockedStage) (s : Site) : Checked (Next LockedStage × Site) := do
  match ← stage.run s with
  | (.reply r, s) => return (.reply r, s.released)
  | (.go stage, s) => stage.run s.released

theorem Call.turn_eq {s : Site} {ticket : Nat} (h : s.deque.foreign.nowServing = ticket)
    (call : Call) (ahead : Nat) (stage : LockedStage) :
    call.turn ticket ahead stage s = stage.pass (s.noteWait ahead) >>= call.settle := by
  have hserves : s.deque.foreign.serves ticket = true := decide_eq_true h
  rw [turn, grant, require_eq_ok hserves, ok_bind, LockedStage.pass]
  cases stage.run (s.noteWait ahead) with
  | error e => rfl
  | ok o =>
    obtain ⟨next, x⟩ := o
    cases next with
    | reply r =>
      change ((call.conclude r x.released >>= fun y => pure (Next.reply r, y)) >>= _) =
        (call.conclude r x.released >>= fun y => pure (Flight.landed r, y))
      cases call.conclude r x.released <;> rfl
    | go stage => exact call.advance_eq stage x.released

namespace Site

def Releases (s x : Site) : Prop :=
  x.deque.foreign.nowServing = s.deque.foreign.nowServing + 1 ∧
    x.deque.foreign.nextTicket = s.deque.foreign.nextTicket

variable {s : Site} {π : Pledge} {call : Call} {stage : Option LockedStage} {budget : Nat}

theorem Yields.released {r : Reply} {x : Site} (h : s.Yields π call stage budget (.reply r, x)) :
    s.Yields π call stage budget (.reply r, x.released) := h

theorem Stands.whole_eq (h : s.Stands π) (hlt : s.deque.head < s.deque.tail) (x : Site) :
    x.whole π = x := by
  cases π with
  | none | unit => rfl
  | slot =>
    have := h.lowered rfl
    omega

theorem Stands.backlog_eq (h : s.Stands π) (hlt : s.deque.head < s.deque.tail) (x : Site) :
    x.backlog π = x.deque.queued := by
  rw [backlog, h.whole_eq hlt]

theorem glides_released (s : Site) (π : Pledge) (call : Call) :
    s.Glides π call s.released π where
  frame := Frame.of_deque s rfl rfl
  ring_eq := rfl
  retired_eq := rfl
  backlog_eq := by cases π <;> rfl
  queued_eq := rfl
  foreign _ := ⟨rfl, rfl⟩
  slot hπ := hπ
  lack_eq _ _ := rfl

theorem Stands.released (h : s.Stands π) : s.released.Stands π := h.congr rfl rfl rfl rfl rfl rfl

theorem takeFront_yields (h : s.Stands π) (hlt : s.deque.head < s.deque.tail) {u : UnitId}
    (hc : s.deque.ring.cell s.deque.head = some u) (hcall : call.isOwner = true → π = .none)
    (hbudget : s.deque.length ≤ budget + 1)
    (hb : ∀ b : Backlogs, b.Fits s.units s.deque.id (s.backlog π) →
      b.Allows s.lack s.deque.id call (.taken u) ∧
        b.after s.deque.id call (.taken u) s.deque.id = (s.backlog π).erase u) :
    s.Yields π call stage budget (.reply (.taken u),
      (s.setHead (s.deque.head + 1)).grabbed s.deque.head u) := by
  obtain ⟨hd, hw, hold⟩ := (h.sound_of_lt hlt).deque.takeFront hlt hc
  have hq : backlog { s with
      deque := s.deque.without s.deque.head (s.deque.head + 1) s.deque.tail } π =
        (s.backlog π).erase u := by
    rw [h.backlog_eq hlt, h.backlog_eq hlt]
    exact (congrArg Slots.units hw).trans (Slots.units_dropOldest_eq_erase hold)
  have hsteps : s.Steps π call { s with
      units := s.units.letGo u
      deque := s.deque.without s.deque.head (s.deque.head + 1) s.deque.tail } π := by
    refine .take h hc rfl ?_ hq (fun hπ => ?_) (fun _ => rfl) fun hπ hπ' => absurd hπ hπ'
    · rw [h.whole_eq hlt]
      exact hd
    · have := h.lowered hπ
      omega
  refine yields_taken h hc _ hsteps ?_ hq ?_ (fun _ hπ => ?_) hb
  · split
    · exact hcall ‹_›
    · rfl
  · rw [Deque.length] at hbudget
    change s.deque.tail - (s.deque.head + 1) ≤ budget
    omega
  · have := h.lowered hπ
    omega

section Steal

theorem dropFront_glides (h : s.Stands π) (hlt : s.deque.head < s.deque.tail)
    (hc : s.deque.ring.cell s.deque.head = none) :
    (s.setHead (s.deque.head + 1)).released.Stands π ∧
      s.Glides π .steal (s.setHead (s.deque.head + 1)).released π := by
  have hs := h.sound_of_lt hlt
  have hq : (s.setHead (s.deque.head + 1)).deque.queued = s.deque.queued := by
    rw [Deque.queued_eq, Deque.queued_eq, Deque.window_cons hlt, hc]
    rfl
  have hx : (s.setHead (s.deque.head + 1)).Sound π.pending :=
    hs.same_units rfl rfl (hs.deque.dropFront hlt hc) hq
  constructor
  · refine ⟨?_, fun hπ => ?_⟩
    · rw [h.whole_eq hlt]
      exact hx.released
    · have := h.lowered hπ
      omega
  · exact
      { frame := Frame.of_deque s rfl rfl
        ring_eq := rfl
        retired_eq := rfl
        backlog_eq := by
          rw [h.backlog_eq hlt, h.backlog_eq hlt]
          exact hq
        queued_eq := hq
        foreign := fun _ => ⟨rfl, rfl⟩
        slot := fun hπ => hπ
        lack_eq := nofun }

theorem steal_passes (h : s.Stands π) (hbudget : s.deque.length ≤ budget) :
    ∃ o, LockedStage.steal.pass s = .ok o ∧ s.Yields π .steal stage budget o ∧
      s.Releases o.2 := by
  by_cases hempty : s.deque.tail ≤ s.deque.head
  · have hrun : LockedStage.steal.pass s = .ok (.reply .missed, s.released) := by
      rw [LockedStage.pass, LockedStage.run, stealLocked_empty hempty]
      rfl
    have hyields : s.Yields π .steal stage budget (.reply .missed, s) :=
      yields_missed h (by simp [Call.isOwner]) hbudget fun b hb =>
        hb.trans (Deque.queued_eq_nil hempty)
    exact ⟨_, hrun, hyields.released, rfl, rfl⟩
  · have hlt : s.deque.head < s.deque.tail := by omega
    have hs := h.sound_of_lt hlt
    cases hc : s.deque.ring.cell s.deque.head with
    | none =>
      obtain ⟨hstands, hglides⟩ := dropFront_glides h hlt hc
      obtain ⟨o, hrun, hyields, hsame⟩ := peekSteal_yields stage hstands
        (show s.deque.tail - (s.deque.head + 1) + 1 ≤ budget by
          rw [Deque.length] at hbudget
          omega)
      refine ⟨o, ?_, hglides.yields hyields, ?_⟩
      · rw [LockedStage.pass, LockedStage.run, stealLocked_hole hs.deque hlt hc]
        exact hrun
      · rw [hsame]
        exact ⟨rfl, rfl⟩
    | some u =>
      obtain ⟨_, _, hold⟩ := hs.deque.takeFront hlt hc
      have hrun : LockedStage.steal.pass s = .ok (.reply (.taken u),
          ((s.setHead (s.deque.head + 1)).grabbed s.deque.head u).released) := by
        rw [LockedStage.pass, LockedStage.run,
          stealLocked_taken hs.deque hlt hc (hs.knows_of_cell hc)]
        rfl
      have hyields : s.Yields π .steal stage budget (.reply (.taken u),
          (s.setHead (s.deque.head + 1)).grabbed s.deque.head u) := by
        apply takeFront_yields h hlt hc (by simp [Call.isOwner]) (by omega)
        intro b hb
        rw [h.backlog_eq hlt] at hb ⊢
        obtain ⟨hallowed, hafter⟩ := steal_allowed hb.here
        rw [scene_steal_taken hold] at hallowed hafter
        refine ⟨hallowed, hafter.trans ?_⟩
        rw [Scene.slots_take]
        exact Slots.units_dropOldest_eq_erase hold
      exact ⟨_, hrun, hyields.released, rfl, rfl⟩

end Steal

section LastSlot

theorem Stands.backlog_slot (h : s.Stands .slot) :
    s.backlog .slot = (s.deque.ring.cell s.deque.tail).toList := by
  have hlow := h.lowered rfl
  have hlt : (s.whole .slot).deque.head < (s.whole .slot).deque.tail := by
    change s.deque.head < s.deque.tail + 1
    omega
  have hrest : { (s.whole .slot).deque with head := (s.whole .slot).deque.head + 1 }.window = [] :=
    Deque.window_eq_nil.2 (by change s.deque.tail + 1 ≤ s.deque.head + 1; omega)
  rw [backlog, Deque.queued_eq, Deque.window_cons hlt, hrest]
  change Slots.units [s.deque.ring.cell s.deque.head] = _
  rw [hlow]
  cases s.deque.ring.cell s.deque.tail <;> rfl

theorem Stands.of_last_hole (h : s.Stands .slot) (hc : s.deque.ring.cell s.deque.tail = none) :
    s.Stands .none ∧ s.backlog .slot = [] := by
  have hlow := h.lowered rfl
  have hnil : s.backlog .slot = [] := by
    rw [h.backlog_slot, hc]
    rfl
  refine ⟨.of_sound (h.sound.same_units (s := s.whole .slot) rfl rfl
    ((h.sound.deque.dropBack ?_ hc).congr rfl rfl rfl rfl) ?_), hnil⟩
  · change s.deque.head < s.deque.tail + 1
    omega
  · exact h.queued_of_slot.trans hnil.symm

theorem Steps.last_hole (h : s.Stands .slot) (hc : s.deque.ring.cell s.deque.tail = none)
    (hcall : call.isOwner = true) : s.Steps .slot call s .none where
  stands := (h.of_last_hole hc).1
  frame := Frame.refl s
  generation_le := Nat.le_refl _
  kept _ _ _ hc := .inl hc
  passes hforeign := by simp [hcall] at hforeign
  capacity := .inl rfl
  resolved _ _ := h.queued_of_slot

theorem lastSlot_missed (h : s.Stands .slot) (hcall : call.isOwner = true)
    (hpush : ∀ u, call ≠ .push u) (hc : s.deque.ring.cell s.deque.tail = none)
    (locked : LockedStage) :
    s.Yields .slot call (some locked) budget (.reply .missed, s) := by
  have hlow := h.lowered rfl
  have hnil := (h.of_last_hole hc).2
  refine ⟨s, .none, ends_same (by simp) s, ?_, .last_hole h hc hcall, ?_, .inl rfl,
    .landed (.commit (by simp) fun b hb => ⟨?_, ?_⟩) (by simp)⟩
  · rw [hcall]
    rfl
  · change s.deque.tail - s.deque.head ≤ budget
    omega
  · exact Backlogs.allows_missed_of_nil (hb.here.trans hnil) hpush
  · rw [Backlogs.after_missed, hb.here, hnil]
    exact h.queued_of_slot.symm

theorem lastSlot_yields (h : s.Stands .slot) {e : Option UnitId}
    (ha : s.Awaits call (.lastSlot e)) {u : UnitId}
    (hc : s.deque.ring.cell s.deque.tail = some u) :
    s.Yields .slot call (some (.lastSlot e)) budget
      (.reply (.taken u), s.grabbed s.deque.tail u) := by
  have hlow := h.lowered rfl
  have hcall : call.isOwner = true := by
    cases ha <;> rfl
  -- nothing shows, so the slot off the window is all there is
  have hone : s.backlog .slot = [u] := by
    rw [h.backlog_slot, hc]
    rfl
  have herase : (s.backlog .slot).erase u = [] := by
    rw [hone]
    exact List.erase_cons_head ..
  have hlt : (s.whole .slot).deque.head < (s.whole .slot).deque.tail := by
    change s.deque.head < s.deque.tail + 1
    omega
  obtain ⟨hd, hw, _⟩ := h.sound.deque.takeBack hlt hc
  have hq : (s.deque.without s.deque.tail s.deque.head s.deque.tail).queued =
      (s.backlog .slot).erase u := by
    rw [herase]
    exact Deque.queued_eq_nil (Nat.le_of_eq hlow.symm)
  have hsteps : s.Steps .slot call { s with
      units := s.units.letGo u
      deque := s.deque.without s.deque.tail s.deque.head s.deque.tail } .none :=
    .take h hc rfl hd hq (by simp) (by simp [hcall]) fun _ _ => herase
  refine yields_taken h hc _ hsteps ?_ hq ?_ (by simp) fun b hb => ?_
  · rw [hcall]
    rfl
  · omega
  · have hbu : b s.deque.id = [u] := hb.here.trans hone
    rw [herase]
    cases ha with
    | pop =>
      constructor
      · change (b s.deque.id).getLast? = some u
        rw [hbu]
        rfl
      · change Function.update b s.deque.id (b s.deque.id).dropLast s.deque.id = []
        rw [Function.update_self, hbu]
        rfl
    | removeLast v hv =>
      obtain rfl := hv u hc
      rw [← herase]
      exact remove_taken_allowed h hc .owner hb

theorem lastSlot_passes (h : s.Stands .slot) {e : Option UnitId}
    (ha : s.Awaits call (.lastSlot e)) :
    ∃ o, (LockedStage.lastSlot e).pass s = .ok o ∧
      s.Yields .slot call (some (.lastSlot e)) budget o ∧ s.Releases o.2 := by
  have hlow := h.lowered rfl
  cases hc : s.deque.ring.cell s.deque.tail with
  | none =>
    have hrun : (LockedStage.lastSlot e).pass s = .ok (.reply .missed, s.released) := by
      rw [LockedStage.pass, LockedStage.run, lastSlot_hole h.ring hlow hc]
      split
      · exact popBack_empty (s := s.released) (Nat.le_of_eq hlow.symm) none
      · rfl
    have hyields : s.Yields .slot call (some (.lastSlot e)) budget (.reply .missed, s) :=
      lastSlot_missed h (by cases ha <;> rfl) (by cases ha <;> simp) hc _
    exact ⟨_, hrun, hyields.released, rfl, rfl⟩
  | some u =>
    have he : e = none ∨ e = some u := by
      cases ha with
      | pop => exact .inl rfl
      | removeLast v hv => exact .inr (congrArg some (hv u hc).symm)
    have hrun : (LockedStage.lastSlot e).pass s =
        .ok (.reply (.taken u), (s.grabbed s.deque.tail u).released) := by
      rw [LockedStage.pass, LockedStage.run, lastSlot_taken h.ring hlow hc (h.knows_of_cell hc) he]
      rfl
    exact ⟨_, hrun, (lastSlot_yields h ha hc).released, rfl, rfl⟩

end LastSlot

section Extract

variable {side : Side} {u : UnitId} {i g : Nat}

theorem Stands.head_lt_max (h : s.Stands π) (hc : s.deque.ring.cell i = some u) :
    s.deque.head < Word.max := by
  obtain ⟨j, hj, hj', _⟩ := Deque.mem_queued.1 (h.mem_backlog_iff.2 ⟨i, hc⟩)
  have hle := h.sound.deque.tail_le
  have hhead : (s.whole π).deque.head = s.deque.head := by
    cases π <;> rfl
  omega

theorem vacate_yields (h : s.Stands π) (hc : s.deque.ring.cell i = some u)
    (hcall : call.isOwner = true → π = .none) (hbudget : s.deque.length ≤ budget)
    (hslot : stage = none → π ≠ .slot)
    (hb : ∀ b : Backlogs, b.Fits s.units s.deque.id (s.backlog π) →
      b.Allows s.lack s.deque.id call (.taken u) ∧
        b.after s.deque.id call (.taken u) s.deque.id = (s.backlog π).erase u) :
    s.Yields π call stage budget (.reply (.taken u), s.grabbed i u) := by
  have hwhole : (whole { s with deque := s.deque.without i s.deque.head s.deque.tail } π).deque =
      (s.whole π).deque.vacate i := by
    cases π <;> rfl
  have hc' : (s.whole π).deque.ring.cell i = some u := by
    rw [ring_whole]
    exact hc
  have hq : backlog { s with deque := s.deque.without i s.deque.head s.deque.tail } π =
      (s.backlog π).erase u := by
    rw [backlog, hwhole, Deque.queued_eq,
      h.sound.deque.window_vacate_punch h.nodup_backlog hc', Slots.units_punch h.nodup_backlog]
    rfl
  have hsteps : s.Steps π call { s with
      units := s.units.letGo u, deque := s.deque.without i s.deque.head s.deque.tail } π := by
    refine .take h hc rfl ?_ hq h.lowered (fun _ => rfl) fun hπ hπ' => absurd hπ hπ'
    rw [hwhole]
    exact h.sound.deque.vacate i
  refine yields_taken h hc _ hsteps ?_ hq hbudget hslot hb
  split
  · exact hcall ‹_›
  · rfl

theorem extract_yields (h : s.Stands π) (hc : s.deque.ring.cell i = some u)
    (hcall : (Call.remove side u).isOwner = true → π = .none)
    (hbudget : s.deque.length ≤ budget) :
    s.Yields π (.remove side u) (some (.extract side u i g)) budget
      (.reply (.taken u), (s.grabbed i u).settled i) := by
  by_cases hhead : s.deque.head = i ∧ i < s.deque.tail
  · have hsettled : (s.grabbed i u).settled i = (s.grabbed i u).setHead (i + 1) :=
      if_pos hhead
    obtain ⟨rfl, hlt⟩ := hhead
    rw [hsettled]
    exact takeFront_yields h hlt hc hcall (by omega)
      fun b hb => remove_taken_allowed h hc side hb
  · have hsettled : (s.grabbed i u).settled i = s.grabbed i u := if_neg hhead
    rw [hsettled]
    exact vacate_yields h hc hcall hbudget (by simp)
      fun b hb => remove_taken_allowed h hc side hb

theorem late_yields (h : s.Stands π) (hc : s.deque.ring.cell i ≠ some u)
    (hcall : (Call.remove side u).isOwner = true → π = .none)
    (hbudget : s.deque.length ≤ budget) :
    s.Yields π (.remove side u) (some (.extract side u i s.deque.generation)) budget
      (.reply .missed, s) := by
  refine ⟨s, π, ends_same (by simp) s, ?_, .refl h _, hbudget, .inl rfl,
    .landed (.late rfl rfl rfl hc) (by simp)⟩
  split
  · exact hcall ‹_›
  · rfl

theorem extract_passes (h : s.Stands π) (hside : side = .owner → π = .none)
    (ho : side = .owner → g = s.deque.generation)
    (hbudget : s.deque.length + s.weight π (.extract side u i g) ≤ budget + 1) :
    ∃ o, (LockedStage.extract side u i g).pass s = .ok o ∧
      s.Yields π (.remove side u) (some (.extract side u i g)) budget o ∧ s.Releases o.2 := by
  have hcall : (Call.remove side u).isOwner = true → π = .none := fun hs =>
    hside (of_decide_eq_true hs)
  by_cases hg : g = s.deque.generation
  · subst hg
    rw [weight, if_pos rfl] at hbudget
    by_cases hc : s.deque.ring.cell i = some u
    · have hrun : (LockedStage.extract side u i s.deque.generation).pass s =
          .ok (.reply (.taken u), ((s.grabbed i u).settled i).released) := by
        rw [LockedStage.pass, LockedStage.run,
          extract_taken h.ring hc (h.knows_of_cell hc) (h.head_lt_max hc) side]
        rfl
      have hyields := extract_yields (g := s.deque.generation) h hc hcall
        (show s.deque.length ≤ budget by omega)
      have hforeign : ((s.grabbed i u).settled i).deque.foreign = s.deque.foreign := by
        rw [settled]
        split <;> rfl
      refine ⟨_, hrun, hyields.released, ?_, ?_⟩
      · exact congrArg (fun l => l.nowServing + 1) hforeign
      · exact congrArg (fun l => l.nextTicket) hforeign
    · have hrun : (LockedStage.extract side u i s.deque.generation).pass s =
          .ok (.reply .missed, s.released) := by
        rw [LockedStage.pass, LockedStage.run, extract_missed h.ring hc]
        rfl
      have hyields := late_yields h hc hcall (show s.deque.length ≤ budget by omega)
      exact ⟨_, hrun, hyields.released, rfl, rfl⟩
  · have hforeign : side ≠ .owner := fun hs => hg (ho hs)
    rw [weight, if_neg hg] at hbudget
    obtain ⟨o, hrun, hyields, hsame⟩ := scan_yields
      (some (.extract side u i g)) side u h.released
      (show s.deque.length + 1 + π.pending.length ≤ budget by omega) (fun hs => absurd hs hforeign)
      fun hs => absurd hs hforeign
    refine ⟨o, ?_, (glides_released s π _).yields hyields, ?_⟩
    · rw [LockedStage.pass, LockedStage.run, extract_stale (Ne.symm hg)]
      exact hrun
    · rw [hsame]
      exact ⟨rfl, rfl⟩

end Extract

section Push

variable {u : UnitId}

theorem rebased_glides (h : s.Stands (.unit u)) (ht : s.deque.tail = Word.max) :
    s.rebased.released.Stands (.unit u) ∧
      s.Glides (.unit u) (.push u) s.rebased.released (.unit u) ∧
      s.rebased.released.deque.length = s.deque.length ∧
      s.rebased.released.deque.tail < Word.max := by
  have hs : s.Sound [u] := h.sound
  obtain ⟨_, hd, hw⟩ := hs.deque.rebased ht
  obtain ⟨log, metrics, hrebased⟩ := s.exists_rebased
  have hx : s.rebased.Sound [u] := by
    rw [hrebased]
    exact hs.same_units rfl rfl (hd.congr rfl rfl rfl rfl) (congrArg Slots.units hw)
  have hq : s.rebased.released.deque.queued = s.deque.queued := by
    rw [hrebased]
    exact congrArg Slots.units hw
  have hlength : s.rebased.released.deque.length = s.deque.length := by
    rw [← Deque.length_window, ← Deque.length_window, ← hw, hrebased]
    rfl
  have hcapacity : s.rebased.released.deque.capacity = s.deque.capacity := by
    rw [hrebased]
    rfl
  have hlimit : s.rebased.released.limit = s.limit := by
    rw [hrebased]
    rfl
  refine ⟨.of_pending hx.released, ⟨?_, ?_, ?_, hq, hq, by simp [Call.isOwner], by simp,
    fun _ _ => ?_⟩, hlength, ?_⟩
  · rw [hrebased]
    exact ⟨UnitTable.Frame.refl .., rfl, rfl, rfl, rfl⟩
  · rw [hrebased]
    rfl
  · rw [hrebased]
    rfl
  · rw [lack, lack, Deque.lack, Deque.lack, hlength, hcapacity, hlimit]
  · rw [hrebased]
    change s.deque.tail % s.deque.ring.capacity < Word.max
    exact Nat.lt_trans (Nat.mod_lt _ hs.deque.capacity_pos) hs.deque.ring.capacity_lt_max

theorem rebase_passes (h : s.Stands (.unit u)) (ht : s.deque.tail = Word.max)
    (hbudget : s.deque.length + 2 ≤ budget) :
    ∃ o, (LockedStage.rebase u).pass s = .ok o ∧ s.Yields (.unit u) (.push u) stage budget o ∧
      s.Releases o.2 := by
  obtain ⟨hstands, hglides, hlength, htail⟩ := rebased_glides h ht
  obtain ⟨o, hrun, hyields, hforeign⟩ := place_yields stage hstands htail
    (show s.rebased.released.deque.length + 2 ≤ budget by rw [hlength]; exact hbudget)
  have hs : s.Sound [u] := h.sound
  refine ⟨o, ?_, hglides.yields hyields, ?_⟩
  · rw [LockedStage.pass, LockedStage.run, rebase_eq hs.deque ht]
    exact hrun
  · obtain ⟨log, metrics, hrebased⟩ := s.exists_rebased
    rw [Releases, hforeign, hrebased]
    exact ⟨rfl, rfl⟩

theorem refused_yields (h : s.Stands (.unit u)) (hbudget : s.deque.length ≤ budget)
    (hfull : s.deque.capacity ≤ s.deque.length + 1)
    (hfits : Ring.fits s.limit (2 * s.deque.capacity) = false) (e : Event) :
    s.Yields (.unit u) (.push u) stage budget
      (.reply (.refused (.resourceExhausted (2 * s.deque.capacity))),
        (s.emit e).setUnits (s.units.letGo u)) := by
  have hs : s.Sound [u] := h.sound
  refine ⟨_, .none, ends_same (by simp) _, rfl, ⟨.of_sound
    (hs.dropPending.congr rfl rfl rfl rfl rfl rfl),
    ⟨UnitTable.Frame.letGo h.holder_pending, rfl, rfl, rfl, rfl⟩, Nat.le_refl _,
    fun _ _ _ hc => .inl hc, by simp [Call.isOwner], .inl rfl, by simp⟩, hbudget, .inl rfl,
    .landed (.commit (by simp) fun b hb =>
      ⟨⟨h.pending_fits hb, lack_of_full hs.deque hfull hfits⟩, hb.here⟩) (by simp)⟩

theorem grown_yields (h : s.Stands (.unit u)) (hbudget : s.deque.length + 1 ≤ budget)
    (hfits : Ring.fits s.limit (2 * s.deque.capacity) = true) {g : Ring.Growth}
    (hg : Ring.Grown s.deque.ring s.deque.head s.deque.length g) :
    s.Yields (.unit u) (.push u) (some (.store u)) budget
      (.reply .stored, { s.grown g with deque := (s.grown g).deque.fill u }) := by
  have hs : s.Sound [u] := h.sound
  obtain ⟨hd, hw⟩ := hs.deque.grown hg (l := s.deque.foreign.modify (g.emptied :: ·)) rfl
  obtain ⟨log, metrics, hgrown⟩ := s.exists_grown g
  have hq : (s.grown g).deque.queued = s.deque.queued := by
    rw [hgrown]
    exact congrArg Slots.units hw
  have hstands : (s.grown g).Stands (.unit u) := by
    refine .of_pending ?_
    rw [hgrown]
    exact hs.same_units rfl rfl (hd.congr rfl rfl rfl rfl) (congrArg Slots.units hw)
  have hlength : (s.grown g).deque.length = s.deque.length := by
    rw [hgrown]
    rfl
  obtain ⟨hroom, htail⟩ := grown_room hs.deque hg
  have hfill := fill_comes (some (.store u)) hstands hroom htail
    (show (s.grown g).deque.length + 1 ≤ budget by omega)
  have hframe : s.Frame (s.grown g) := by
    rw [hgrown]
    exact ⟨UnitTable.Frame.refl .., rfl, rfl, rfl, rfl⟩
  have hgen : (s.grown g).deque.generation = s.deque.generation + 1 := by
    rw [hgrown]
    rfl
  have hgen' : ({ s.grown g with deque := (s.grown g).deque.fill u } : Site).deque.generation =
      s.deque.generation + 1 := hgen
  refine ⟨_, .none, ends_same (by simp) _, rfl, ⟨hfill.steps.stands,
    hframe.trans hfill.steps.frame, by omega, fun hsame => by omega, by simp [Call.isOwner],
    .inr hfits, by simp⟩, hfill.load_le, .inr ⟨u, rfl, rfl⟩,
    .landed (.commit (by simp) fun b hb => ⟨⟨h.pending_fits hb, lack_of_fits hfits⟩, ?_⟩)
      (by simp)⟩
  have hd' : (s.grown g).deque.Sound := hstands.sound.deque
  change Function.update b s.deque.id _ s.deque.id = ((s.grown g).deque.fill u).queued
  rw [Function.update_self, hb.here, hd'.queued_fill]
  exact congrArg (· ++ [u]) hq.symm

theorem store_passes (h : s.Stands (.unit u)) (ht : s.deque.tail < Word.max)
    (hbudget : s.deque.length + 1 ≤ budget) :
    ∃ o, (LockedStage.store u).pass s = .ok o ∧
      s.Yields (.unit u) (.push u) (some (.store u)) budget o ∧ s.Releases o.2 := by
  have hd : s.deque.Sound := h.sound.deque
  by_cases hroom : s.deque.length + 1 < s.deque.ring.capacity
  · have hyields : s.Yields (.unit u) (.push u) (some (.store u)) budget
        (.reply .stored, { s with deque := s.deque.fill u }) :=
      ⟨_, .none, ends_same (by simp) _, fill_comes _ h hroom ht hbudget⟩
    refine ⟨_, ?_, hyields.released, rfl, rfl⟩
    rw [LockedStage.pass, LockedStage.run, storeLocked_stored hd hroom ht]
    rfl
  · have hfull : s.deque.ring.capacity ≤ s.deque.length + 1 := by omega
    rcases storeLocked_full hd hfull h.counted h.holder_pending with
      ⟨hfits, hrun⟩ | ⟨hfits, g, hg, hrun⟩
    · refine ⟨_, ?_, (refused_yields h (by omega) hfull hfits (.growthFailed s.deque.id
        s.deque.capacity (.resourceExhausted (2 * s.deque.capacity)))).released, rfl, rfl⟩
      rw [LockedStage.pass, LockedStage.run, hrun]
      rfl
    · have hforeign : (s.grown g).deque.foreign = s.deque.foreign.modify (g.emptied :: ·) := by
        obtain ⟨log, metrics, hgrown⟩ := s.exists_grown g
        rw [hgrown]
      refine ⟨_, ?_, (grown_yields h hbudget hfits hg).released, ?_, ?_⟩
      · rw [LockedStage.pass, LockedStage.run, hrun]
        rfl
      · exact congrArg (fun l => l.nowServing + 1) hforeign
      · exact congrArg (fun l => l.nextTicket) hforeign

end Push

theorem pass_yields {locked : LockedStage} (h : s.Stands π) (ha : s.Awaits call locked)
    (hπ : call.isOwner = true → π = locked.pledge)
    (hbudget : s.deque.length + s.weight π locked ≤ budget + 1) :
    ∃ o, locked.pass s = .ok o ∧ s.Yields π call (some locked) budget o ∧ s.Releases o.2 := by
  cases ha with
  | rebase u ht =>
    obtain rfl := hπ rfl
    exact rebase_passes h ht (by rw [weight] at hbudget; omega)
  | store u ht =>
    obtain rfl := hπ rfl
    exact store_passes h ht (by rw [weight] at hbudget; omega)
  | pop =>
    obtain rfl := hπ rfl
    exact lastSlot_passes h .pop
  | removeLast u hc =>
    obtain rfl := hπ rfl
    exact lastSlot_passes h (.removeLast u hc)
  | steal => exact steal_passes h (by rw [weight] at hbudget; omega)
  | extract side u i g hg ho =>
    exact extract_passes h (fun hs => hπ (decide_eq_true hs)) ho hbudget

theorem Queues.of_releases {x y : Site} {flight : Flight} (h : x.Queues flight y)
    (hx : s.Releases x) : s.released.Queues flight y := by
  obtain ⟨hnow, hnext⟩ := hx
  cases flight with
  | landed r =>
    rw [Queues, hnow, hnext] at h
    exact h
  | waiting ticket ahead locked =>
    rw [Queues, hnow, hnext] at h
    exact h

/-- A call that is served lands or waits again, and less is left to be granted. -/
theorem turn_comes {locked : LockedStage} {ticket : Nat} (h : s.Stands π)
    (hticket : s.deque.foreign.nowServing = ticket) (ha : s.Awaits call locked)
    (hπ : call.isOwner = true → π = locked.pledge)
    (hbudget : s.deque.length + s.weight π locked ≤ budget + 1) (ahead : Nat) :
    ∃ flight s' π', call.turn ticket ahead locked s = .ok (flight, s') ∧
      s.Comes π call (some locked) budget flight s' π' ∧ s.released.Queues flight s' := by
  have hcore := s.core_noteWait ahead
  have hload := load_of_core hcore π (.waiting 0 0 locked)
  obtain ⟨o, hrun, hyields, hreleases⟩ := pass_yields (h.of_core hcore) (ha.congr hcore) hπ
    (Nat.le_trans (Nat.le_of_eq hload) hbudget)
  obtain ⟨flight, s', π', hsettle, hcomes, hqueues⟩ := settle_comes hyields hcore.symm
  refine ⟨flight, s', π', ?_, hcomes, hqueues.of_releases ?_⟩
  · rw [Call.turn_eq hticket, hrun]
    exact hsettle
  · obtain ⟨m, hm⟩ := s.exists_noteWait ahead
    rw [hm] at hreleases
    exact hreleases

end Site

end WorkStealing
