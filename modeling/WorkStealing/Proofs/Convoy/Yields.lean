import WorkStealing.Proofs.Convoy.Standing

set_option autoImplicit false

/-!
# What free stages yield while others wait

A call that finds the lock held runs one free stage. It lands there, or waits in line with what it
relies on. The stages that look at the pool without changing it are treated here, and the placing of
a unit that is marked.
-/
namespace WorkStealing

namespace Call

/-- The end of the call leads from `s` to `s'`, whatever the log, the metrics and the tickets. -/
def Ends (call : Call) (r : Reply) (s s' : Site) : Prop :=
  ∀ x : Site, x.core = s.core → ∃ y, call.conclude r x = .ok y ∧ y.core = s'.core ∧
    y.deque.foreign = x.deque.foreign

def settle (call : Call) : Next LockedStage × Site → Checked (Flight × Site)
  | (.reply r, s) => do return (.landed r, ← call.conclude r s)
  | (.go locked, s) =>
    return (.waiting s.deque.foreign.nextTicket
      (s.deque.foreign.draw.2.ahead s.deque.foreign.nextTicket) locked, s.held)

theorem advance_eq (call : Call) (stage : FreeStage) (s : Site) :
    call.advance stage s = stage.run s >>= call.settle := by
  rw [advance]
  cases stage.run s with
  | error e => rfl
  | ok o =>
    obtain ⟨next, s'⟩ := o
    cases next <;> rfl

theorem proceed_held {s : Site} (h : s.deque.foreign.nowServing < s.deque.foreign.nextTicket)
    (call : Call) (grants : Nat) (next : Next LockedStage) :
    call.proceed grants (next, s) = call.settle (next, s) := by
  cases next with
  | reply r => rfl
  | go locked => exact proceed_go_held h grants locked

end Call

namespace Site

section Endings

variable {s : Site} {call : Call}

theorem core_setUnits {x y : Site} (h : x.core = y.core) (t : UnitTable) :
    (x.setUnits t).core = (y.setUnits t).core :=
  congrArg (fun s : Site => s.setUnits t) h

theorem ends_same {r : Reply} (hr : ∀ u, r ≠ .taken u) (s : Site) : call.Ends r s s := by
  intro x hx
  refine ⟨_, Call.conclude_of_not_taken hr, (core_count ..).trans hx, ?_⟩
  obtain ⟨m, hm⟩ := x.exists_count (call.tally? r)
  rw [hm]

theorem ends_taken {π : Pledge} (h : s.Stands π) {u : UnitId} {i : Nat}
    (hc : s.deque.ring.cell i = some u) (d : Deque) :
    call.Ends (.taken u) { s with units := s.units.setHolder u none, deque := d }
      { s with units := s.units.letGo u, deque := d } := by
  intro x hx
  have hheld := h.holder_of_cell hc
  obtain ⟨e, he⟩ := UnitTable.knows_of_holder? hheld
  have hunits : x.units = s.units.setHolder u none := congrArg (fun s : Site => s.units) hx
  refine ⟨_, Call.conclude_taken hunits he (h.counted.refs_pos_of_holder? he hheld), ?_, ?_⟩
  · rw [core_count]
    exact core_setUnits hx _
  · obtain ⟨m, hm⟩ := (x.setUnits (s.units.letGo u)).exists_count (call.tally? (.taken u))
    rw [hm]
    rfl

end Endings

/-- What a free stage yields leads to what `Comes` says, once the call is concluded or has drawn its
ticket. -/
def Yields (s : Site) (π : Pledge) (call : Call) (stage : Option LockedStage) (budget : Nat) :
    Next LockedStage × Site → Prop
  | (.reply r, s') => ∃ s'' π', call.Ends r s' s'' ∧
      s.Comes π call stage budget (.landed r) s'' π'
  | (.go locked, s') => ∃ π', ∀ ticket ahead,
      s.Comes π call stage budget (.waiting ticket ahead locked) s' π'

/-- The tickets after a call has landed or has drawn one. -/
def Queues (s : Site) : Flight → Site → Prop
  | .landed _, s' => s'.deque.foreign.nowServing = s.deque.foreign.nowServing ∧
      s'.deque.foreign.nextTicket = s.deque.foreign.nextTicket
  | .waiting ticket _ _, s' => ticket = s.deque.foreign.nextTicket ∧
      s'.deque.foreign.nowServing = s.deque.foreign.nowServing ∧
      s'.deque.foreign.nextTicket = s.deque.foreign.nextTicket + 1

theorem settle_comes {s x : Site} {π : Pledge} {call : Call} {stage : Option LockedStage}
    {budget : Nat} {o : Next LockedStage × Site} (h : s.Yields π call stage budget o)
    (hx : x.core = s.core) :
    ∃ flight y π', call.settle o = .ok (flight, y) ∧ x.Comes π call stage budget flight y π' ∧
      o.2.Queues flight y := by
  obtain ⟨next, s'⟩ := o
  cases next with
  | reply r =>
    obtain ⟨s'', π', hends, hcomes⟩ := h
    obtain ⟨y, hy, hcore, hforeign⟩ := hends s' rfl
    refine ⟨.landed r, y, π', ?_, hcomes.congr hx hcore, ?_⟩
    · simp only [Call.settle, hy, ok_bind, pure_eq_ok]
    · rw [Queues, hforeign]
      exact ⟨rfl, rfl⟩
  | go locked =>
    obtain ⟨π', hcomes⟩ := h
    exact ⟨_, s'.held, π', rfl, (hcomes _ _).congr hx rfl, rfl, rfl, rfl⟩

/-- What a stage may do that neither ends the call nor asks for the lock. -/
structure Glides (s : Site) (π : Pledge) (call : Call) (s' : Site) (π' : Pledge) : Prop where
  frame : s.Frame s'
  ring_eq : s'.deque.ring = s.deque.ring
  retired_eq : s'.deque.foreign.contents = s.deque.foreign.contents
  backlog_eq : s'.backlog π' = s.backlog π
  queued_eq : s'.deque.queued = s.deque.queued
  foreign : call.isOwner = false → π' = π ∧ s'.deque.tail = s.deque.tail
  slot : π = .slot → π' = .slot
  lack_eq : ∀ u, call = .push u → s'.lack = s.lack

section Gliding

variable {s s' s'' : Site} {π π' π'' : Pledge} {call : Call} {stage : Option LockedStage}
  {budget : Nat}

theorem Glides.generation_eq (h : s.Glides π call s' π') :
    s'.deque.generation = s.deque.generation :=
  congrArg List.length h.retired_eq

theorem Glides.steps (h : s.Glides π call s' π') (h' : s'.Steps π' call s'' π'') :
    s.Steps π call s'' π'' where
  stands := h'.stands
  frame := h.frame.trans h'.frame
  generation_le := h.generation_eq ▸ h'.generation_le
  kept hg i u hc := by
    refine h'.kept (hg.trans h.generation_eq.symm) i u ?_
    rw [h.ring_eq]
    exact hc
  passes hcall := by
    obtain ⟨-, htail⟩ := h.foreign hcall
    obtain ⟨htail', hg, hcell⟩ := h'.passes hcall
    refine ⟨htail'.trans htail, hg.trans h.generation_eq, fun u hu => ?_⟩
    rw [← h.ring_eq, ← htail]
    exact hcell u (by rw [htail]; exact hu)
  capacity := by
    have hcapacity : s'.deque.capacity = s.deque.capacity := congrArg Ring.capacity h.ring_eq
    rw [← hcapacity, ← h.frame.limit]
    exact h'.capacity
  resolved hslot hslot' := h'.resolved (h.slot hslot) hslot'

theorem Glides.bears (h : s.Glides π call s' π') {r : Reply}
    (h' : s'.Bears π' call stage s'' π'' r) : s.Bears π call stage s'' π'' r := by
  have hid := h.frame.id
  have hlack : ∀ u, call = .push u → s.lack = s'.lack := fun u hu => (h.lack_eq u hu).symm
  cases h' with
  | commit hslot hb =>
    refine .commit (fun hstage hπ => hslot hstage (h.slot hπ)) fun b hfits => ?_
    have hfits' : b.Fits s'.units s'.deque.id (s'.backlog π') := by
      rw [hid, h.backlog_eq]
      exact hfits.frame h.frame.units hfits.here fun _ _ => rfl
    obtain ⟨hallowed, hafter⟩ := hb b hfits'
    rw [hid] at hallowed hafter
    exact ⟨hallowed.of_lack hlack, hafter⟩
  | visible hq hb =>
    refine .visible (hq.trans h.backlog_eq) fun b hq' => ?_
    have hallowed := hb b (by rw [hid, h.queued_eq]; exact hq')
    rw [hid] at hallowed
    exact hallowed.of_lack hlack
  | late hq hcall hstage hc =>
    rw [h.generation_eq] at hstage
    rw [h.ring_eq] at hc
    exact .late (hq.trans h.backlog_eq) hcall hstage hc

theorem Glides.comes (h : s.Glides π call s' π') {flight : Flight}
    (h' : s'.Comes π' call stage budget flight s'' π'') :
    s.Comes π call stage budget flight s'' π'' where
  pledge := by
    rw [h'.pledge]
    cases hcall : call.isOwner with
    | true => rfl
    | false => exact (h.foreign hcall).1
  steps := h.steps h'.steps
  load_le := h'.load_le
  grown := by
    rw [← h.generation_eq]
    exact h'.grown
  fate := by
    cases h'.fate with
    | landed hb hk => exact .landed (h.bears hb) fun u hu => h.frame.units.knows.1 (hk u hu)
    | waiting hq ha hs hslot =>
      refine .waiting (hq.trans h.backlog_eq) ha hs fun hcall => ?_
      rw [← (h.foreign hcall).1]
      exact hslot hcall

theorem Glides.yields (h : s.Glides π call s' π') {o : Next LockedStage × Site}
    (h' : s'.Yields π' call stage budget o) : s.Yields π call stage budget o := by
  obtain ⟨next, x⟩ := o
  cases next with
  | reply r =>
    obtain ⟨s'', π'', hends, hcomes⟩ := h'
    exact ⟨s'', π'', hends, h.comes hcomes⟩
  | go locked =>
    obtain ⟨π'', hcomes⟩ := h'
    exact ⟨π'', fun ticket ahead => h.comes (hcomes ticket ahead)⟩

end Gliding

section Foreign

variable {s : Site} {π : Pledge} {call : Call} {stage : Option LockedStage} {budget : Nat}

theorem yields_missed (h : s.Stands π) (hπ : call.isOwner = true → π = .none)
    (hbudget : s.deque.length ≤ budget) (hb : ∀ b : Backlogs, b s.deque.id = s.deque.queued →
      b.Allows s.lack s.deque.id call .missed) :
    s.Yields π call stage budget (.reply .missed, s) := by
  refine ⟨s, π, ends_same (by simp) s, ?_, .refl h call, hbudget, .inl rfl,
    .landed (.visible rfl hb) (by simp)⟩
  split
  · exact hπ ‹_›
  · rfl

theorem yields_go (h : s.Stands π) {locked : LockedStage}
    (hπ : call.isOwner = true → π = locked.pledge)
    (hbudget : s.deque.length + s.weight π locked ≤ budget) (ha : s.Awaits call locked)
    (hs : ∀ side u i g, locked = .extract side u i g →
      g = s.deque.generation ∧ s.deque.ring.cell i = some u)
    (hlt : call.isOwner = false → s.deque.head < s.deque.tail) :
    s.Yields π call stage budget (.go locked, s) := by
  refine ⟨π, fun ticket ahead => ⟨?_, .refl h call, hbudget, .inl rfl,
    .waiting rfl ha hs fun hcall hslot => ?_⟩⟩
  rotate_left
  · have := h.lowered hslot
    have := hlt hcall
    omega
  split
  · exact hπ ‹_›
  · rfl

theorem remove_taken_allowed (h : s.Stands π) {i : Nat} {u : UnitId}
    (hc : s.deque.ring.cell i = some u) (side : Side) {b : Backlogs}
    (hb : b.Fits s.units s.deque.id (s.backlog π)) :
    b.Allows s.lack s.deque.id (.remove side u) (.taken u) ∧
      b.after s.deque.id (.remove side u) (.taken u) s.deque.id = (s.backlog π).erase u := by
  refine ⟨⟨rfl, ?_⟩, ?_⟩
  · rw [hb.here]
    exact h.mem_backlog_iff.2 ⟨i, hc⟩
  · change Function.update b s.deque.id ((b s.deque.id).erase u) s.deque.id = _
    rw [Function.update_self, hb.here]

theorem yields_taken {u : UnitId} {i m n : Nat} (h : s.Stands π)
    (hc : s.deque.ring.cell i = some u) (π' : Pledge)
    (hsteps : s.Steps π call { s with units := s.units.letGo u, deque := s.deque.without i m n } π')
    (hπ : π' = if call.isOwner then .none else π)
    (hq : backlog { s with deque := s.deque.without i m n } π' = (s.backlog π).erase u)
    (hbudget : n - m ≤ budget) (hslot : stage = none → π ≠ .slot)
    (hb : ∀ b : Backlogs, b.Fits s.units s.deque.id (s.backlog π) →
      b.Allows s.lack s.deque.id call (.taken u) ∧
        b.after s.deque.id call (.taken u) s.deque.id = (s.backlog π).erase u) :
    s.Yields π call stage budget (.reply (.taken u),
      { s with units := s.units.setHolder u none, deque := s.deque.without i m n }) := by
  have hq' : backlog { s with units := s.units.letGo u, deque := s.deque.without i m n } π' =
      (s.backlog π).erase u := by
    rw [← hq]
    cases π' <;> rfl
  refine ⟨_, π', ends_taken h hc _, hπ, hsteps, hbudget, .inl rfl,
    .landed (.commit hslot ?_) ?_⟩
  · rw [hq']
    exact hb
  · rintro v ⟨⟩
    exact h.knows_of_cell hc

theorem peekSteal_yields (stage : Option LockedStage) (h : s.Stands π)
    (hbudget : s.deque.length + 1 ≤ budget) :
    ∃ o, s.peekSteal = .ok o ∧ s.Yields π .steal stage budget o ∧ o.2 = s := by
  by_cases hempty : s.deque.tail ≤ s.deque.head
  · refine ⟨_, if_pos hempty, yields_missed h (by simp [Call.isOwner]) (by omega) ?_, rfl⟩
    exact fun b hb => hb.trans (Deque.queued_eq_nil hempty)
  · exact ⟨_, if_neg hempty, yields_go h (by simp [Call.isOwner]) hbudget .steal (by simp)
      fun _ => by omega, rfl⟩

theorem Stands.queued_of_slot (h : s.Stands .slot) : s.deque.queued = [] :=
  Deque.queued_eq_nil (Nat.le_of_eq (h.lowered rfl).symm)

theorem Stands.sound_of_lt (h : s.Stands π) (hlt : s.deque.head < s.deque.tail) :
    s.Sound π.pending := by
  cases π with
  | none | unit => exact h.sound
  | slot =>
    have := h.lowered rfl
    omega

theorem Stands.tail_le_round (h : s.Stands π) :
    s.deque.tail ≤ s.deque.head + s.deque.ring.capacity := by
  by_cases hlt : s.deque.head < s.deque.tail
  · exact Nat.le_of_lt (h.sound_of_lt hlt).deque.lt_round
  · omega

theorem scan_yields (stage : Option LockedStage) (side : Side) (u : UnitId) (h : s.Stands π)
    (hbudget : s.deque.length + 1 + π.pending.length ≤ budget) (hπ : side = .owner → π = .none)
    (hlast : side = .owner → s.deque.ring.cell (s.deque.tail - 1) ≠ some u) :
    ∃ o, s.scan side u = .ok o ∧ s.Yields π (.remove side u) stage budget o ∧ o.2 = s := by
  have hπ' : (Call.remove side u).isOwner = true → π = .none := fun hs =>
    hπ (of_decide_eq_true hs)
  by_cases hu : u ∈ s.deque.queued
  · obtain ⟨i, hi, hi', hc⟩ := Deque.mem_queued.1 hu
    have hend : i < s.scanEnd side := by
      cases side with
      | foreign => exact hi'
      | owner =>
        have hne : i ≠ s.deque.tail - 1 := by
          rintro rfl
          exact hlast rfl hc
        change i < s.deque.tail - 1
        omega
    obtain ⟨j, _, _, hcj, hscan⟩ := scan_found (h.sound_of_lt (by omega)).deque side hi hend hc
    refine ⟨_, hscan, yields_go h hπ' ?_ (.extract side u j _ (Nat.le_refl _) fun _ => rfl) ?_
      fun _ => by omega, rfl⟩
    · rw [weight, if_pos rfl]
      omega
    · rintro side' v k g ⟨⟩
      exact ⟨rfl, hcj⟩
  · have hscan := scan_missed (s := s) h.ring h.tail_le_round side (u := u) fun i hi hi' hc =>
      hu (Deque.mem_queued.2 ⟨i, hi, Nat.lt_of_lt_of_le hi' (s.scanEnd_le side), hc⟩)
    refine ⟨_, hscan, yields_missed h hπ' (by omega) fun b hb => ?_, rfl⟩
    change u ∉ b s.deque.id
    rw [hb]
    exact hu

end Foreign

section Place

variable {s : Site} {stage : Option LockedStage} {budget : Nat} {u : UnitId}

theorem Stands.pending_not_mem (h : s.Stands (.unit u)) : u ∉ s.deque.queued := fun hu =>
  (List.nodup_append.1 h.sound.nodup).2.2 u hu u (List.mem_singleton_self u) rfl

theorem Stands.holder_pending (h : s.Stands (.unit u)) :
    s.units.holder? u = some s.deque.id :=
  (h.sound.holder u).2 (by simp [Pledge.pending])

theorem Stands.pending_fits (h : s.Stands (.unit u)) {b : Backlogs}
    (hb : b.Fits s.units s.deque.id s.deque.queued) (q : PoolId) : u ∉ b q := by
  refine hb.not_mem h.pending_not_mem (fun q hq => ?_) q
  rw [h.holder_pending]
  exact fun heq => hq (Option.some.inj heq).symm

theorem fill_comes (stage : Option LockedStage) (h : s.Stands (.unit u))
    (hroom : s.deque.length + 1 < s.deque.ring.capacity) (htail : s.deque.tail < Word.max)
    (hbudget : s.deque.length + 1 ≤ budget) :
    s.Comes (.unit u) (.push u) stage budget (.landed .stored)
      { s with deque := s.deque.fill u } .none := by
  have hd : s.deque.Sound := h.sound.deque
  have hq := hd.queued_fill u
  have hblank := hd.blank s.deque.tail (Nat.le_refl _) hd.lt_round
  refine ⟨rfl, ⟨.of_sound (h.sound.place (hd.fill hroom htail u) rfl hq), Frame.of_deque s rfl rfl,
    Nat.le_refl _, fun _ i v hc => .inl ?_, by simp [Call.isOwner],
    .inl (Ring.capacity_put ..), by simp⟩, ?_, .inl rfl,
    .landed (.commit (by simp) fun b hb => ⟨⟨h.pending_fits hb, lack_of_room hroom⟩, ?_⟩)
      (by simp)⟩
  · change (s.deque.ring.put s.deque.tail (some u)).cell i = some v
    rw [hd.ring.cell_put, if_neg]
    · exact hc
    · intro hi
      rw [← hd.ring.cell_congr hi, hc] at hblank
      cases hblank
  · change s.deque.tail + 1 - s.deque.head ≤ budget
    have hle := hd.head_le_tail
    rw [Deque.length] at hbudget
    omega
  · change Function.update b s.deque.id _ s.deque.id = (s.deque.fill u).queued
    rw [Function.update_self, hb.here, hq]
    rfl

theorem place_yields (stage : Option LockedStage) (h : s.Stands (.unit u))
    (htail : s.deque.tail < Word.max) (hbudget : s.deque.length + 2 ≤ budget) :
    ∃ o, s.place u = .ok o ∧ s.Yields (.unit u) (.push u) stage budget o ∧
      o.2.deque.foreign = s.deque.foreign := by
  have hd : s.deque.Sound := h.sound.deque
  by_cases hroom : s.deque.length + 1 < s.deque.ring.capacity
  · exact ⟨_, place_stored hd hroom htail u, ⟨_, .none, ends_same (by simp) _,
      fill_comes stage h hroom htail (by omega)⟩, rfl⟩
  · exact ⟨_, place_full hd (by omega) u, yields_go h (fun _ => rfl) hbudget (.store u htail)
      (by simp) (by simp [Call.isOwner]), rfl⟩

end Place

end Site

end WorkStealing
