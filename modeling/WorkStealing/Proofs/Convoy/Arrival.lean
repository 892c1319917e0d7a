import WorkStealing.Proofs.Convoy.Line

set_option autoImplicit false

/-!
# What arriving calls leave at the head

A call that starts while somebody holds the lock does not reach the head slot: the owner fills and
takes the slots behind it, or waits, and everybody else looks and waits. A scan that found its unit
is told where, and the owner who has come down to the head slot takes it off the window.
-/
namespace WorkStealing

/-- The head slot is left as it is, and stays in a window that shows it. -/
structure Deque.Spares (d d' : Deque) : Prop where
  head : d'.head = d.head
  capacity : d'.ring.capacity = d.ring.capacity
  shown : d.head < d.tail → d.head < d'.tail ∧ d'.ring.cell d.head = d.ring.cell d.head

namespace Deque

variable {d d' : Deque} {u : UnitId}

theorem Spares.refl (d : Deque) : d.Spares d := ⟨rfl, rfl, fun h => ⟨h, rfl⟩⟩

theorem Spares.metrics (h : d.Spares d') (m : Metrics LockWaits) :
    d.Spares { d' with metrics := m } := ⟨h.head, h.capacity, h.shown⟩

theorem Sound.mod_ne_head (h : d.Sound) {i : Nat} (hi : d.head < i)
    (hi' : i < d.head + d.ring.capacity) : i % d.ring.capacity ≠ d.head % d.ring.capacity := by
  intro hmod
  have hpos := h.capacity_pos
  have := eq_of_mod_eq d.head (Nat.le_of_lt hi) hi' (Nat.le_refl _) (by omega) hmod
  omega

theorem Sound.spares_fill (h : d.Sound) (u : UnitId) : d.Spares (d.fill u) := by
  refine ⟨rfl, Ring.capacity_put .., fun hlt => ⟨Nat.lt_succ_of_lt hlt, ?_⟩⟩
  exact h.ring.cell_put_of_ne _ (h.mod_ne_head hlt h.lt_round).symm

theorem Sound.spares_takeBack (h : d.Sound) (hn : d.queued.Nodup) {t : Nat} (ht : d.head < t)
    (ht' : t < d.head + d.ring.capacity) (hc : d.ring.cell t = some u) :
    d.Spares (d.without t d.head t) ∧ d.head < d.tail ∧ d.ring.cell d.head ≠ some u := by
  have hne := h.mod_ne_head ht ht'
  refine ⟨⟨rfl, Ring.capacity_put .., fun _ => ⟨ht, ?_⟩⟩, ?_, fun hhead => ?_⟩
  · exact h.ring.cell_put_of_ne _ hne.symm
  · obtain ⟨j, hj, hj', -⟩ := h.exists_index hc
    omega
  · exact hne (h.mod_eq_of_cell hn hc hhead)

end Deque

/-- What becomes of a call that starts while the lock is held, as far as the head slot goes. -/
inductive Site.Arrives (s : Site) (call : Call) : Flight → Site → Prop
  | landed {r : Reply} {s' : Site} (spares : s.deque.Spares s'.deque)
    (foreign : call.isOwner = false → r = .missed)
    (removes : ∀ side u, call = .remove side u → r = .missed ∨ r = .taken u)
    (taken : ∀ u, r = .taken u →
      s.deque.head < s.deque.tail ∧ s.deque.ring.cell s.deque.head ≠ some u) :
    Arrives s call (.landed r) s'
  | waits {ticket ahead : Nat} {stage : LockedStage} {s' : Site}
    (head : s'.deque.head = s.deque.head) (ring : s'.deque.ring = s.deque.ring)
    (tail : stage.pledge ≠ .slot → s'.deque.tail = s.deque.tail)
    (shown : stage.pledge.pending = [] → s.deque.head < s.deque.tail)
    (seen : ∀ side u i g, stage = .extract side u i g → g = s.deque.generation ∧
      s.deque.head ≤ i ∧ i < s.deque.tail ∧ s.deque.ring.cell i = some u) :
    Arrives s call (.waiting ticket ahead stage) s'

namespace Site

variable {s x : Site} {π : Pledge} {call : Call} {u : UnitId}

section Settling

theorem settle_landed {r : Reply} (hx : s.deque.Spares x.deque)
    (hforeign : call.isOwner = false → r = .missed)
    (hremoves : ∀ side u, call = .remove side u → r = .missed ∨ r = .taken u)
    (htaken : ∀ u, r = .taken u →
      s.deque.head < s.deque.tail ∧ s.deque.ring.cell s.deque.head ≠ some u) :
    Ensures (call.settle (.reply r, x)) fun o => s.Arrives call o.1 o.2 := by
  refine .bind (call.conclude_deque r x) ?_
  rintro x' ⟨m, hm⟩
  refine .ok (.landed ?_ hforeign hremoves htaken)
  rw [hm]
  exact hx.metrics m

theorem settle_missed (s : Site) (call : Call) :
    Ensures (call.settle (.reply .missed, s)) fun o => s.Arrives call o.1 o.2 :=
  settle_landed (.refl _) (fun _ => rfl) (fun _ _ _ => .inl rfl) (by simp)

theorem settle_steal (hlt : s.deque.head < s.deque.tail) :
    Ensures (call.settle (.go .steal, s)) fun o => s.Arrives call o.1 o.2 :=
  .ok (.waits rfl rfl (fun _ => rfl) (fun _ => hlt) (by simp))

end Settling

section Foreign

theorem peekSteal_arrives (s : Site) :
    Ensures (s.peekSteal >>= Call.steal.settle) fun o => s.Arrives .steal o.1 o.2 := by
  unfold peekSteal
  split
  · exact settle_missed s .steal
  · exact settle_steal (by omega)

theorem scan_arrives (h : s.Stands π) (side : Side) (u : UnitId) (hlast : side = .owner →
      s.deque.ring.cell (s.deque.tail - 1) ≠ some u) :
    Ensures (s.scan side u >>= (Call.remove side u).settle) fun o =>
      s.Arrives (.remove side u) o.1 o.2 := by
  by_cases hu : u ∈ s.deque.queued
  · obtain ⟨i, hi, hi', hc⟩ := Deque.mem_queued.1 hu
    have hend : i < s.scanEnd side := by
      cases side with
      | foreign => exact hi'
      | owner =>
        have hne : i ≠ s.deque.tail - 1 := by
          rintro rfl
          exact hlast rfl hc
        change i < s.deque.tail - 1
        omega
    have hlt : s.deque.head < s.deque.tail := by omega
    obtain ⟨j, hj, hj', hcj, hscan⟩ := scan_found (h.sound_of_lt hlt).deque side hi hend hc
    rw [hscan, ok_bind]
    refine .ok (.waits rfl rfl (fun _ => rfl) (fun _ => hlt) ?_)
    rintro side' v k g ⟨⟩
    exact ⟨rfl, hj, hj', hcj⟩
  · have hscan := scan_missed (s := s) h.ring h.tail_le_round side (u := u) fun i hi hi' hc =>
      hu (Deque.mem_queued.2 ⟨i, hi, Nat.lt_of_lt_of_le hi' (s.scanEnd_le side), hc⟩)
    rw [hscan, ok_bind]
    exact settle_missed s _

theorem remove_foreign_arrives (h : s.Stands π) (hk : s.units.Knows u) :
    Ensures (s.remove .foreign u >>= (Call.remove .foreign u).settle) fun o =>
      s.Arrives (.remove .foreign u) o.1 o.2 := by
  by_cases hheld : s.units.holder? u = some s.deque.id
  · rw [remove_foreign hheld]
    exact scan_arrives h .foreign u (by simp)
  · rw [remove_elsewhere hk hheld, ok_bind]
    exact settle_missed s _

end Foreign

section Owner

theorem takeBack_arrives (h : s.Sound []) {t : Nat} (ht : s.deque.head < t)
    (hd : ((s.setTail t).grabbed t u).deque.Sound) (hc : s.deque.ring.cell t = some u)
    (hcall : call = .pop ∨ call = .remove .owner u) :
    Ensures (call.settle (.reply (.taken u), (s.setTail t).grabbed t u)) fun o =>
      s.Arrives call o.1 o.2 := by
  have hlen : t - s.deque.head < (s.deque.ring.put t none).capacity := hd.length_lt
  rw [Ring.capacity_put] at hlen
  obtain ⟨hspares, hlt, hhead⟩ :=
    h.deque.spares_takeBack h.nodup_queued ht (by omega) hc
  have htaken : ∀ v, Reply.taken u = .taken v →
      s.deque.head < s.deque.tail ∧ s.deque.ring.cell s.deque.head ≠ some v := by
    rintro v ⟨⟩
    exact ⟨hlt, hhead⟩
  rcases hcall with rfl | rfl
  · exact settle_landed hspares (by simp [Call.isOwner]) (by simp) htaken
  · refine settle_landed hspares (by simp [Call.isOwner]) ?_ htaken
    rintro side v ⟨⟩
    exact .inr rfl

theorem lower_arrives (hlt : s.deque.head < s.deque.tail) (e : Option UnitId) (t : Nat) :
    Ensures (call.settle (.go (.lastSlot e), s.setTail t)) fun o => s.Arrives call o.1 o.2 :=
  .ok (.waits rfl rfl (fun h => absurd rfl h) (fun _ => hlt) (by simp))

theorem pop_arrives (h : s.Sound []) :
    Ensures (s.popBack none >>= Call.pop.settle) fun o => s.Arrives .pop o.1 o.2 := by
  by_cases hempty : s.deque.tail ≤ s.deque.head
  · rw [popBack_empty hempty, ok_bind]
    exact settle_missed s .pop
  · have hlt : s.deque.head < s.deque.tail := by omega
    rcases popBack_none h.deque (fun i u => h.knows_of_cell) hlt with
      ⟨t, u, hrun, ht, hc, hd, -⟩ | ⟨hrun, -⟩
    · rw [hrun, ok_bind]
      exact takeBack_arrives h ht hd hc (.inl rfl)
    · rw [hrun, ok_bind]
      exact lower_arrives hlt none _

theorem remove_owner_arrives (h : s.Sound []) (hk : s.units.Knows u) :
    Ensures (s.remove .owner u >>= (Call.remove .owner u).settle) fun o =>
      s.Arrives (.remove .owner u) o.1 o.2 := by
  by_cases hheld : s.units.holder? u = some s.deque.id
  · rw [remove_owner h.deque.ring hheld]
    split
    · rw [ok_bind]
      exact settle_missed s _
    · rename_i hempty
      have hlt : s.deque.head < s.deque.tail := by omega
      split
      · rename_i hc
        rw [popBack_some h.deque (h.knows_of_cell hc) hlt hc]
        split
        · exact takeBack_arrives h (by omega) (h.deque.takeBack hlt hc).1 hc (.inr rfl)
        · exact lower_arrives hlt (some u) _
      · rename_i hlast
        exact scan_arrives (.of_sound h) .owner u fun _ => hlast
  · rw [remove_elsewhere hk hheld, ok_bind]
    exact settle_missed s _

theorem push_arrives (h : s.Sound []) (hr : s.units.Registered u) :
    Ensures ((Call.push u).opening s >>= (Call.push u).settle) fun o =>
      s.Arrives (.push u) o.1 o.2 := by
  obtain ⟨e, he, hrefs⟩ := h.counted.exists_entry hr
  cases hn : s.units.holder? u with
  | some q =>
    rw [Call.opening, push_held he hrefs hn, ok_bind]
    exact settle_landed (.refl _) (by simp [Call.isOwner]) (by simp) (by simp)
  | none =>
    rw [Call.opening, push_free he hrefs hn]
    have hwaits : ∀ stage : LockedStage, stage.pledge = .unit u →
        Ensures ((Call.push u).settle (.go stage, s.setUnits (s.units.hold u s.deque.id)))
          fun o => s.Arrives (.push u) o.1 o.2 := fun stage hstage => by
      refine .ok (.waits rfl rfl (fun _ => rfl) (fun hnil => ?_) ?_)
      · rw [hstage] at hnil
        cases hnil
      · rintro side v i g rfl
        cases hstage
    split
    · exact hwaits (.rebase u) rfl
    · rename_i ht
      have hd : (s.setUnits (s.units.hold u s.deque.id)).deque.Sound := h.deque
      by_cases hroom : s.deque.length + 1 < s.deque.ring.capacity
      · rw [place_stored hd hroom (Nat.lt_of_le_of_ne hd.tail_le ht) u, ok_bind]
        exact settle_landed (hd.spares_fill u) (by simp [Call.isOwner]) (by simp) (by simp)
      · rw [place_full hd (Nat.le_of_not_lt hroom) u, ok_bind]
        exact hwaits (.store u) rfl

end Owner

theorem start_arrives (h : s.Stands π)
    (hlock : s.deque.foreign.nowServing < s.deque.foreign.nextTicket)
    (hc : call.Admissible s.units) (hπ : call.isOwner = true → π = .none) :
    Ensures (call.start s) fun o => s.Arrives call o.1 o.2 := by
  have hopens : Ensures (call.opening s >>= call.settle) fun o => s.Arrives call o.1 o.2 := by
    cases call with
    | push u =>
      obtain rfl := hπ rfl
      exact push_arrives h.sound (hc u rfl)
    | pop =>
      obtain rfl := hπ rfl
      exact pop_arrives h.sound
    | steal => exact peekSteal_arrives s
    | remove side u =>
      cases side with
      | owner =>
        obtain rfl := hπ rfl
        exact remove_owner_arrives h.sound (hc u rfl).knows
      | foreign => exact remove_foreign_arrives h (hc u rfl).knows
  obtain ⟨o, hrun, -, hforeign⟩ := opening_yields h hc hπ
  rw [hrun, ok_bind] at hopens
  rw [Call.start_eq, hrun, ok_bind]
  obtain ⟨next, x⟩ := o
  rw [Call.proceed_held (by rw [hforeign]; exact hlock)]
  exact hopens

end Site

theorem Convoy.Sound.arrives {c : Convoy} {s : Site} {π : Pledge} {call : Call}
    (h : c.Sound s π (s.deque.foreign.nowServing + 1)) (hc : call.Admissible s.units)
    (hblocks : c.blocks call = false) :
    Ensures (call.start s) fun o => s.Arrives call o.1 o.2 :=
  Site.start_arrives h.lined.stands (h.locked rfl) hc (h.idle hblocks)

end WorkStealing
