import WorkStealing.Proofs.Convoy.Yields

set_option autoImplicit false

/-!
# Calls that arrive at a held lock

How each call opens while somebody holds the lock. The owner, which has no other call waiting, takes
and places what it can reach without the lock; everybody else looks, and waits if there is something
to be had.
-/
namespace WorkStealing.Site

variable {s : Site} {stage : Option LockedStage} {budget : Nat}

section Lowering

variable {call : Call}

theorem lower_yields (h : s.Sound []) (hd : (s.setTail (s.deque.head + 1)).deque.Sound)
    (hunits : Slots.units s.deque.window = (s.deque.ring.cell s.deque.head).toList)
    (hcall : call.isOwner = true) {e : Option UnitId}
    (ha : (s.setTail s.deque.head).Awaits call (.lastSlot e)) (hbudget : 1 ≤ budget) :
    s.Yields .none call stage budget (.go (.lastSlot e), s.setTail s.deque.head) := by
  have hq : (s.setTail (s.deque.head + 1)).deque.queued = s.deque.queued := by
    have hlt : (s.setTail (s.deque.head + 1)).deque.head <
        (s.setTail (s.deque.head + 1)).deque.tail := Nat.lt_succ_self _
    have hrest : { (s.setTail (s.deque.head + 1)).deque with
        head := (s.setTail (s.deque.head + 1)).deque.head + 1 }.window = [] :=
      Deque.window_eq_nil.2 (Nat.le_refl _)
    rw [Deque.queued_eq, Deque.queued_eq, hunits, Deque.window_cons hlt, hrest]
    change Slots.units [s.deque.ring.cell s.deque.head] = _
    cases s.deque.ring.cell s.deque.head <;> rfl
  have hstands : (s.setTail s.deque.head).Stands .slot :=
    ⟨h.same_units rfl rfl hd hq, fun _ => rfl⟩
  refine ⟨.slot, fun ticket ahead => ⟨?_, ⟨hstands, Frame.of_deque s rfl rfl, Nat.le_refl _,
    fun _ _ _ hc => .inl hc, by simp [hcall], .inl rfl, by simp⟩, ?_, .inl rfl,
    .waiting hq ha (by simp) (by simp [hcall])⟩⟩
  · rw [hcall]
    rfl
  · change s.deque.head - s.deque.head + 1 ≤ budget
    omega

end Lowering

theorem pop_opens (h : s.Stands .none) (hbudget : s.deque.length + 1 ≤ budget) :
    ∃ o, s.popBack none = .ok o ∧ s.Yields .none .pop stage budget o ∧
      o.2.deque.foreign = s.deque.foreign := by
  have hs : s.Sound [] := h.sound
  by_cases hempty : s.deque.tail ≤ s.deque.head
  · exact ⟨_, popBack_empty hempty none, yields_missed h (fun _ => rfl) (by omega)
      fun b hb => hb.trans (Deque.queued_eq_nil hempty), rfl⟩
  · rcases popBack_none hs.deque (fun i u => hs.knows_of_cell) (by omega) with
      ⟨t, u, hrun, -, hc, hd, hw, hnew⟩ | ⟨hrun, hd, hnew, hdrop, hunits⟩
    · have hq : (s.deque.without t s.deque.head t).queued = s.deque.queued.erase u :=
        (congrArg Slots.units hw).trans (Slots.units_dropNewest_eq_erase hs.nodup_queued hnew)
      have hlength : t - s.deque.head ≤ s.deque.length := by
        have hle := Slots.length_dropNewest_le s.deque.window
        rw [← hw, Deque.length_window, Deque.length_window] at hle
        exact hle
      refine ⟨_, hrun, yields_taken (m := s.deque.head) (n := t) h hc .none
        (.take h hc rfl hd hq (by simp) (by simp [Call.isOwner]) (by simp)) rfl hq (by omega)
        (by simp) fun b hb => ?_, rfl⟩
      obtain ⟨hallowed, hafter⟩ := pop_allowed hb.here
      rw [scene_pop_taken hnew] at hallowed hafter
      refine ⟨hallowed, hafter.trans ?_⟩
      rw [Scene.slots_take]
      exact Slots.units_dropNewest_eq_erase hs.nodup_queued hnew
    · exact ⟨_, hrun, lower_yields hs hd hunits rfl .pop (by omega), rfl⟩

section Remove

variable {u : UnitId} {π : Pledge}

theorem Stands.holder_of_queued (h : s.Stands π) (hu : u ∈ s.deque.queued) :
    s.units.holder? u = some s.deque.id := by
  obtain ⟨i, _, _, hc⟩ := Deque.mem_queued.1 hu
  exact h.holder_of_cell hc

theorem remove_elsewhere_opens (h : s.Stands π) (hk : s.units.Knows u)
    (hheld : s.units.holder? u ≠ some s.deque.id) {side : Side} (hπ : side = .owner → π = .none)
    (hbudget : s.deque.length ≤ budget) :
    ∃ o, s.remove side u = .ok o ∧ s.Yields π (.remove side u) stage budget o ∧
      o.2.deque.foreign = s.deque.foreign := by
  refine ⟨_, remove_elsewhere hk hheld side, yields_missed h (fun hs => hπ (of_decide_eq_true hs))
    hbudget fun b hb => ?_, rfl⟩
  change u ∉ b s.deque.id
  rw [hb]
  exact fun hu => hheld (h.holder_of_queued hu)

theorem remove_foreign_opens (h : s.Stands π) (hk : s.units.Knows u)
    (hbudget : s.deque.length + 1 + π.pending.length ≤ budget) :
    ∃ o, s.remove .foreign u = .ok o ∧ s.Yields π (.remove .foreign u) stage budget o ∧
      o.2.deque.foreign = s.deque.foreign := by
  by_cases hheld : s.units.holder? u = some s.deque.id
  · obtain ⟨o, hrun, hyields, hsame⟩ := scan_yields stage .foreign u h hbudget (by simp)
      (by simp)
    exact ⟨o, (remove_foreign hheld).trans hrun, hyields, by rw [hsame]⟩
  · exact remove_elsewhere_opens h hk hheld (by simp) (by omega)

theorem removeBack_opens (h : s.Stands .none) (hlt : s.deque.head < s.deque.tail)
    (hc : s.deque.ring.cell (s.deque.tail - 1) = some u)
    (hbudget : s.deque.length + 1 ≤ budget) :
    ∃ o, s.popBack (some u) = .ok o ∧ s.Yields .none (.remove .owner u) stage budget o ∧
      o.2.deque.foreign = s.deque.foreign := by
  have hs : s.Sound [] := h.sound
  rw [popBack_some hs.deque (hs.knows_of_cell hc) hlt hc]
  split
  · obtain ⟨hd, hw, hnew⟩ := hs.deque.takeBack hlt hc
    have hq : (s.deque.without (s.deque.tail - 1) s.deque.head (s.deque.tail - 1)).queued =
        s.deque.queued.erase u :=
      (congrArg Slots.units hw).trans (Slots.units_dropNewest_eq_erase hs.nodup_queued hnew)
    refine ⟨_, rfl, yields_taken (m := s.deque.head) (n := s.deque.tail - 1) h hc .none
      (.take h hc rfl hd hq (by simp) (by simp [Call.isOwner]) (by simp)) rfl hq ?_
      (by simp) fun b hb => remove_taken_allowed h hc .owner hb, rfl⟩
    rw [Deque.length] at hbudget
    omega
  · have hone : s.deque.tail - 1 = s.deque.head := by omega
    have hd : (s.setTail (s.deque.head + 1)).deque.Sound := by
      rw [show s.deque.head + 1 = s.deque.tail by omega]
      exact hs.deque
    have hunits : Slots.units s.deque.window = (s.deque.ring.cell s.deque.head).toList := by
      have hrest : { s.deque with head := s.deque.head + 1 }.window = [] :=
        Deque.window_eq_nil.2 (by change s.deque.tail ≤ s.deque.head + 1; omega)
      rw [Deque.window_cons hlt, hrest, ← hone, hc]
      rfl
    rw [hone] at hc ⊢
    refine ⟨_, rfl, lower_yields hs hd hunits rfl (.removeLast u fun v hv => ?_) (by omega), rfl⟩
    exact Option.some.inj (hv.symm.trans hc)

theorem remove_owner_opens (h : s.Stands .none) (hk : s.units.Knows u)
    (hbudget : s.deque.length + 1 ≤ budget) :
    ∃ o, s.remove .owner u = .ok o ∧ s.Yields .none (.remove .owner u) stage budget o ∧
      o.2.deque.foreign = s.deque.foreign := by
  by_cases hheld : s.units.holder? u = some s.deque.id
  · rw [remove_owner h.ring hheld]
    split
    · rename_i hempty
      refine ⟨_, rfl, yields_missed h (fun _ => rfl) (by omega) fun b hb => ?_, rfl⟩
      change u ∉ b s.deque.id
      rw [hb, Deque.queued_eq_nil hempty]
      exact List.not_mem_nil
    · rename_i hlt
      split
      · rename_i hc
        exact removeBack_opens h (by omega) hc hbudget
      · rename_i hlast
        obtain ⟨o, hrun, hyields, hsame⟩ := scan_yields stage .owner u h hbudget
          (fun _ => rfl) (fun _ => hlast)
        exact ⟨o, hrun, hyields, by rw [hsame]⟩
  · exact remove_elsewhere_opens h hk hheld (fun _ => rfl) (by omega)

end Remove

section Push

variable {u : UnitId}

theorem hold_glides (h : s.Sound []) (hk : s.units.Knows u) (hn : s.units.holder? u = none) :
    (s.setUnits (s.units.hold u s.deque.id)).Stands (.unit u) ∧
      s.Glides .none (.push u) (s.setUnits (s.units.hold u s.deque.id)) (.unit u) := by
  refine ⟨.of_pending (h.hold hk hn), ?_⟩
  exact
    { frame := Frame.of_units s (UnitTable.Frame.hold hk hn) rfl rfl
      ring_eq := rfl
      retired_eq := rfl
      backlog_eq := rfl
      queued_eq := rfl
      foreign := by simp [Call.isOwner]
      slot := by simp
      lack_eq := fun _ _ => rfl }

theorem push_opens (h : s.Stands .none) (hr : s.units.Registered u)
    (hbudget : s.deque.length + 3 ≤ budget) :
    ∃ o, (Call.push u).opening s = .ok o ∧ s.Yields .none (.push u) stage budget o ∧
      o.2.deque.foreign = s.deque.foreign := by
  have hs : s.Sound [] := h.sound
  obtain ⟨e, he, hrefs⟩ := hs.counted.exists_entry hr
  cases hn : s.units.holder? u with
  | some q =>
    refine ⟨_, push_held he hrefs hn, ⟨s, .none, ends_same (by simp) s, rfl, .refl h _, ?_,
      .inl rfl, .landed (.commit (by simp) fun b hb => ⟨?_, hb.here⟩) (by simp)⟩, rfl⟩
    · change s.deque.length ≤ budget
      omega
    · change u ∈ b q
      by_cases hq : q = s.deque.id
      · rw [hq, hb.here]
        have hu := (hs.holder u).1 (hq ▸ hn)
        rwa [List.append_nil] at hu
      · exact (hb.elsewhere q hq u).2 hn
  | none =>
    obtain ⟨hstands, hglides⟩ := hold_glides hs hr.knows hn
    rw [Call.opening, push_free he hrefs hn]
    split
    · rename_i ht
      exact ⟨_, rfl, hglides.yields (yields_go hstands (fun _ => rfl) hbudget (.rebase u ht)
        (by simp) (by simp [Call.isOwner])), rfl⟩
    · rename_i ht
      obtain ⟨o, hrun, hyields, hforeign⟩ := place_yields stage hstands
        (Nat.lt_of_le_of_ne hs.deque.tail_le ht) (show s.deque.length + 2 ≤ budget by omega)
      exact ⟨o, hrun, hglides.yields hyields, hforeign⟩

end Push

section Start

variable {π : Pledge} {call : Call}

theorem opening_yields (h : s.Stands π) (hc : call.Admissible s.units)
    (hπ : call.isOwner = true → π = .none) :
    ∃ o, call.opening s = .ok o ∧ s.Yields π call none (s.deque.length + 3) o ∧
      o.2.deque.foreign = s.deque.foreign := by
  have hpending := π.length_pending_le
  cases call with
  | push u =>
    obtain rfl := hπ rfl
    exact push_opens h (hc u rfl) (Nat.le_refl _)
  | pop =>
    obtain rfl := hπ rfl
    exact pop_opens h (by omega)
  | steal =>
    obtain ⟨o, hrun, hyields, hsame⟩ := peekSteal_yields none h
      (show s.deque.length + 1 ≤ s.deque.length + 3 by omega)
    exact ⟨o, hrun, hyields, by rw [hsame]⟩
  | remove side u =>
    cases side with
    | owner =>
      obtain rfl := hπ rfl
      exact remove_owner_opens h (hc u rfl).knows (by omega)
    | foreign => exact remove_foreign_opens h (hc u rfl).knows (by omega)

/-- A call that starts while the lock is held lands, or waits with the next ticket. -/
theorem start_comes (h : s.Stands π)
    (hlock : s.deque.foreign.nowServing < s.deque.foreign.nextTicket)
    (hc : call.Admissible s.units) (hπ : call.isOwner = true → π = .none) :
    ∃ flight s' π', call.start s = .ok (flight, s') ∧
      s.Comes π call none (s.deque.length + 3) flight s' π' ∧ s.Queues flight s' := by
  obtain ⟨o, hrun, hyields, hforeign⟩ := opening_yields h hc hπ
  obtain ⟨flight, s', π', hsettle, hcomes, hqueues⟩ := settle_comes hyields rfl
  refine ⟨flight, s', π', ?_, hcomes, ?_⟩
  · rw [Call.start_eq, hrun, ok_bind]
    obtain ⟨next, x⟩ := o
    rw [Call.proceed_held (by rw [hforeign]; exact hlock)]
    exact hsettle
  · cases flight with
    | landed r =>
      rw [Queues, hforeign] at hqueues
      exact hqueues
    | waiting ticket ahead locked =>
      rw [Queues, hforeign] at hqueues
      exact hqueues

end Start

end WorkStealing.Site
