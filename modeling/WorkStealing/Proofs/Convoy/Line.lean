import WorkStealing.Convoy
import WorkStealing.Proofs.Convoy.Turn

set_option autoImplicit false

/-!
# The line at the lock

Calls join the line while the lock is held, and the line is served until nobody waits. Every call
keeps what it relies on meanwhile, and each turn leaves less to be granted, so the line ends.
-/
namespace WorkStealing

namespace Call

def pending : Call → List UnitId
  | .push u => [u]
  | .pop | .steal | .remove .. => []

end Call

namespace Site

variable {s s' : Site} {π π' : Pledge} {call : Call} {locked : LockedStage}

theorem Awaits.pending_eq (h : s.Awaits call locked) : locked.pledge.pending = call.pending := by
  cases h <;> rfl

theorem weight_le (h : s'.deque.generation = s.deque.generation ∧
      π'.pending.length ≤ π.pending.length ∨ π'.pending.length < π.pending.length)
    (stage : LockedStage) : s'.weight π' stage ≤ s.weight π stage := by
  cases stage with
  | steal | lastSlot | store | rebase => exact Nat.le_refl _
  | extract side u i g =>
    rw [weight, weight]
    rcases h with ⟨hg, hle⟩ | hlt
    · rw [hg]
      omega
    · split <;> split <;> omega

theorem weight_pos (s : Site) (π : Pledge) (stage : LockedStage) : 0 < s.weight π stage := by
  cases stage with
  | extract =>
    rw [weight]
    omega
  | steal | lastSlot | store | rebase => simp [weight]

/-- A turn does not make the others need more grants: the ring grows only when a marked unit is
placed. -/
theorem Comes.lightens {budget : Nat} {flight : Flight}
    (h : s.Comes π call (some locked) budget flight s' π') (ha : s.Awaits call locked)
    (hπ : call.isOwner = true → π = locked.pledge) :
    s'.deque.generation = s.deque.generation ∧ π'.pending.length ≤ π.pending.length ∨
      π'.pending.length < π.pending.length := by
  rcases h.grown with hg | ⟨u, hstage, hflight⟩
  · refine .inl ⟨hg, ?_⟩
    have hpledge := h.pledge
    cases hcall : call.isOwner with
    | false =>
      rw [hcall] at hpledge
      rw [hpledge]
      exact Nat.le_refl _
    | true =>
      rw [hcall] at hpledge
      cases h.fate with
      | landed =>
        rw [hpledge]
        exact Nat.zero_le _
      | waiting hq ha' hs hslot =>
        rw [hpledge, hπ hcall, ha.pending_eq]
        exact Nat.le_of_eq (congrArg List.length ha'.pending_eq)
  · obtain rfl := Option.some.inj hstage
    cases ha with
    | store _ ht =>
      have hpledge := h.pledge
      rw [hflight] at hpledge
      rw [hpledge, hπ rfl]
      exact .inr Nat.zero_lt_one

end Site

def Passage.reply? : Passage → Option Reply
  | .barred => none
  | .direct r => some r
  | .queued r => r

namespace Convoy

/-- The calls in line have what they rely on. At most one of them is the owner's, and it has done
what `π` says. -/
structure Lined (s : Site) (π : Pledge) (line : List Waiter) : Prop where
  stands : s.Stands π
  awaits : ∀ w ∈ line, s.Awaits w.call w.stage
  pledge : ∀ w ∈ line, w.call.isOwner = true → π = w.stage.pledge
  idle : (∀ w ∈ line, w.call.isOwner = false) → π = .none
  alone : line.Pairwise fun v w => v.call.isOwner = true → w.call.isOwner = false

structure Apart (s : Site) (π : Pledge) (call : Call) (line : List Waiter) : Prop where
  awaits : ∀ w ∈ line, s.Awaits w.call w.stage
  others : call.isOwner = true → ∀ w ∈ line, w.call.isOwner = false
  pledge : call.isOwner = false → ∀ w ∈ line, w.call.isOwner = true → π = w.stage.pledge
  idle : call.isOwner = false → (∀ w ∈ line, w.call.isOwner = false) → π = .none
  alone : line.Pairwise fun v w => v.call.isOwner = true → w.call.isOwner = false

section Lines

variable {s s' : Site} {π π' : Pledge} {call : Call} {line : List Waiter} {w : Waiter}
  {stage : Option LockedStage} {budget : Nat}

theorem Lined.apart (h : Lined s π (w :: line)) : Apart s π w.call line where
  awaits v hv := h.awaits v (List.mem_cons_of_mem w hv)
  others hw v hv := (List.pairwise_cons.1 h.alone).1 v hv hw
  pledge _ v hv := h.pledge v (List.mem_cons_of_mem w hv)
  idle hw hline := h.idle (List.forall_mem_cons.2 ⟨hw, hline⟩)
  alone := (List.pairwise_cons.1 h.alone).2

theorem Lined.apart_of_free (h : Lined s π line)
    (hcall : call.isOwner = true → ∀ w ∈ line, w.call.isOwner = false) : Apart s π call line where
  awaits := h.awaits
  others := hcall
  pledge _ := h.pledge
  idle _ := h.idle
  alone := h.alone

variable {flight : Flight}

theorem Apart.awaits_after (h : Apart s π call line)
    (hc : s.Comes π call stage budget flight s' π') : ∀ w ∈ line, s'.Awaits w.call w.stage := by
  intro w hw
  cases hcall : call.isOwner with
  | true => exact (h.awaits w hw).of_foreign (h.others hcall w hw) hc.steps.generation_le
  | false => exact (h.awaits w hw).passes (hc.steps.passes hcall)

theorem Apart.landed (h : Apart s π call line) {r : Reply}
    (hc : s.Comes π call stage budget (.landed r) s' π') : Lined s' π' line := by
  have hpledge := hc.pledge
  refine ⟨hc.steps.stands, h.awaits_after hc, ?_, ?_, h.alone⟩
  · intro w hw hwcall
    cases hcall : call.isOwner with
    | true =>
      rw [h.others hcall w hw] at hwcall
      cases hwcall
    | false =>
      rw [hcall] at hpledge
      exact hpledge.trans (h.pledge hcall w hw hwcall)
  · intro hline
    cases hcall : call.isOwner with
    | true =>
      rw [hcall] at hpledge
      exact hpledge
    | false =>
      rw [hcall] at hpledge
      exact hpledge.trans (h.idle hcall hline)

theorem Apart.waiting (h : Apart s π w.call line) {ticket ahead : Nat}
    (hc : s.Comes π w.call stage budget (.waiting ticket ahead w.stage) s' π') :
    Lined s' π' (line ++ [w]) := by
  have hpledge := hc.pledge
  refine ⟨hc.steps.stands, ?_, ?_, ?_, ?_⟩
  · intro v hv
    rcases List.mem_append.1 hv with hv | hv
    · exact h.awaits_after hc v hv
    · obtain rfl := List.mem_singleton.1 hv
      cases hc.fate with
      | waiting hq ha hs hslot => exact ha
  · intro v hv hvcall
    rcases List.mem_append.1 hv with hv | hv
    · cases hcall : w.call.isOwner with
      | true =>
        rw [h.others hcall v hv] at hvcall
        cases hvcall
      | false =>
        rw [hcall] at hpledge
        exact hpledge.trans (h.pledge hcall v hv hvcall)
    · obtain rfl := List.mem_singleton.1 hv
      rw [hvcall] at hpledge
      exact hpledge
  · intro hline
    have hcall := hline w (List.mem_append_right _ (List.mem_singleton_self w))
    rw [hcall] at hpledge
    exact hpledge.trans (h.idle hcall fun v hv => hline v (List.mem_append_left _ hv))
  · refine List.pairwise_append.2 ⟨h.alone, List.pairwise_singleton .., ?_⟩
    intro v hv x hx hvcall
    obtain rfl := List.mem_singleton.1 hx
    cases hcall : x.call.isOwner with
    | true =>
      rw [h.others hcall v hv] at hvcall
      cases hvcall
    | false => rfl

def load (s : Site) (π : Pledge) (line : List Waiter) : Nat :=
  s.deque.length + (line.map fun w => s.weight π w.stage).sum

theorem load_append (s : Site) (π : Pledge) (line : List Waiter) (w : Waiter) :
    load s π (line ++ [w]) = load s π line + s.weight π w.stage := by
  simp [load, Nat.add_assoc]

theorem sum_stages_le {f g : LockedStage → Nat} (h : ∀ l, f l ≤ g l) (line : List Waiter) :
    (line.map fun w => f w.stage).sum ≤ (line.map fun w => g w.stage).sum := by
  induction line with
  | nil => exact Nat.le_refl _
  | cons w line ih => exact Nat.add_le_add (h w.stage) ih

theorem weight_le_three (s : Site) (π : Pledge) (l : LockedStage) : s.weight π l ≤ 3 := by
  have hpending := π.length_pending_le
  cases l with
  | steal | lastSlot | store | rebase => simp [Site.weight]
  | extract side u i g =>
    rw [Site.weight]
    split <;> omega

theorem load_le_budget (s : Site) (π : Pledge) (line : List Waiter) :
    load s π line ≤ Call.grantBudget line.length s.deque.length := by
  have hsum : (line.map fun w => s.weight π w.stage).sum ≤ 3 * line.length := by
    induction line with
    | nil => exact Nat.le_refl _
    | cons w line ih =>
      have hw := weight_le_three s π w.stage
      rw [List.map_cons, List.sum_cons, List.length_cons]
      omega
  rw [load, Call.grantBudget, Nat.add_mul, Nat.mul_add]
  omega

end Lines

def served (c : Convoy) (w : Waiter) (line : List Waiter) : Flight → Convoy
  | .landed r => { c with line, grants := c.grants + 1 }.settle w.seat r
  | .waiting ticket ahead stage =>
    { c with line := line ++ [{ w with ticket, ahead, stage }], grants := c.grants + 1 }

theorem getElem?_served {c : Convoy} {w : Waiter} (hw : c.passages[w.seat]? = some (.queued none))
    (line : List Waiter) (r : Reply) (i : Nat) :
    (c.served w line (.landed r)).passages[i]? =
      if w.seat = i then some (.queued (some r)) else c.passages[i]? := by
  change (c.passages.modify w.seat fun _ => .queued (some r))[i]? = _
  rw [Array.getElem?_modify]
  split
  · rename_i hi
    rw [← hi, hw]
    rfl
  · rfl

def boarded (c : Convoy) (call : Call) : Flight → Convoy
  | .landed r => c.pass r
  | .waiting ticket ahead stage =>
    { c with
      line := c.line ++ [⟨c.passages.size, call, ticket, ahead, stage⟩]
      passages := c.passages.push (.queued none) }

theorem serve_cons {c : Convoy} {w : Waiter} {line : List Waiter} (h : c.line = w :: line)
    (budget : Nat) (s : Site) :
    serve (budget + 1) c s = w.call.turn w.ticket w.ahead w.stage s >>=
      fun o => serve budget (c.served w line o.1) o.2 := by
  rw [serve, h, Call.turn]
  dsimp only
  cases w.call.grant w.ticket w.ahead w.stage s with
  | error e => rfl
  | ok o =>
    obtain ⟨next, x⟩ := o
    cases next with
    | reply r => rfl
    | go stage =>
      rw [ok_bind, ok_bind]
      dsimp only
      cases w.call.advance stage x with
      | error e => rfl
      | ok o =>
        obtain ⟨flight, y⟩ := o
        cases flight <;> rfl

theorem board_eq {c : Convoy} {call : Call} (h : c.blocks call = false) (s : Site) :
    c.board call s = call.start s >>= fun o => pure (c.boarded call o.1, o.2) := by
  rw [board, h]
  cases call.start s with
  | error e => rfl
  | ok o =>
    obtain ⟨flight, x⟩ := o
    cases flight <;> rfl

/-- A convoy in order on its pool. The tickets of its line are those from `first` on. -/
structure Sound (c : Convoy) (s : Site) (π : Pledge) (first : Nat) : Prop where
  lined : Lined s π c.line
  tickets : c.line.map Waiter.ticket = List.range' first c.line.length
  next : s.deque.foreign.nextTicket = first + c.line.length
  seats : (c.line.map Waiter.seat).Nodup
  waiting : ∀ i, c.passages[i]? = some (.queued none) ↔ ∃ w ∈ c.line, w.seat = i
  known : ∀ x ∈ c.passages, ∀ u, x.reply? = some (.taken u) → s.units.Knows u

section Steps

variable {c : Convoy} {s s' : Site} {π : Pledge} {first : Nat} {call : Call}

theorem others_of_not_blocks (h : c.blocks call = false) :
    call.isOwner = true → ∀ w ∈ c.line, w.call.isOwner = false := by
  intro hcall w hw
  rw [blocks, hcall, Bool.true_and, List.any_eq_false] at h
  exact Bool.eq_false_iff.2 (h w hw)

theorem Sound.idle (h : c.Sound s π first) (hblocks : c.blocks call = false) :
    call.isOwner = true → π = .none := fun hcall =>
  h.lined.idle (others_of_not_blocks hblocks hcall)

theorem Sound.lt_size (h : c.Sound s π first) {w : Waiter} (hw : w ∈ c.line) :
    w.seat < c.passages.size :=
  (Array.getElem?_eq_some_iff.1 ((h.waiting w.seat).2 ⟨w, hw, rfl⟩)).1

theorem Sound.push_passage {π' : Pledge} (h : c.Sound s π first) {x : Passage}
    (hx : x ≠ .queued none)
    (hlined : Lined s' π' c.line) (hnext : s'.deque.foreign.nextTicket = first + c.line.length)
    (hknows : ∀ u, s'.units.Knows u ↔ s.units.Knows u)
    (hknown : ∀ u, x.reply? = some (.taken u) → s.units.Knows u) :
    { c with passages := c.passages.push x }.Sound s' π' first where
  lined := hlined
  tickets := h.tickets
  next := hnext
  seats := h.seats
  waiting i := by
    rw [← h.waiting i, Array.getElem?_push]
    split
    · rename_i hi
      subst hi
      simp [hx]
    · rfl
  known y hy u hu := by
    rw [hknows]
    rcases Array.mem_push.1 hy with hy | rfl
    · exact h.known y hy u hu
    · exact hknown u hu

theorem Sound.bar (h : c.Sound s π first) : c.bar.Sound s π first :=
  h.push_passage (by simp) h.lined h.next (fun _ => Iff.rfl) (by simp [Passage.reply?])

theorem Sound.join {π' : Pledge} (h : c.Sound s π first) {stage : LockedStage} {ahead : Nat}
    (hlined : Lined s' π'
      (c.line ++ [⟨c.passages.size, call, first + c.line.length, ahead, stage⟩]))
    (hnext : s'.deque.foreign.nextTicket = first + c.line.length + 1)
    (hknows : ∀ u, s'.units.Knows u ↔ s.units.Knows u) :
    (c.boarded call (.waiting (first + c.line.length) ahead stage)).Sound s' π' first where
  lined := hlined
  tickets := by
    change (c.line ++ [_]).map Waiter.ticket = List.range' first (c.line ++ [_]).length
    rw [List.map_append, h.tickets, List.length_append, List.length_singleton,
      List.range'_1_concat]
    rfl
  next := by
    change _ = first + (c.line ++ [_]).length
    rw [List.length_append, List.length_singleton, hnext]
    omega
  seats := by
    change ((c.line ++ [_]).map Waiter.seat).Nodup
    rw [List.map_append, List.nodup_append]
    refine ⟨h.seats, by simp, ?_⟩
    intro i hi j hj
    obtain ⟨w, hw, rfl⟩ := List.mem_map.1 hi
    obtain rfl := List.mem_singleton.1 hj
    exact Nat.ne_of_lt (h.lt_size hw)
  waiting i := by
    change (c.passages.push (.queued none))[i]? = _ ↔ ∃ w ∈ c.line ++ [_], w.seat = i
    rw [Array.getElem?_push]
    split
    · rename_i hi
      exact ⟨fun _ => ⟨_, List.mem_append_right _ (List.mem_singleton_self _), hi.symm⟩,
        fun _ => rfl⟩
    · rename_i hi
      rw [h.waiting i]
      constructor
      · rintro ⟨w, hw, hwi⟩
        exact ⟨w, List.mem_append_left _ hw, hwi⟩
      · rintro ⟨w, hw, hwi⟩
        rcases List.mem_append.1 hw with hw | hw
        · exact ⟨w, hw, hwi⟩
        · obtain rfl := List.mem_singleton.1 hw
          exact absurd hwi.symm hi
  known y hy u hu := by
    rw [hknows]
    rcases Array.mem_push.1 hy with hy | rfl
    · exact h.known y hy u hu
    · cases hu

theorem Sound.locked (h : c.Sound s π first) (hnow : s.deque.foreign.nowServing + 1 = first) :
    s.deque.foreign.nowServing < s.deque.foreign.nextTicket := by
  rw [h.next]
  omega

theorem Sound.board (h : c.Sound s π first) (hnow : s.deque.foreign.nowServing + 1 = first)
    (hblocks : c.blocks call = false) (hc : call.Admissible s.units) :
    ∃ flight s' π', c.board call s = .ok (c.boarded call flight, s') ∧
      call.start s = .ok (flight, s') ∧
      s.Comes π call none (s.deque.length + 3) flight s' π' ∧
      (c.boarded call flight).Sound s' π' first ∧
      s'.deque.foreign.nowServing = s.deque.foreign.nowServing := by
  have hothers := others_of_not_blocks hblocks
  obtain ⟨flight, s', π', hstart, hcomes, hqueues⟩ := Site.start_comes h.lined.stands
    (h.locked hnow) hc (h.idle hblocks)
  have hapart := h.lined.apart_of_free hothers
  have hknows : ∀ u, s'.units.Knows u ↔ s.units.Knows u := fun _ => hcomes.steps.frame.units.knows
  refine ⟨flight, s', π', ?_, hstart, hcomes, ?_⟩
  · rw [board_eq hblocks, hstart]
    rfl
  · cases flight with
    | landed r =>
      obtain ⟨hserving, hnext⟩ := hqueues
      cases hcomes.fate with
      | landed hb hk =>
        exact ⟨h.push_passage (x := .direct r) (by simp) (hapart.landed hcomes)
          (hnext.trans h.next) hknows fun u hu => hk u (Option.some.inj hu), hserving⟩
    | waiting ticket ahead stage =>
      obtain ⟨rfl, hserving, hnext⟩ := hqueues
      rw [h.next] at hcomes hnext ⊢
      exact ⟨h.join (hapart.waiting (w := ⟨c.passages.size, call, _, ahead, stage⟩) hcomes) hnext
        hknows, hserving⟩

theorem Sound.settle {π' : Pledge} {w : Waiter} {line : List Waiter} {r : Reply}
    (h : c.Sound s π first) (hline : c.line = w :: line) (hlined : Lined s' π' line)
    (hnext : s'.deque.foreign.nextTicket = s.deque.foreign.nextTicket)
    (hknows : ∀ u, s'.units.Knows u ↔ s.units.Knows u)
    (hknown : ∀ u, r = .taken u → s.units.Knows u) :
    (c.served w line (.landed r)).Sound s' π' (first + 1) where
  lined := hlined
  tickets := by
    have htickets := h.tickets
    rw [hline, List.map_cons, List.length_cons, List.range'_succ] at htickets
    exact (List.cons.inj htickets).2
  next := by
    rw [hnext, h.next, hline, List.length_cons]
    change _ = first + 1 + line.length
    omega
  seats := by
    have hseats := h.seats
    rw [hline, List.map_cons] at hseats
    exact (List.nodup_cons.1 hseats).2
  waiting i := by
    have hseats := h.seats
    rw [hline, List.map_cons, List.nodup_cons] at hseats
    have hw := h.waiting i
    rw [hline] at hw
    change (c.passages.modify w.seat fun _ => .queued (some r))[i]? = _ ↔ ∃ v ∈ line, v.seat = i
    rw [Array.getElem?_modify]
    split
    · rename_i hi
      constructor
      · cases c.passages[i]? <;> simp
      · rintro ⟨v, hv, hvi⟩
        exact absurd (List.mem_map.2 ⟨v, hv, hvi.trans hi.symm⟩) hseats.1
    · rename_i hi
      rw [hw]
      simp [hi]
  known x hx u hu := by
    rw [hknows]
    obtain ⟨i, hi⟩ := Array.mem_iff_getElem?.1 hx
    change (c.passages.modify w.seat fun _ => .queued (some r))[i]? = some x at hi
    rw [Array.getElem?_modify] at hi
    split at hi
    · obtain ⟨y, _, rfl⟩ := Option.map_eq_some_iff.1 hi
      exact hknown u (Option.some.inj hu)
    · exact h.known x (Array.mem_iff_getElem?.2 ⟨i, hi⟩) u hu

theorem Sound.rejoin {π' : Pledge} {w : Waiter} {line : List Waiter} {ahead : Nat}
    {stage : LockedStage} (h : c.Sound s π first) (hline : c.line = w :: line)
    (hlined : Lined s' π'
      (line ++ [{ w with ticket := s.deque.foreign.nextTicket, ahead, stage }]))
    (hnext : s'.deque.foreign.nextTicket = s.deque.foreign.nextTicket + 1)
    (hknows : ∀ u, s'.units.Knows u ↔ s.units.Knows u) :
    (c.served w line (.waiting s.deque.foreign.nextTicket ahead stage)).Sound s' π'
      (first + 1) where
  lined := hlined
  tickets := by
    have htickets := h.tickets
    rw [hline, List.map_cons, List.length_cons, List.range'_succ] at htickets
    change (line ++ [_]).map Waiter.ticket = List.range' (first + 1) (line ++ [_]).length
    rw [List.map_append, (List.cons.inj htickets).2, List.length_append, List.length_singleton,
      List.range'_1_concat, List.map_singleton]
    have hnext' := h.next
    rw [hline, List.length_cons] at hnext'
    refine congrArg (fun n => List.range' (first + 1) line.length ++ [n]) ?_
    change s.deque.foreign.nextTicket = first + 1 + line.length
    omega
  next := by
    change _ = first + 1 + (line ++ [_]).length
    rw [hnext, h.next, hline, List.length_cons, List.length_append, List.length_singleton]
    omega
  seats := by
    have hperm : (line ++ [w]).Perm c.line := by
      rw [hline]
      exact List.perm_append_singleton w line
    change ((line ++ [_]).map Waiter.seat).Nodup
    rw [List.map_append]
    have hseats := (hperm.map Waiter.seat).nodup_iff.2 h.seats
    rwa [List.map_append] at hseats
  waiting i := by
    rw [show (c.served w line (.waiting s.deque.foreign.nextTicket ahead stage)).passages =
      c.passages from rfl, h.waiting i, hline]
    change (∃ v ∈ w :: line, v.seat = i) ↔ ∃ v ∈ line ++ [_], v.seat = i
    simp only [List.mem_cons, List.mem_append, List.not_mem_nil, or_false, or_and_right,
      exists_or, exists_eq_left]
    exact or_comm
  known x hx u hu := by
    rw [hknows]
    exact h.known x hx u hu

theorem Sound.ticket_eq (h : c.Sound s π first) {w : Waiter} {line : List Waiter}
    (hline : c.line = w :: line) : w.ticket = first := by
  have htickets := h.tickets
  rw [hline, List.map_cons, List.length_cons, List.range'_succ] at htickets
  exact (List.cons.inj htickets).1

theorem Sound.turn (h : c.Sound s π first) (hnow : s.deque.foreign.nowServing = first)
    {w : Waiter} {line : List Waiter} (hline : c.line = w :: line) :
    ∃ budget flight s' π', w.call.turn w.ticket w.ahead w.stage s = .ok (flight, s') ∧
      s.Comes π w.call (some w.stage) budget flight s' π' ∧
      (c.served w line flight).Sound s' π' (first + 1) ∧
      s'.deque.foreign.nowServing = first + 1 ∧
      load s' π' (c.served w line flight).line < load s π c.line := by
  have hlined : Lined s π (w :: line) := hline ▸ h.lined
  have ha := hlined.awaits w List.mem_cons_self
  have hπ := hlined.pledge w List.mem_cons_self
  have hapart := hlined.apart
  have hpos := s.weight_pos π w.stage
  obtain ⟨flight, s', π', hturn, hcomes, hqueues⟩ := Site.turn_comes
    hlined.stands (hnow.trans (h.ticket_eq hline).symm) ha hπ
    (show s.deque.length + s.weight π w.stage ≤
      s.deque.length + s.weight π w.stage - 1 + 1 by omega)
    w.ahead
  have hknows : ∀ u, s'.units.Knows u ↔ s.units.Knows u := fun _ => hcomes.steps.frame.units.knows
  -- the turn costs what its call needs, and the others need no more after it than before
  have hsum := sum_stages_le (Site.weight_le (hcomes.lightens ha hπ)) line
  have hload := hcomes.load_le
  have hbefore : load s π c.line = s.deque.length + (s.weight π w.stage +
      (line.map fun w => s.weight π w.stage).sum) := by
    rw [hline]
    rfl
  refine ⟨_, flight, s', π', hturn, hcomes, ?_⟩
  cases flight with
  | landed r =>
    obtain ⟨hserving, hnext⟩ := hqueues
    have hknown : ∀ u, r = .taken u → s.units.Knows u := by
      cases hcomes.fate with
      | landed hb hk => exact hk
    refine ⟨h.settle hline (hapart.landed hcomes) hnext hknows hknown,
      hserving.trans (congrArg (· + 1) hnow), ?_⟩
    rw [hbefore]
    change load s' π' line < _
    rw [load]
    rw [Site.load] at hload
    omega
  | waiting ticket ahead stage =>
    obtain ⟨hticket, hserving, hnext⟩ := hqueues
    obtain rfl : ticket = s.deque.foreign.nextTicket := hticket
    refine ⟨h.rejoin hline (hapart.waiting (w := { w with
      ticket := s.deque.foreign.nextTicket, ahead, stage }) hcomes) hnext hknows,
      hserving.trans (congrArg (· + 1) hnow), ?_⟩
    rw [hbefore]
    change load s' π' (line ++ [_]) < _
    rw [load_append, load]
    rw [Site.load] at hload
    change _ + s'.weight π' stage < _
    omega

/-- Whatever every turn keeps holds of the convoy when the line is empty. -/
theorem Sound.serve {P : Convoy → Site → Pledge → Prop}
    (hP : ∀ {c : Convoy} {s : Site} {π : Pledge} {first : Nat} {w : Waiter} {line : List Waiter}
      {budget : Nat} {flight : Flight} {s' : Site} {π' : Pledge}, c.Sound s π first →
      c.line = w :: line → w.call.turn w.ticket w.ahead w.stage s = .ok (flight, s') →
      s.Comes π w.call (some w.stage) budget flight s' π' → P c s π →
      P (c.served w line flight) s' π')
    (h : c.Sound s π first) (hnow : s.deque.foreign.nowServing = first) (hp : P c s π)
    {budget : Nat} (hbudget : load s π c.line ≤ budget) :
    ∃ c' s' π' last, Convoy.serve budget c s = .ok (c', s') ∧ c'.Sound s' π' last ∧
      s'.deque.foreign.nowServing = last ∧ c'.line = [] ∧ P c' s' π' := by
  induction budget generalizing c s π first with
  | zero =>
    cases hline : c.line with
    | nil =>
      refine ⟨c, s, π, first, ?_, h, hnow, hline, hp⟩
      rw [Convoy.serve, hline]
      rfl
    | cons w line =>
      -- whoever waits still needs a grant, so the budget cannot be used up
      have hpos := s.weight_pos π w.stage
      rw [hline, load, List.map_cons, List.sum_cons] at hbudget
      omega
  | succ budget ih =>
    cases hline : c.line with
    | nil =>
      refine ⟨c, s, π, first, ?_, h, hnow, hline, hp⟩
      rw [Convoy.serve, hline]
      rfl
    | cons w line =>
      obtain ⟨_, flight, s', π', hturn, hcomes, hsound, hnow', hload⟩ := h.turn hnow hline
      obtain ⟨c'', s'', π'', last, hrun, hrest⟩ := ih hsound hnow' (hP h hline hturn hcomes hp)
        (by omega)
      refine ⟨c'', s'', π'', last, ?_, hrest⟩
      rw [serve_cons hline, hturn]
      exact hrun

theorem Sound.released (h : c.Sound s π first) : c.Sound s.released π first where
  lined := ⟨h.lined.stands.released, fun w hw => (h.lined.awaits w hw).congr rfl, h.lined.pledge,
    h.lined.idle, h.lined.alone⟩
  tickets := h.tickets
  next := h.next
  seats := h.seats
  waiting := h.waiting
  known := h.known

theorem Sound.finish {P : Convoy → Site → Pledge → Prop}
    (hP : ∀ {c : Convoy} {s : Site} {π : Pledge} {first : Nat} {w : Waiter} {line : List Waiter}
      {budget : Nat} {flight : Flight} {s' : Site} {π' : Pledge}, c.Sound s π first →
      c.line = w :: line → w.call.turn w.ticket w.ahead w.stage s = .ok (flight, s') →
      s.Comes π w.call (some w.stage) budget flight s' π' → P c s π →
      P (c.served w line flight) s' π')
    (h : c.Sound s π first) (hnow : s.deque.foreign.nowServing + 1 = first)
    (hp : P c s.released π) :
    ∃ c' s' last, c.finish s = .ok (c', s') ∧ c'.Sound s' .none last ∧ s'.Sound [] ∧
      s'.deque.Unlocked ∧ c'.line = [] ∧ P c' s' .none := by
  obtain ⟨c', s', π', last, hrun, hsound, hnow', hline, hp'⟩ := h.released.serve hP hnow hp
    (load_le_budget s.released π c.line)
  have hnone : π' = .none := by
    apply hsound.lined.idle
    intro w hw
    rw [hline] at hw
    cases hw
  subst hnone
  refine ⟨c', s', last, hrun, hsound, hsound.lined.stands.sound, ?_, hline, hp'⟩
  rw [Deque.Unlocked, hsound.next, hline]
  exact hnow'.symm

theorem hold_eq (h : s.Sound []) (hu : s.deque.Unlocked) :
    hold s = .ok s.held ∧ empty.Sound s.held .none (s.deque.foreign.nowServing + 1) := by
  refine ⟨?_, ?_⟩
  · have hserves : s.deque.foreign.draw.2.serves s.deque.foreign.draw.1 = true :=
      decide_eq_true hu.symm
    rw [hold]
    simp only [require_eq_ok hserves, ok_bind, pure_eq_ok]
    rfl
  · exact
      { lined := ⟨.of_sound h.held, by simp [empty], by simp [empty], fun _ => rfl,
          List.Pairwise.nil⟩
        tickets := rfl
        next := congrArg (· + 1) hu
        seats := List.nodup_nil
        waiting := by simp [empty]
        known := by simp [empty] }

end Steps

end Convoy

end WorkStealing
