import WorkStealing.Proofs.Convoy.Order

set_option autoImplicit false

/-!
# What a convoy notes of its calls

The passages of a convoy name the calls that have landed, and these have an order on the plain list.
Every call that is started and every turn at the lock keeps this.
-/
namespace WorkStealing.Convoy

/-- The call at `i` did not start, as an owner call before it had to queue. -/
def Barred (asked : List Call) (c : Convoy) (i : Nat) : Prop :=
  (∃ call, asked[i]? = some call ∧ call.isOwner = true) ∧
    ∃ j call r, j < i ∧ asked[j]? = some call ∧ call.isOwner = true ∧
      c.passages[j]? = some (.queued r)

structure Recorded (asked : List Call) (c : Convoy) (L : List Berth) : Prop where
  seats : (L.map Berth.seat).Nodup
  landed : ∀ x ∈ L, asked[x.seat]? = some x.call ∧ c.passages[x.seat]? = some x.passage
  waiting : ∀ w ∈ c.line, asked[w.seat]? = some w.call
  place : ∀ i y, c.passages[i]? = some y →
    y = .queued none ∨ (∃ x ∈ L, x.seat = i) ∨ y = .barred ∧ Barred asked c i

/-- The calls that have landed have an order on the plain list, but for some that found nothing
while the last slot was off the window. -/
def Explained (b : Backlogs) (p : PoolId) (asked : List Call) (c : Convoy) (s : Site)
    (π : Pledge) : Prop :=
  ∃ A B, Draft b p s π c.line A B ∧ (B ≠ [] → π = .slot) ∧ Recorded asked c (A ++ B)

section Records

variable {asked : List Call} {c c' : Convoy} {L L' : List Berth} {call : Call}

theorem Barred.mono {i : Nat} (h : Barred asked c i)
    (hc : ∀ (j : Nat) r, c.passages[j]? = some (.queued r) →
      ∃ r', c'.passages[j]? = some (.queued r')) :
    Barred asked c' i := by
  obtain ⟨hi, j, call, r, hj, hcall, howner, hr⟩ := h
  obtain ⟨r', hr'⟩ := hc j r hr
  exact ⟨hi, j, call, r', hj, hcall, howner, hr'⟩

theorem Recorded.perm (h : Recorded asked c L) (hL : L'.Perm L) : Recorded asked c L' where
  seats := (hL.map Berth.seat).nodup_iff.2 h.seats
  landed x hx := h.landed x (hL.mem_iff.1 hx)
  waiting := h.waiting
  place i y hy := by
    rcases h.place i y hy with hnone | ⟨x, hx, hi⟩ | hbarred
    · exact .inl hnone
    · exact .inr (.inl ⟨x, hL.mem_iff.2 hx, hi⟩)
    · exact .inr (.inr hbarred)

theorem Recorded.lt_size (h : Recorded asked c L) {x : Berth} (hx : x ∈ L) :
    x.seat < c.passages.size :=
  (Array.getElem?_eq_some_iff.1 (h.landed x hx).2).1

theorem nodup_seats_concat {x : Berth} (h : (L.map Berth.seat).Nodup)
    (hx : ∀ y ∈ L, y.seat ≠ x.seat) : ((L ++ [x]).map Berth.seat).Nodup := by
  rw [List.map_append, List.nodup_append]
  refine ⟨h, List.pairwise_singleton .., ?_⟩
  intro i hi j hj
  obtain ⟨y, hy, rfl⟩ := List.mem_map.1 hi
  obtain rfl := List.mem_singleton.1 hj
  exact hx y hy

theorem getElem?_push_of_some {α : Type} {xs : Array α} {i : Nat} {x : α} (h : xs[i]? = some x)
    (y : α) : (xs.push y)[i]? = some x := by
  have hlt := (Array.getElem?_eq_some_iff.1 h).1
  rw [Array.getElem?_push, if_neg (Nat.ne_of_lt hlt), h]

theorem Recorded.push (h : Recorded asked c L) {line : List Waiter} {y : Passage}
    (hline : ∀ w ∈ line, asked[w.seat]? = some w.call)
    (hy : y = .queued none ∨ y = .barred ∧ Barred asked c c.passages.size) :
    Recorded asked { c with line, passages := c.passages.push y } L where
  seats := h.seats
  landed x hx := ⟨(h.landed x hx).1, getElem?_push_of_some (h.landed x hx).2 y⟩
  waiting := hline
  place i z hz := by
    have hmono : ∀ {i}, Barred asked c i →
        Barred asked { c with line, passages := c.passages.push y } i :=
      fun hb => hb.mono fun j r hr => ⟨r, getElem?_push_of_some hr y⟩
    change (c.passages.push y)[i]? = some z at hz
    rw [Array.getElem?_push] at hz
    split at hz
    · rename_i hi
      subst hi
      obtain rfl := Option.some.inj hz
      rcases hy with hnone | ⟨hbar, hb⟩
      · exact .inl hnone
      · exact .inr (.inr ⟨hbar, hmono hb⟩)
    · rcases h.place i z hz with hnone | hx | ⟨hbar, hb⟩
      · exact .inl hnone
      · exact .inr (.inl hx)
      · exact .inr (.inr ⟨hbar, hmono hb⟩)

theorem Recorded.bar {s : Site} {π : Pledge} {first : Nat} (h : Recorded asked c L)
    (hc : c.Sound s π first) (hcall : asked[c.passages.size]? = some call)
    (hblocks : c.blocks call = true) : Recorded asked c.bar L := by
  rw [blocks, Bool.and_eq_true, List.any_eq_true] at hblocks
  obtain ⟨howner, w, hw, hwowner⟩ := hblocks
  exact h.push h.waiting (.inr ⟨rfl, ⟨call, hcall, howner⟩, w.seat, w.call, none, hc.lt_size hw,
    h.waiting w hw, hwowner, (hc.waiting w.seat).2 ⟨w, hw, rfl⟩⟩)

theorem Recorded.pass (h : Recorded asked c L) (hcall : asked[c.passages.size]? = some call)
    (r : Reply) (lack : Option Nat) :
    Recorded asked (c.pass r) (L ++ [⟨c.passages.size, call, r, true, lack⟩]) where
  seats := nodup_seats_concat h.seats fun _ hx => Nat.ne_of_lt (h.lt_size hx)
  landed x hx := by
    rcases List.mem_append.1 hx with hx | hx
    · exact ⟨(h.landed x hx).1, getElem?_push_of_some (h.landed x hx).2 _⟩
    · obtain rfl := List.mem_singleton.1 hx
      exact ⟨hcall, Array.getElem?_push_size⟩
  waiting := h.waiting
  place i z hz := by
    change (c.passages.push (.direct r))[i]? = some z at hz
    rw [Array.getElem?_push] at hz
    split at hz
    · rename_i hi
      exact .inr (.inl ⟨_, List.mem_append_right L (List.mem_singleton_self _), hi.symm⟩)
    · rcases h.place i z hz with hnone | ⟨x, hx, hi⟩ | ⟨hbar, hb⟩
      · exact .inl hnone
      · exact .inr (.inl ⟨x, List.mem_append_left _ hx, hi⟩)
      · exact .inr (.inr ⟨hbar, hb.mono fun j r' hr => ⟨r', getElem?_push_of_some hr _⟩⟩)

theorem Recorded.settle {w : Waiter} {line : List Waiter} (h : Recorded asked c L)
    (hline : c.line = w :: line) (hw : c.passages[w.seat]? = some (.queued none)) (r : Reply)
    (lack : Option Nat) :
    Recorded asked (c.served w line (.landed r)) (L ++ [⟨w.seat, w.call, r, false, lack⟩]) := by
  have hother : ∀ x ∈ L, x.seat ≠ w.seat := by
    intro x hx heq
    have hx' := (h.landed x hx).2
    rw [heq, hw, Berth.passage] at hx'
    split at hx' <;> simp at hx'
  have hpassages := getElem?_served hw line r
  have hwaiting := h.waiting
  rw [hline] at hwaiting
  refine ⟨nodup_seats_concat h.seats hother, ?_,
    fun v hv => hwaiting v (List.mem_cons_of_mem w hv), ?_⟩
  · intro x hx
    rw [hpassages]
    rcases List.mem_append.1 hx with hx | hx
    · rw [if_neg (hother x hx).symm]
      exact h.landed x hx
    · obtain rfl := List.mem_singleton.1 hx
      exact ⟨hwaiting w List.mem_cons_self, if_pos rfl⟩
  · intro i z hz
    rw [hpassages] at hz
    split at hz
    · rename_i hi
      exact .inr (.inl ⟨_, List.mem_append_right L (List.mem_singleton_self _), hi⟩)
    · rcases h.place i z hz with hnone | ⟨x, hx, hi⟩ | ⟨hbar, hb⟩
      · exact .inl hnone
      · exact .inr (.inl ⟨x, List.mem_append_left _ hx, hi⟩)
      · refine .inr (.inr ⟨hbar, hb.mono fun j r' hr => ?_⟩)
        rw [hpassages]
        split
        · exact ⟨some r, rfl⟩
        · exact ⟨r', hr⟩

theorem Recorded.rejoin {w : Waiter} {line : List Waiter} (h : Recorded asked c L)
    (hline : c.line = w :: line) (ticket ahead : Nat) (stage : LockedStage) :
    Recorded asked (c.served w line (.waiting ticket ahead stage)) L where
  seats := h.seats
  landed := h.landed
  waiting v hv := by
    have hwaiting := h.waiting
    rw [hline] at hwaiting
    rcases List.mem_append.1 hv with hv | hv
    · exact hwaiting v (List.mem_cons_of_mem w hv)
    · obtain rfl := List.mem_singleton.1 hv
      exact hwaiting w List.mem_cons_self
  place := h.place

end Records

section Explanations

variable {b : Backlogs} {p : PoolId} {asked : List Call} {c : Convoy} {s s' : Site}
  {π π' : Pledge} {first budget : Nat} {call : Call} {flight : Flight}

theorem Explained.bar (h : Explained b p asked c s π) (hc : c.Sound s π first)
    (hcall : asked[c.passages.size]? = some call) (hblocks : c.blocks call = true) :
    Explained b p asked c.bar s π := by
  obtain ⟨A, B, hdraft, hB, hrecord⟩ := h
  exact ⟨A, B, hdraft, hB, hrecord.bar hc hcall hblocks⟩

theorem Explained.board (h : Explained b p asked c s π) (hc : c.Sound s π first)
    (hblocks : c.blocks call = false) (hcall : asked[c.passages.size]? = some call)
    (hcomes : s.Comes π call none budget flight s' π') :
    Explained b p asked (c.boarded call flight) s' π' := by
  obtain ⟨A, B, hdraft, hB, hrecord⟩ := h
  have hawaits := hc.lined.awaits
  cases hcomes.fate with
  | @landed r hb hk =>
    have hentering : Entering b p s c.line c.line A B none
        ⟨c.passages.size, call, r, true, s.lack⟩ :=
      { direct := rfl
        lack_eq := rfl
        others := fun w hw => ⟨hw, hawaits w hw⟩
        fresh := fun _ => ⟨fun y hy => hrecord.lt_size hy, fun w hw => hc.lt_size hw⟩
        behind := fun hne => absurd rfl hne
        gap := fun _ _ _ hstage => nomatch hstage }
    obtain ⟨A', B', hperm, hdraft', hB'⟩ := hdraft.land hB hentering hcomes.steps hb
    exact ⟨A', B', hdraft', hB', (hrecord.pass hcall r s.lack).perm hperm⟩
  | @waiting ticket ahead locked hq ha hs hslot =>
    -- nobody who starts now waits behind an owner that has the last slot off the window
    have hnone : B = [] := by
      apply by_contra
      intro hne
      cases howner : call.isOwner with
      | true =>
        have hidle := hc.idle hblocks howner
        rw [hB hne] at hidle
        cases hidle
      | false => exact hslot howner (hB hne)
    subst hnone
    obtain ⟨A', B', hperm, hdraft', hB'⟩ := hdraft.wait
      (c.line ++ [⟨c.passages.size, call, ticket, ahead, locked⟩]) hB hcomes.steps hq
      fun w hw => by
        rcases List.mem_append.1 hw with hw | hw
        · exact .inl ⟨hw, hawaits w hw⟩
        · obtain rfl := List.mem_singleton.1 hw
          exact .inr ⟨by simp, fun side u i g hstage => (hs side u i g hstage).2⟩
    refine ⟨A', B', hdraft', hB', (hrecord.push (fun w hw => ?_) (.inl rfl)).perm hperm⟩
    rcases List.mem_append.1 hw with hw | hw
    · exact hrecord.waiting w hw
    · obtain rfl := List.mem_singleton.1 hw
      exact hcall

theorem Explained.serve {w : Waiter} {line : List Waiter}
    (h : Explained b p asked c s π) (hc : c.Sound s π first) (hline : c.line = w :: line)
    (hcomes : s.Comes π w.call (some w.stage) budget flight s' π') :
    Explained b p asked (c.served w line flight) s' π' := by
  obtain ⟨A, B, hdraft, hB, hrecord⟩ := h
  have hawaits := hc.lined.awaits
  rw [hline] at hawaits hdraft
  have hothers : ∀ v ∈ line, v ∈ w :: line ∧ s.Awaits v.call v.stage := fun v hv =>
    ⟨List.mem_cons_of_mem w hv, hawaits v (List.mem_cons_of_mem w hv)⟩
  cases hcomes.fate with
  | @landed r hb hk =>
    have hentering : Entering b p s (w :: line) line A B (some w.stage)
        ⟨w.seat, w.call, r, false, s.lack⟩ :=
      { direct := rfl
        lack_eq := rfl
        others := hothers
        fresh := fun hnone => nomatch hnone
        behind := fun _ => hdraft.ordered.behind w List.mem_cons_self
        gap := fun side u i hstage =>
          hdraft.gap w List.mem_cons_self side u i (Option.some.inj hstage) }
    obtain ⟨A', B', hperm, hdraft', hB'⟩ := hdraft.land hB hentering hcomes.steps hb
    have hw : c.passages[w.seat]? = some (.queued none) :=
      (hc.waiting w.seat).2 ⟨w, hline ▸ List.mem_cons_self, rfl⟩
    exact ⟨A', B', hdraft', hB', (hrecord.settle hline hw r s.lack).perm hperm⟩
  | @waiting ticket ahead locked hq ha hs hslot =>
    obtain ⟨A', B', hperm, hdraft', hB'⟩ := hdraft.wait
      (line ++ [{ w with ticket, ahead, stage := locked }]) hB hcomes.steps hq
      fun v hv => by
        rcases List.mem_append.1 hv with hv | hv
        · exact .inl (hothers v hv)
        · obtain rfl := List.mem_singleton.1 hv
          exact .inr ⟨hdraft.ordered.behind w List.mem_cons_self,
            fun side u i g hstage => (hs side u i g hstage).2⟩
    exact ⟨A', B', hdraft', hB', (hrecord.rejoin hline ticket ahead locked).perm hperm⟩

end Explanations

end WorkStealing.Convoy
