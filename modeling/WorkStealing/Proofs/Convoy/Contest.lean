import WorkStealing.Proofs.Convoy.LastSlot
import WorkStealing.Proofs.Convoy.Record

set_option autoImplicit false

/-!
# The contest for the last slot

While a convoy gathers the head slot stays as it is from the first call on that has looked at it.
Once the owner has come down to it the line is closed: it is served with what is in the slot, the
owner last.
-/
namespace WorkStealing

theorem Call.nowServing_of_turn {call : Call} {ticket ahead : Nat} {stage : LockedStage} {s : Site}
    {o : Flight × Site} (h : call.turn ticket ahead stage s = .ok o) :
    s.deque.foreign.nowServing = ticket := by
  apply by_contra
  intro hne
  have hserves : s.deque.foreign.serves ticket = false := decide_eq_false hne
  rw [Call.turn, Call.grant, hserves] at h
  cases h

def Passage.settled (y : Passage) (r : Reply) : Passage :=
  match y with
  | .queued none => .queued (some r)
  | .queued (some _) | .barred | .direct _ => y

theorem Site.Comes.pledge_eq_none {s s' : Site} {π : Pledge} {call : Call} {flight : Flight}
    {stage : Option LockedStage} {budget : Nat} (h : s.Comes π call stage budget flight s' .none) :
    flight.pledge = .none := by
  have hpledge := h.pledge
  cases hcall : call.isOwner with
  | true =>
    rw [hcall] at hpledge
    exact hpledge.symm
  | false =>
    cases h.fate with
    | landed => rfl
    | waiting _ ha =>
      cases ha with
      | steal | extract => rfl
      | rebase | store | pop => cases hcall
      | removeLast => cases hcall

namespace Convoy

/-- What is known of a convoy that gathers on a pool. Of its calls on the pool `asked` tells. -/
structure Tracked (asked : Nat → Option Call) (c : Convoy) (d : Deque) : Prop where
  seats : ∀ x ∈ c.line, asked x.seat = some x.call
  sorted : c.line.Pairwise fun x y => x.seat < y.seat
  sees : ∀ x ∈ c.line, d.Sees x.stage
  foreign : ∀ i r call, c.passages[i]? = some (.direct r) → asked i = some call →
    call.isOwner = false → r = .missed
  removes : ∀ i r side u, c.passages[i]? = some (.direct r) → asked i = some (.remove side u) →
    r = .missed ∨ r = .taken u
  taken : ∀ i u call, c.passages[i]? = some (.direct (.taken u)) → asked i = some call →
    d.ring.cell d.head ≠ some u
  barred : ∀ i call, c.passages[i]? = some .barred → asked i = some call → call.isOwner = true
  unsettled : ∀ (i : Nat) r, c.passages[i]? ≠ some (.queued (some r))

def Engaged (asked : Nat → Option Call) (c : Convoy) : Prop :=
  c.line ≠ [] ∨ ∃ i u call, c.passages[i]? = some (.direct (.taken u)) ∧ asked i = some call

/-- The owner has not come down to the head slot. -/
structure Uncontested (asked : Nat → Option Call) (c : Convoy) (d : Deque) : Prop
    extends Tracked asked c d where
  shown : Engaged asked c → d.head < d.tail

/-- The owner's call at `k` has taken the head slot off the window, with `o` in it, and waits. -/
structure Contested (asked : Nat → Option Call) (k : Nat) (o : Option UnitId) (c : Convoy)
    (d : Deque) (π : Pledge) : Prop extends Tracked asked c d where
  slot : π = .slot
  holds : d.ring.cell d.head = o
  last : ∃ y, c.line.getLast? = some y ∧ y.seat = k ∧ y.call.isOwner = true
  after : ∀ i y call, k < i → c.passages[i]? = some y → asked i = some call →
    y = if call.isOwner then .barred else .direct .missed
  elsewhere : ∀ i u, k < i → c.passages[i]? = some (.direct (.taken u)) → o ≠ some u

section Gathering

variable {asked : Nat → Option Call} {c : Convoy} {d d' : Deque} {π : Pledge} {k : Nat}
  {o : Option UnitId}

theorem getElem?_push_cases {α : Type} {xs : Array α} {i : Nat} {x y : α}
    (h : (xs.push x)[i]? = some y) : xs[i]? = some y ∨ i = xs.size ∧ y = x := by
  rw [Array.getElem?_push] at h
  split at h
  · exact .inr ⟨‹_›, (Option.some.inj h).symm⟩
  · exact .inl h

theorem Uncontested.empty (asked : Nat → Option Call) (d : Deque) :
    Uncontested asked .empty d where
  seats := by simp [Convoy.empty]
  sorted := .nil
  sees := by simp [Convoy.empty]
  foreign := by simp [Convoy.empty]
  removes := by simp [Convoy.empty]
  taken := by simp [Convoy.empty]
  barred := by simp [Convoy.empty]
  unsettled := by simp [Convoy.empty]
  shown := by simp [Engaged, Convoy.empty]

theorem Tracked.move (h : Tracked asked c d) (hhead : d'.head = d.head)
    (hgen : d'.generation = d.generation)
    (hslot : Engaged asked c → d'.ring.cell d.head = d.ring.cell d.head) :
    Tracked asked c d' where
  seats := h.seats
  sorted := h.sorted
  sees x hx := by
    have hsees := h.sees x hx
    have hsame := hslot (.inl (List.ne_nil_of_mem hx))
    cases hstage : x.stage with
    | extract side u i g =>
      rw [hstage] at hsees
      refine ⟨hsees.1.trans hgen.symm, fun hc => ?_⟩
      rw [hhead] at hc ⊢
      exact hsees.2 (hsame.symm.trans hc)
    | steal | lastSlot | store | rebase => trivial
  foreign := h.foreign
  removes := h.removes
  taken i u call hi hcall := by
    rw [hhead, hslot (.inr ⟨i, u, call, hi, hcall⟩)]
    exact h.taken i u call hi hcall
  barred := h.barred
  unsettled := h.unsettled

theorem Tracked.push (h : Tracked asked c d) {y : Passage} (hy : ∀ r, y ≠ .queued r)
    (hdirect : ∀ r call, y = .direct r → asked c.passages.size = some call →
      (call.isOwner = false → r = .missed) ∧
      (∀ side u, call = .remove side u → r = .missed ∨ r = .taken u) ∧
      ∀ u, r = .taken u → d.ring.cell d.head ≠ some u)
    (hbarred : ∀ call, y = .barred → asked c.passages.size = some call → call.isOwner = true) :
    Tracked asked { c with passages := c.passages.push y } d where
  seats := h.seats
  sorted := h.sorted
  sees := h.sees
  foreign i r call hi hcall howner := by
    rcases getElem?_push_cases hi with hi | ⟨rfl, hr⟩
    · exact h.foreign i r call hi hcall howner
    · exact (hdirect r call hr.symm hcall).1 howner
  removes i r side u hi hcall := by
    rcases getElem?_push_cases hi with hi | ⟨rfl, hr⟩
    · exact h.removes i r side u hi hcall
    · exact (hdirect r _ hr.symm hcall).2.1 side u rfl
  taken i u call hi hcall := by
    rcases getElem?_push_cases hi with hi | ⟨rfl, hr⟩
    · exact h.taken i u call hi hcall
    · exact (hdirect _ call hr.symm hcall).2.2 u rfl
  barred i call hi hcall := by
    rcases getElem?_push_cases hi with hi | ⟨rfl, hr⟩
    · exact h.barred i call hi hcall
    · exact hbarred call hr.symm hcall
  unsettled i r hi := by
    rcases getElem?_push_cases hi with hi | ⟨rfl, hr⟩
    · exact h.unsettled i r hi
    · exact hy _ hr.symm

theorem Tracked.join (h : Tracked asked c d) {call : Call} {ticket ahead : Nat}
    {stage : LockedStage} (hcall : asked c.passages.size = some call) (hsees : d.Sees stage)
    (hseats : ∀ x ∈ c.line, x.seat < c.passages.size) :
    Tracked asked (c.boarded call (.waiting ticket ahead stage)) d where
  seats := by
    refine List.forall_mem_append.2 ⟨h.seats, fun x hx => ?_⟩
    obtain rfl := List.mem_singleton.1 hx
    exact hcall
  sorted := by
    refine List.pairwise_append.2 ⟨h.sorted, List.pairwise_singleton .., fun x hx y hy => ?_⟩
    obtain rfl := List.mem_singleton.1 hy
    exact hseats x hx
  sees := by
    refine List.forall_mem_append.2 ⟨h.sees, fun x hx => ?_⟩
    obtain rfl := List.mem_singleton.1 hx
    exact hsees
  foreign i r call' hi := by
    rcases getElem?_push_cases hi with hi | ⟨rfl, hr⟩
    · exact h.foreign i r call' hi
    · cases hr
  removes i r side u hi := by
    rcases getElem?_push_cases hi with hi | ⟨rfl, hr⟩
    · exact h.removes i r side u hi
    · cases hr
  taken i u call' hi := by
    rcases getElem?_push_cases hi with hi | ⟨rfl, hr⟩
    · exact h.taken i u call' hi
    · cases hr
  barred i call' hi := by
    rcases getElem?_push_cases hi with hi | ⟨rfl, hr⟩
    · exact h.barred i call' hi
    · cases hr
  unsettled i r hi := by
    rcases getElem?_push_cases hi with hi | ⟨rfl, hr⟩
    · exact h.unsettled i r hi
    · cases hr

theorem isOwner_of_blocks {call : Call} (h : c.blocks call = true) : call.isOwner = true :=
  (Bool.and_eq_true_iff.1 h).1

theorem Engaged.of_push {y : Passage}
    (h : Engaged asked { c with passages := c.passages.push y })
    (hy : ∀ u call, y = .direct (.taken u) → asked c.passages.size ≠ some call) :
    Engaged asked c := by
  rcases h with hline | ⟨i, u, call, hi, hcall⟩
  · exact .inl hline
  · rcases getElem?_push_cases hi with hi | ⟨rfl, hr⟩
    · exact .inr ⟨i, u, call, hi, hcall⟩
    · exact absurd hcall (hy u call hr.symm)

theorem Uncontested.bar (h : Uncontested asked c d)
    (hbar : ∀ call, asked c.passages.size = some call → call.isOwner = true) :
    Uncontested asked c.bar d where
  toTracked := h.push (by simp) (by simp) fun call _ => hbar call
  shown he := h.shown (he.of_push (by simp))

theorem Uncontested.beside (h : Uncontested asked c d) (r : Reply)
    (hbeside : asked c.passages.size = none) : Uncontested asked (c.pass r) d where
  toTracked := h.push (by simp) (fun _ _ _ hcall => nomatch hbeside.symm.trans hcall) (by simp)
  shown he := h.shown (he.of_push fun _ _ _ hcall => nomatch hbeside.symm.trans hcall)

variable {s s' : Site} {call : Call} {flight : Flight}

theorem Uncontested.board (h : Uncontested asked c s.deque) (hs : s.Stands π)
    (harrives : s.Arrives call flight s')
    (hgen : s'.deque.generation = s.deque.generation) (hcall : asked c.passages.size = some call)
    (hseats : ∀ x ∈ c.line, x.seat < c.passages.size) (hslot : flight.pledge = .none) :
    Uncontested asked (c.boarded call flight) s'.deque := by
  cases flight with
  | landed r =>
    cases harrives with
    | landed spares foreign removes taken =>
      have hmove := h.toTracked.move spares.head hgen fun he => (spares.shown (h.shown he)).2
      refine ⟨hmove.push (by simp) ?_ (by simp), fun he => ?_⟩
      · rintro r' call' ⟨⟩ hcall'
        cases hcall.symm.trans hcall'
        refine ⟨foreign, removes, fun u hu => ?_⟩
        obtain ⟨hlt, hne⟩ := taken u hu
        rw [spares.head, (spares.shown hlt).2]
        exact hne
      · have hlt : s.deque.head < s.deque.tail := by
          rcases he with hline | ⟨i, u, call', hi, hcall'⟩
          · exact h.shown (.inl hline)
          · rcases getElem?_push_cases hi with hi | ⟨rfl, hr⟩
            · exact h.shown (.inr ⟨i, u, call', hi, hcall'⟩)
            · cases hr
              exact (taken u rfl).1
        rw [spares.head]
        exact (spares.shown hlt).1
  | waiting ticket ahead stage =>
    have hsees := harrives.sees hs hgen
    cases harrives with
    | waits head ring tail shown seen =>
      have hmove := h.toTracked.move head hgen fun _ => by rw [ring]
      have hpledge : stage.pledge = .none := hslot
      refine ⟨hmove.join hcall hsees hseats, fun _ => ?_⟩
      rw [head, tail (by rw [hpledge]; simp)]
      exact shown (by rw [hpledge]; rfl)

theorem Uncontested.lower (h : Uncontested asked c s.deque) (hs : s.Stands π)
    {ticket ahead : Nat} {e : Option UnitId}
    (harrives : s.Arrives call (.waiting ticket ahead (.lastSlot e)) s')
    (hgen : s'.deque.generation = s.deque.generation) (howner : call.isOwner = true)
    (hcall : asked c.passages.size = some call)
    (hseats : ∀ x ∈ c.line, x.seat < c.passages.size) :
    Contested asked c.passages.size (s.deque.ring.cell s.deque.head)
      (c.boarded call (.waiting ticket ahead (.lastSlot e))) s'.deque .slot := by
  have hsees := harrives.sees hs hgen
  cases harrives with
  | waits head ring tail shown seen =>
    have hmove := h.toTracked.move head hgen fun _ => by rw [ring]
    have hlate : ∀ {i : Nat} {y : Passage}, c.passages.size < i →
        (c.passages.push (.queued none))[i]? ≠ some y := fun hi hy => by
      have hlt := (Array.getElem?_eq_some_iff.1 hy).1
      rw [Array.size_push] at hlt
      omega
    exact
      { toTracked := hmove.join hcall hsees hseats
        slot := rfl
        holds := by rw [head, ring]
        last := ⟨_, List.getLast?_concat, rfl, howner⟩
        after := fun _ _ _ hi hy => absurd hy (hlate hi)
        elsewhere := fun _ _ hi hy => absurd hy (hlate hi) }

theorem Contested.push (h : Contested asked k o c d π) {y : Passage} (hy : ∀ r, y ≠ .queued r)
    (hasked : ∀ call, asked c.passages.size = some call →
      y = if call.isOwner then .barred else .direct .missed)
    (htaken : ∀ u, y = .direct (.taken u) → o ≠ some u) :
    Contested asked k o { c with passages := c.passages.push y } d π where
  toTracked := by
    refine h.toTracked.push hy (fun r call hr hcall => ?_) fun call hbarred hcall => ?_
    · have hy := hasked call hcall
      rw [hr] at hy
      split at hy
      · cases hy
      · cases hy
        exact ⟨fun _ => rfl, fun _ _ _ => .inl rfl, by simp⟩
    · have hy := hasked call hcall
      rw [hbarred] at hy
      split at hy
      · assumption
      · cases hy
  slot := h.slot
  holds := h.holds
  last := h.last
  after i z call hi hz hcall := by
    rcases getElem?_push_cases hz with hz | ⟨rfl, rfl⟩
    · exact h.after i z call hi hz hcall
    · exact hasked call hcall
  elsewhere i u hi hz := by
    rcases getElem?_push_cases hz with hz | ⟨rfl, hlast⟩
    · exact h.elsewhere i u hi hz
    · exact htaken u hlast.symm

theorem Contested.bar (h : Contested asked k o c d π)
    (hbar : ∀ call, asked c.passages.size = some call → call.isOwner = true) :
    Contested asked k o c.bar d π :=
  h.push (by simp) (fun call hcall => by rw [hbar call hcall]; rfl) (by simp)

theorem Contested.beside (h : Contested asked k o c d π) {r : Reply}
    (hbeside : asked c.passages.size = none)
    (htaken : ∀ u, r = .taken u → o ≠ some u) : Contested asked k o (c.pass r) d π :=
  h.push (by simp) (fun _ hcall => nomatch hbeside.symm.trans hcall) fun u hu =>
    htaken u (Passage.direct.inj hu)

theorem Contested.foreign_of_free (h : Contested asked k o c d π)
    (hblocks : c.blocks call = false) : call.isOwner = false := by
  obtain ⟨y, hy, -, howner⟩ := h.last
  cases hcall : call.isOwner with
  | false => rfl
  | true =>
    have hidle := others_of_not_blocks hblocks hcall y (List.mem_of_getLast? hy)
    rw [howner] at hidle
    cases hidle

theorem Contested.board (h : Contested asked k o c s.deque π) (hs : s.Stands π)
    (hlock : s.deque.foreign.nowServing < s.deque.foreign.nextTicket)
    (hc : call.Admissible s.units) (hcall : asked c.passages.size = some call)
    (hblocks : c.blocks call = false) (hrun : call.start s = .ok (flight, s')) :
    Contested asked k o (c.boarded call flight) s'.deque π := by
  have hforeign := h.foreign_of_free hblocks
  have hslot := h.slot
  subst hslot
  obtain ⟨rfl, m, hm⟩ := hs.start_misses hlock hc hforeign _ hrun
  have hpush := h.push (y := .direct .missed) (by simp) (fun call' hcall' => by
    cases hcall.symm.trans hcall'
    rw [hforeign]
    rfl) (by simp)
  change Contested asked k o (c.pass .missed) s'.deque .slot
  dsimp only at hm
  rw [hm]
  exact ⟨hpush.toTracked.move rfl rfl fun _ => rfl, rfl, hpush.holds, hpush.last, hpush.after,
    hpush.elsewhere⟩

end Gathering

/-- The line is closed, and served with what is in the last slot. It was `c₀` when the lock was let
go, and the slot held `o`. -/
structure Settling (c₀ : Convoy) (o : Option UnitId) (c : Convoy) (d : Deque) (π : Pledge) :
    Prop where
  low : d.tail = d.head
  sees : ∀ x ∈ c.line, d.Sees x.stage
  last : ∀ y, c.line.getLast? = some y → y.call.isOwner = true ∧ π = .slot
  pending : ∀ x ∈ c.line, awards c.line (d.ring.cell d.head) x.seat = awards c₀.line o x.seat
  settled : ∀ (i : Nat) r, c.passages[i]? = some (.queued (some r)) → r = awards c₀.line o i
  stays : ∀ (i : Nat) y, c₀.passages[i]? = some y → y ≠ .queued none → c.passages[i]? = some y
  queued : ∀ (i : Nat), c₀.passages[i]? = some (.queued none) →
    ∃ r, c.passages[i]? = some (.queued r)

section Serving

variable {asked : Nat → Option Call} {c c₀ : Convoy} {o : Option UnitId} {s s' : Site}
  {π π' : Pledge} {first budget : Nat} {flight : Flight}

theorem Contested.settling {d : Deque} {k : Nat} (h : Contested asked k o c d π)
    (hlow : d.tail = d.head) : Settling c o c d π where
  low := hlow
  sees := h.sees
  last y hy := by
    obtain ⟨z, hz, -, howner⟩ := h.last
    cases hy.symm.trans hz
    exact ⟨howner, h.slot⟩
  pending _ _ := by rw [h.holds]
  settled i r hi := absurd hi (h.unsettled i r)
  stays _ _ hi _ := hi
  queued _ hi := ⟨none, hi⟩

theorem Settling.turn (h : Settling c₀ o c s.deque π) (hc : c.Sound s π first) {x : Waiter}
    {line : List Waiter} (hline : c.line = x :: line)
    (hrun : x.call.turn x.ticket x.ahead x.stage s = .ok (flight, s'))
    (hcomes : s.Comes π x.call (some x.stage) budget flight s' π') :
    Settling c₀ o (c.served x line flight) s'.deque π' := by
  have hx : x ∈ c.line := hline ▸ List.mem_cons_self
  have hslot : π = .slot := (h.last _ (List.getLast?_eq_some_getLast (List.ne_nil_of_mem hx))).2
  subst hslot
  have hpush : ∀ u, x.call ≠ .push u := by
    intro u hu
    have hpledge := hc.lined.pledge x hx (by rw [hu]; rfl)
    have hawaits := hc.lined.awaits x hx
    rw [hu] at hawaits
    rw [hawaits.pledge_of_push] at hpledge
    cases hpledge
  obtain ⟨hflight, hoffered⟩ := hc.lined.stands.turn_offers (hc.lined.awaits x hx) hpush
    (h.sees x hx) (Call.nowServing_of_turn hrun) _ hrun
  have hflight : flight = _ := hflight
  subst hflight
  have hseats := hc.seats
  rw [hline, List.map_cons, List.nodup_cons] at hseats
  have hwaiting : c.passages[x.seat]? = some (.queued none) := (hc.waiting x.seat).2 ⟨x, hx, rfl⟩
  have hpassages := getElem?_served hwaiting line (x.call.verdict (s.deque.ring.cell s.deque.head))
  have hrest : ∀ z ∈ line, z ∈ c.line ∧ x.seat ≠ z.seat := fun z hz =>
    ⟨hline ▸ List.mem_cons_of_mem x hz, fun hxz => hseats.1 (List.mem_map.2 ⟨z, hz, hxz.symm⟩)⟩
  -- whoever is left is offered what `x` has left, and the owner is still the last
  refine ⟨hoffered.tail.trans (h.low.trans hoffered.head.symm),
    fun z hz => (h.sees z (hrest z hz).1).offered hoffered, fun y hy => ?_, fun z hz => ?_,
    fun i r hi => ?_, fun i y hi hy => ?_, fun i hi => ?_⟩
  · have hy : line.getLast? = some y := hy
    have hmem := List.mem_of_getLast? hy
    have hlast : c.line.getLast? = some y := by
      rw [hline, List.getLast?_cons_of_ne_nil (List.ne_nil_of_mem hmem)]
      exact hy
    have howner := (h.last y hlast).1
    have hforeign : x.call.isOwner = false := by
      have halone := hc.lined.alone
      rw [hline] at halone
      cases hxo : x.call.isOwner with
      | false => rfl
      | true => exact absurd ((List.pairwise_cons.1 halone).1 y hmem hxo) (by simp [howner])
    refine ⟨howner, ?_⟩
    rw [hcomes.pledge, hforeign]
    rfl
  · obtain ⟨hz', hne⟩ := hrest z hz
    rw [hoffered.head, hoffered.slot, ← h.pending z hz', hline, awards_of_ne hne]
    rfl
  · rw [hpassages] at hi
    split at hi
    · rename_i hxi
      cases hi
      rw [← hxi, ← h.pending x hx, hline, awards_front]
    · exact h.settled i r hi
  · rw [hpassages]
    split
    · rename_i hxi
      have hsame := h.stays i y hi hy
      rw [← hxi, hwaiting] at hsame
      exact absurd (Option.some.inj hsame).symm hy
    · exact h.stays i y hi hy
  · rw [hpassages]
    split
    · exact ⟨_, rfl⟩
    · exact h.queued i hi

theorem Contested.released {k : Nat} (h : Contested asked k o c s.deque π) :
    Contested asked k o c s.released.deque π :=
  ⟨h.toTracked.move rfl rfl fun _ => rfl, h.slot, h.holds, h.last, h.after, h.elsewhere⟩

theorem Contested.finish {k : Nat} (h : Contested asked k o c s.deque π) (hc : c.Sound s π first)
    (hnow : s.deque.foreign.nowServing + 1 = first) : ∃ c' s', c.finish s = .ok (c', s') ∧
      s'.deque.tail = s'.deque.head ∧ ∀ (i : Nat) (y : Passage), c.passages[i]? = some y →
        c'.passages[i]? = some (y.settled (awards c.line o i)) := by
  have hslot := h.slot
  subst hslot
  have hlow : s.deque.tail = s.deque.head := (hc.lined.stands.lowered rfl).symm
  obtain ⟨c', s', last, hrun, hsound, -, -, hline, hsettling⟩ := hc.finish
    (P := fun c' s' π' => Settling c o c' s'.deque π')
    (fun hc hline hrun hcomes hp => hp.turn hc hline hrun hcomes) hnow (h.released.settling hlow)
  refine ⟨c', s', hrun, hsettling.low, fun i y hy => ?_⟩
  cases y with
  | barred | direct r => exact hsettling.stays i _ hy (by simp [Passage.settled])
  | queued r =>
    cases r with
    | some r => exact absurd hy (h.unsettled i r)
    | none =>
      obtain ⟨r, hr⟩ := hsettling.queued i hy
      cases r with
      | some r =>
        rw [hr, hsettling.settled i r hr]
        rfl
      | none =>
        -- nobody is left who waits
        obtain ⟨x, hx, -⟩ := (hsound.waiting i).1 hr
        rw [hline] at hx
        cases hx

theorem Contested.last_wants {k : Nat} (h : Contested asked k o c s.deque π)
    (hc : c.Sound s π first) : ∃ line y, c.line = line ++ [y] ∧ y.seat = k ∧
      y.call.isOwner = true ∧ ∀ u, o = some u → y.call.wants u = true := by
  obtain ⟨y, hy, hseat, howner⟩ := h.last
  obtain ⟨line, hline⟩ := List.getLast?_eq_some_iff.1 hy
  have hmem := List.mem_of_getLast? hy
  have hslot := h.slot
  subst hslot
  obtain ⟨e, he⟩ := LockedStage.exists_lastSlot (hc.lined.pledge y hmem howner).symm
  have hawaits := hc.lined.awaits y hmem
  rw [he] at hawaits
  refine ⟨line, y, hline, hseat, howner, fun u hu => ?_⟩
  have hcell : s.deque.ring.cell s.deque.tail = some u := by
    rw [← hc.lined.stands.lowered rfl, h.holds, hu]
  cases hcall : y.call with
  | pop => rfl
  | push | steal =>
    rw [hcall] at hawaits
    cases hawaits
  | remove side v =>
    rw [hcall] at hawaits
    cases hawaits with
    | removeLast _ hv => exact decide_eq_true (hv u hcell).symm

/-- One call gets the unit in the last slot: the first removal of it that waits before the owner,
or else the owner. -/
theorem Contested.exists_winner {k : Nat} {u : UnitId}
    (h : Contested asked k (some u) c s.deque π) (hc : c.Sound s π first) :
    ∃ j, c.passages[j]? = some (.queued none) ∧ awards c.line (some u) j = .taken u ∧
      (j = k ∨ j < k ∧ ∃ side, asked j = some (.remove side u)) ∧
      (∀ i side, i < j → asked i = some (.remove side u) →
        c.passages[i]? ≠ some (.queued none)) ∧
      ∀ i, i ≠ j → awards c.line (some u) i = .missed := by
  obtain ⟨line, y, hline, rfl, howner, hwants⟩ := h.last_wants hc
  have hy : y ∈ c.line := by
    rw [hline]
    exact List.mem_append_right line (List.mem_singleton_self y)
  obtain ⟨z, hz, hzw, haward, hfirst, hrest⟩ := exists_awarded h.sorted ⟨y, hy, hwants u rfl⟩
  refine ⟨z.seat, (hc.waiting _).2 ⟨z, hz, rfl⟩, haward, ?_, fun i side hi hcall hqueued => ?_,
    hrest⟩
  · -- the owner is the last in line, so whoever else wins stands before it and is no owner
    have hsorted := h.sorted
    have halone := hc.lined.alone
    rw [hline] at hsorted halone hz
    rcases List.mem_append.1 hz with hz' | hz'
    · refine .inr ⟨(List.pairwise_append.1 hsorted).2.2 z hz' y (List.mem_singleton_self y), ?_⟩
      have hforeign := (List.pairwise_append.1 halone).2.2 z hz' y (List.mem_singleton_self y)
      rw [howner] at hforeign
      have hseat := h.seats z (by rw [hline]; exact hz)
      cases hcall : z.call with
      | remove side v =>
        rw [hcall] at hzw hseat
        obtain rfl := of_decide_eq_true hzw
        exact ⟨side, hseat⟩
      | pop =>
        rw [hcall] at hforeign
        cases hforeign rfl
      | push | steal =>
        rw [hcall] at hzw
        cases hzw
    · exact .inl (congrArg Waiter.seat (List.mem_singleton.1 hz'))
  · obtain ⟨x, hx, rfl⟩ := (hc.waiting i).1 hqueued
    have hspurns := hfirst x hx hi
    rw [Option.some.inj ((h.seats x hx).symm.trans hcall)] at hspurns
    exact absurd rfl (of_decide_eq_false hspurns)

end Serving

end Convoy

end WorkStealing
