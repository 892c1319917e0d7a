import WorkStealing.Proofs.Convoy.Contest
import WorkStealing.Proofs.Session.Linearization

set_option autoImplicit false

/-!
# The last unit of a pool in a session

In a convoy in which the owner comes down to the last slot and has to wait, no steal gets a unit. If
there is a unit in the slot, the first removal of it that waits before the owner gets it, or else
the owner does. In the end the pool is empty.
-/
namespace WorkStealing

namespace World

section Gathering

def asks (w : World) (p : PoolId) (calls : List BoardingCall) (i : Nat) : Option Call :=
  calls[i]?.bind fun bc => (w.resolve bc).bind fun o => if o.1 = p then some o.2 else none

def gather (w : World) (p : PoolId) (calls : List BoardingCall) : Checked (Convoy × World) := do
  let (_, w) ← w.boundless.visit p fun s => do return ((), ← Convoy.hold s)
  boardAll p .empty w calls

/-- The call at `k` of a convoy on `p` finds the pool as `before`, lowers the tail and waits. -/
structure Lowers (w : World) (p : PoolId) (calls : List BoardingCall) (k : Nat) (call : Call)
    (before after : Site) : Prop where
  asks : w.asks p calls k = some call
  gathers : ∃ c v d, w.gather p (calls.take k) = .ok (c, v) ∧ v.Live p d ∧ before = v.site d ∧
    c.blocks call = false
  waits : ∃ ticket ahead stage, call.start before = .ok (.waiting ticket ahead stage, after)
  lowered : after.deque.tail < before.deque.tail

variable {w₀ w v : World} {p q : PoolId} {calls : List BoardingCall} {i : Nat} {bc : BoardingCall}
  {call : Call}

theorem asks_of_resolve (hbc : calls[i]? = some bc) (hr : w.resolve bc = some (p, call)) :
    w.asks p calls i = some call := by
  simp [asks, hbc, hr]

theorem asks_elsewhere (hbc : calls[i]? = some bc) (hr : w.resolve bc = some (q, call))
    (hq : q ≠ p) : w.asks p calls i = none := by
  simp [asks, hbc, hr, hq]

theorem exists_resolve_of_asks (h : w.asks p calls i = some call) :
    ∃ bc, calls[i]? = some bc ∧ w.resolve bc = some (p, call) := by
  obtain ⟨bc, hbc, h⟩ := Option.bind_eq_some_iff.1 h
  obtain ⟨⟨q, call'⟩, hr, h⟩ := Option.bind_eq_some_iff.1 h
  refine ⟨bc, hbc, ?_⟩
  dsimp only at h
  split at h
  · rename_i hq
    cases h
    rw [hr, hq]
  · cases h

theorem getElem?_of_take {k : Nat} (h : (calls.take k)[i]? = some bc) : calls[i]? = some bc := by
  rw [List.getElem?_take] at h
  split at h
  · exact h
  · cases h

theorem Sound.gather_eq {d : Deque} (h : w.Sound none none) (hl : w.Live p d)
    (calls : List BoardingCall) : w.gather p calls =
      boardAll p .empty (w.boundless.put (w.boundless.site d).held) calls := by
  rw [gather, h.boundless.visit_hold hl]
  rfl

variable {d : Deque} {c : Convoy} {π : Pledge} {k : Nat}

theorem isOwner_of_bar (hbc : calls[c.passages.size]? = some bc)
    (hblocks : ∀ q call, w.resolve bc = some (q, call) → c.blocks call = true) (call : Call)
    (h : w.asks p calls c.passages.size = some call) : call.isOwner = true := by
  obtain ⟨bc', hbc', hr⟩ := exists_resolve_of_asks h
  cases hbc.symm.trans hbc'
  exact Convoy.isOwner_of_blocks (hblocks p call hr)

theorem Boarding.uncontested_before (hready : ∀ bc ∈ calls, w₀.Ready bc) (k : Nat) :
    w₀.Keeps p (calls.take k) fun _ e c π =>
      π = .none → c.Uncontested (w₀.asks p calls) e where
  bar _ hbc hblocks hp hπ := (hp hπ).bar (isOwner_of_bar (getElem?_of_take hbc) hblocks)
  own {w d c π bc call flight s π'} h hbc hr hblocks hrun hcomes hp hπ := by
    subst hπ
    have hbc := getElem?_of_take hbc
    have hidle : call.isOwner = true → π = .none := h.convoy.idle hblocks
    have hnone : π = .none := by
      cases hcall : call.isOwner with
      | true => exact hidle hcall
      | false =>
        have hpledge := hcomes.pledge
        rw [hcall] at hpledge
        exact hpledge.symm
    have hc := h.admissible (hready bc (List.mem_of_getElem? hbc))
      ((resolve_congr h.handles bc).trans hr)
    have harrives := h.convoy.arrives hc hblocks _ hrun
    have hgen := hcomes.grown.resolve_right (by simp)
    exact (hp hnone).board h.convoy.lined.stands harrives hgen (asks_of_resolve hbc hr)
      (fun _ hx => h.convoy.lt_size hx) hcomes.pledge_eq_none
  beside _ hbc hr hq _ hp hπ :=
    (hp hπ).beside _ (asks_elsewhere (getElem?_of_take hbc) hr hq)

theorem Boarding.not_cell_of_beside {s : Site} {r : Reply} (h : Boarding w₀ w p d c π)
    (hr : w.resolve bc = some (q, call)) (hq : q ≠ p) (hc : call.Admissible w.units)
    (hrun : w.perform q call = .ok (r, w.put s)) {u : UnitId} (hu : r = .taken u) (i : Nat) :
    d.ring.cell i ≠ some u := by
  intro hcell
  obtain ⟨x, hx, hxq⟩ := exists_handle_of_resolve hr
  obtain ⟨e, he⟩ := h.world.handle x hx
  rw [hxq] at he
  have hbusy : some p ≠ some q := fun heq => hq (Option.some.inj heq).symm
  obtain ⟨_, -, hrun', -, -, -⟩ := h.world.perform_beside he hbusy hc
  have hreply := (Prod.mk.inj (Except.ok.inj (hrun.symm.trans hrun'))).1
  have hs := (h.world.site q e he hbusy).1
  have hthere := hs.holder_of_mem (Site.mem_of_taken hs (hreply.symm.trans hu))
  have hhere : w.units.holder? u = some d.id := h.convoy.lined.stands.holder_of_cell hcell
  change w.units.holder? u = some e.id at hthere
  rw [hthere, h.live.2, he.2] at hhere
  exact hq (Option.some.inj hhere)

theorem Boarding.contested_after (hready : ∀ bc ∈ calls, w₀.Ready bc) (k : Nat)
    (o : Option UnitId) :
    w₀.Keeps p calls fun _ e c π => c.Contested (w₀.asks p calls) k o e π where
  bar _ hbc hblocks hp := hp.bar (isOwner_of_bar hbc hblocks)
  own {w d c π bc call flight s π'} h hbc hr hblocks hrun hcomes hp := by
    have hc := h.admissible (hready bc (List.mem_of_getElem? hbc))
      ((resolve_congr h.handles bc).trans hr)
    have hsame : π' = π := by
      rw [hcomes.pledge, hp.foreign_of_free hblocks]
      rfl
    rw [hsame]
    exact hp.board h.convoy.lined.stands (h.convoy.locked rfl) hc (asks_of_resolve hbc hr) hblocks
      hrun
  beside {w d c π bc q call r s} h hbc hr hq hrun hp := by
    have hr' := (resolve_congr h.handles bc).trans hr
    have hc := h.admissible (hready bc (List.mem_of_getElem? hbc)) hr'
    refine hp.beside (asks_elsewhere hbc hr hq) fun u hu => ?_
    rw [← hp.holds]
    exact h.not_cell_of_beside hr' hq hc hrun hu _

theorem Boarding.lower {s : Site} {stage : LockedStage} {ticket ahead budget : Nat}
    {π' : Pledge} (h : Boarding w₀ w p d c π) (hc : call.Admissible w.units)
    (hasks : w₀.asks p calls c.passages.size = some call) (hblocks : c.blocks call = false)
    (hp : π = .none → c.Uncontested (w₀.asks p calls) d)
    (hrun : call.start (w.site d) = .ok (.waiting ticket ahead stage, s))
    (hcomes : (w.site d).Comes π call none budget (.waiting ticket ahead stage) s π')
    (hlt : s.deque.tail < d.tail) :
    (call = .pop ∨ ∃ u, call = .remove .owner u) ∧ s.deque.tail = s.deque.head ∧
      (c.boarded call (.waiting ticket ahead stage)).Contested (w₀.asks p calls) c.passages.size
        (s.deque.ring.cell s.deque.head) s.deque π' := by
  have hidle : call.isOwner = true → π = .none := h.convoy.idle hblocks
  have harrives := h.convoy.arrives hc hblocks _ hrun
  have hstage : stage.pledge = .slot := by
    apply by_contra
    intro hne
    cases harrives with
    | waits _ _ tail => exact Nat.ne_of_lt hlt (tail hne)
  obtain ⟨e, rfl⟩ := LockedStage.exists_lastSlot hstage
  have hcall : call = .pop ∨ ∃ u, call = .remove .owner u := by
    cases hcomes.fate with
    | waiting _ ha =>
      cases ha with
      | pop => exact .inl rfl
      | removeLast u => exact .inr ⟨u, rfl⟩
  have howner : call.isOwner = true := by
    rcases hcall with rfl | ⟨u, rfl⟩ <;> rfl
  have hslot : π' = .slot := by
    rw [hcomes.pledge, howner]
    rfl
  subst hslot
  have hhead : s.deque.head = d.head ∧ s.deque.ring = d.ring := by
    cases harrives with
    | waits head ring => exact ⟨head, ring⟩
  have hcontested := (hp (hidle howner)).lower (s := w.site d) h.convoy.lined.stands harrives
    (hcomes.grown.resolve_right (by simp)) howner hasks fun _ hx => h.convoy.lt_size hx
  rw [hhead.1, hhead.2]
  exact ⟨hcall, (hcomes.steps.stands.lowered rfl).symm.trans hhead.1, hcontested⟩

theorem Sound.live_of_asks (h : w.Sound none none) (hi : w.asks p calls i = some call) :
    ∃ d, w.Live p d := by
  obtain ⟨bc, -, hr⟩ := exists_resolve_of_asks hi
  obtain ⟨x, hx, hxp⟩ := exists_handle_of_resolve hr
  obtain ⟨d, hd⟩ := h.handle x hx
  exact ⟨d, hxp ▸ hd⟩

/-- A convoy in which the owner's call at `k` takes `o` off the window. It is `c₀` when the lock is
let go; then the line is served, which leaves the pool as `s`. -/
structure Decided (w w' : World) (p : PoolId) (calls : List BoardingCall) (k : Nat)
    (o : Option UnitId) (c₀ : Convoy) (s : Site) (results : List CallResult) : Prop where
  contested : ∃ s₀ π first, c₀.Contested (w.asks p calls) k o s₀.deque π ∧ c₀.Sound s₀ π first
  size : c₀.passages.size = calls.length
  low : s.deque.tail = s.deque.head
  settled : ∃ e c, w.Convoyed w' p e c s calls results ∧
    ∀ (i : Nat) y, c₀.passages[i]? = some y →
      c.passages[i]? = some (y.settled (Convoy.awards c₀.line o i))

theorem Sound.gather_uncontested (h : w.Sound none none) (hready : ∀ bc ∈ calls, w.Ready bc)
    (hl : w.Live p d) (hk : k ≤ calls.length) : ∃ c v e π,
      boardAll p .empty (w.boundless.put (w.boundless.site d).held) (calls.take k) = .ok (c, v) ∧
      w.boundless.Boarding v p e c π ∧ c.passages.size = k ∧
      (π = .none → c.Uncontested (w.asks p calls) e) := by
  have hready' : ∀ bc ∈ calls, w.boundless.Ready bc := hready
  obtain ⟨c, v, e, π, hrun, hb, hsize, hp⟩ := (h.boundless.boarding hl).boardAll
    (Boarding.uncontested_before hready' k) (fun _ => .empty _ _) rfl
    fun x hx => hready x (List.mem_of_mem_take hx)
  refine ⟨c, v, e, π, hrun, hb, ?_, hp⟩
  rw [hsize]
  change 0 + (calls.take k).length = k
  rw [List.length_take, Nat.min_eq_left hk, Nat.zero_add]

theorem Sound.gather_contested (h : w.Sound none none) (hready : ∀ bc ∈ calls, w.Ready bc)
    {before after : Site} (hl : w.Live p d) (hlow : w.Lowers p calls k call before after) :
    (call = .pop ∨ ∃ u, call = .remove .owner u) ∧ after.deque.tail = after.deque.head ∧
      ∃ c v e π,
        boardAll p .empty (w.boundless.put (w.boundless.site d).held) calls = .ok (c, v) ∧
        w.boundless.Boarding v p e c π ∧ c.passages.size = calls.length ∧
        c.Contested (w.asks p calls) k (after.deque.ring.cell after.deque.head) e π := by
  obtain ⟨hasks, ⟨c, v, e, hgather, hv, rfl, hblocks⟩, ⟨ticket, ahead, stage, hstart⟩, hlt⟩ := hlow
  obtain ⟨bc, hbc, hr⟩ := exists_resolve_of_asks hasks
  obtain ⟨hk, hget⟩ := List.getElem?_eq_some_iff.1 hbc
  obtain ⟨_, _, _, π, hrun, hb, hsize, hp⟩ :=
    h.gather_uncontested hready hl (Nat.le_of_lt hk)
  rw [h.gather_eq hl, hrun] at hgather
  cases hgather
  obtain rfl := hv.unique hb.live
  subst hsize
  have hres : v.resolve bc = some (p, call) := (resolve_congr hb.handles bc).trans hr
  have hready' : ∀ bc ∈ calls, w.boundless.Ready bc := hready
  have hbcready := hready' bc (List.mem_of_getElem? hbc)
  have hc := hb.admissible hbcready hres
  obtain ⟨c', v', e', π', hstep, hb', hboards⟩ := hb.boards hbcready
  cases hboards with
  | bar hbar =>
    rw [hbar p call hres] at hblocks
    cases hblocks
  | beside hres' hother =>
    cases hres.symm.trans hres'
    exact absurd rfl hother
  | @own call' flight s π' hres' _ hrun' hcomes =>
    cases hres.symm.trans hres'
    cases hstart.symm.trans hrun'
    obtain ⟨hcall, hlow, hcontested⟩ := hb.lower hc hasks hblocks hp hstart hcomes hlt
    refine ⟨hcall, hlow, ?_⟩
    obtain ⟨c₂, v₂, e₂, π₂, hrest, hb₂, hsize₂, hp₂⟩ := hb'.boardAll
      (Boarding.contested_after hready' _ _) hcontested rfl
      fun x hx => hready x (List.mem_of_mem_drop hx)
    rw [size_boarded] at hrest hsize₂
    refine ⟨c₂, v₂, e₂, π₂, ?_, hb₂, ?_, hp₂⟩
    · have hsplit : calls =
          calls.take c.passages.size ++ bc :: calls.drop (c.passages.size + 1) := by
        rw [← hget, ← List.drop_eq_getElem_cons hk, List.take_append_drop]
      rw [hsplit, boardAll_append, hrun, ok_bind, hstep, hrest]
    · rw [hsize₂, List.length_drop]
      omega

theorem Sound.convoy_decided (h : w.Sound none none) (hready : ∀ bc ∈ calls, w.Ready bc)
    {before after : Site} (hlow : w.Lowers p calls k call before after) :
    (call = .pop ∨ ∃ u, call = .remove .owner u) ∧ after.deque.tail = after.deque.head ∧
      ∃ w' c₀ s results,
        w.Decided w' p calls k (after.deque.ring.cell after.deque.head) c₀ s results := by
  obtain ⟨d, hl⟩ := h.live_of_asks hlow.asks
  obtain ⟨hcall, htail, c₀, v, e, π, hrun, hb, hsize, hcontested⟩ :=
    h.gather_contested hready hl hlow
  refine ⟨hcall, htail, ?_⟩
  -- the convoy that comes to its end is the one that was gathered
  obtain ⟨w', e', c, s, results, hconvoy⟩ := h.exists_convoyed hl hready
  obtain ⟨d', c₀', π', hl', hrun', -, hfinish⟩ := hconvoy.boarded
  obtain rfl := hl.unique hl'
  cases hrun'.symm.trans hrun
  obtain rfl := hconvoy.live.unique hb.live
  obtain ⟨c', s', hfinish', hlow, hpassages⟩ := hcontested.finish hb.convoy rfl
  cases hfinish.symm.trans hfinish'
  exact ⟨v, c₀, s, results, ⟨v.site e', π, _, hcontested, hb.convoy⟩, hsize, hlow,
    e', c, hconvoy, hpassages⟩

end Gathering

/-- The call at `j` gets `u`, for which the owner's call at `k` has come down to the last slot. Of
the convoy's calls on the pool `asked` tells. -/
structure Wins (asked : Nat → Option Call) (k : Nat) (u : UnitId) (results : List CallResult)
    (j : Nat) : Prop where
  gets : ∃ n : NamedUnit, results[j]? = some (.made (.unit (some n)) true) ∧ n.id = u
  place : j = k ∨ j < k ∧ ∃ side, asked j = some (.remove side u)
  first : ∀ i side got, i < j → asked i = some (.remove side u) →
    results[i]? ≠ some (.made got true)
  /-- A call on another pool may have got the unit before it came here. -/
  alone : ∀ i (n : NamedUnit) queued, results[i]? = some (.made (.unit (some n)) queued) →
    n.id = u → i = j ∨ i < k ∧ asked i = none
  others : ∀ i call, i ≠ j → asked i = some call →
    (i = k ∨ ∃ side, call = .remove side u) →
    call.isOwner = true ∧ results[i]? = some .refused ∨
      ∃ queued, results[i]? = some (.made (.unit none) queued)

/-- How the contest for the last slot ends that the call at `k` has taken off the window with `o` in
it. The unit goes to the first removal of it that waits before the owner, or else to the owner. -/
structure Awarded (asked : Nat → Option Call) (k : Nat) (o : Option UnitId)
    (results : List CallResult) : Prop where
  steals : ∀ i, asked i = some .steal → ∃ queued, results[i]? = some (.made (.unit none) queued)
  after : ∀ i call, k < i → asked i = some call →
    results[i]? = some (if call.isOwner then .refused else .made (.unit none) false)
  hole : o = none → results[k]? = some (.made (.unit none) true)
  unit : ∀ u, o = some u → ∃ j, Wins asked k u results j

theorem exists_name_of_gotOf {v : World} {u : UnitId} {got : Got}
    (h : v.gotOf (.taken u) = .ok got) : ∃ n : NamedUnit, got = .unit (some n) ∧ n.id = u := by
  rw [gotOf, name] at h
  cases he : v.units.lookup u with
  | error e =>
    rw [he] at h
    cases h
  | ok e =>
    rw [he] at h
    cases h
    exact ⟨_, rfl, rfl⟩

theorem reply_of_gotOf {v : World} {r : Reply} {n : NamedUnit}
    (h : v.gotOf r = .ok (.unit (some n))) : r = .taken n.id := by
  cases r with
  | taken u =>
    obtain ⟨m, hm, rfl⟩ := exists_name_of_gotOf h
    cases hm
    rfl
  | stored | refused | missed => cases h

section Outcome

variable {w w' : World} {p : PoolId} {calls : List BoardingCall} {c₀ : Convoy} {s : Site}
  {results : List CallResult} {i k : Nat} {o : Option UnitId} {call : Call} {y : Passage}

theorem Decided.result (h : w.Decided w' p calls k o c₀ s results)
    (hy : c₀.passages[i]? = some y) : ∃ r, results[i]? = some r ∧
      (w'.put s).resultOf (y.settled (Convoy.awards c₀.line o i)) = .ok r := by
  obtain ⟨e, c, hconvoy, hpassages⟩ := h.settled
  exact hconvoy.result (hpassages i y hy)

theorem Decided.passage (h : w.Decided w' p calls k o c₀ s results) {r : CallResult}
    (hr : results[i]? = some r) : ∃ y, c₀.passages[i]? = some y ∧
      (w'.put s).resultOf (y.settled (Convoy.awards c₀.line o i)) = .ok r := by
  obtain ⟨e, c, hconvoy, hpassages⟩ := h.settled
  obtain ⟨x, hx, hof⟩ := hconvoy.passage hr
  have hlt : i < c₀.passages.size := by
    rw [h.size, ← hconvoy.size]
    exact (Array.getElem?_eq_some_iff.1 hx).1
  have hy : c₀.passages[i]? = some c₀.passages[i] := Array.getElem?_eq_getElem hlt
  refine ⟨_, hy, ?_⟩
  rw [Option.some.inj (hx.symm.trans (hpassages i _ hy))] at hof
  exact hof

theorem Decided.exists_passage (h : w.Decided w' p calls k o c₀ s results)
    (hcall : w.asks p calls i = some call) : ∃ y, c₀.passages[i]? = some y := by
  obtain ⟨bc, hbc, -⟩ := exists_resolve_of_asks hcall
  have hlt : i < c₀.passages.size := by
    rw [h.size]
    exact (List.getElem?_eq_some_iff.1 hbc).1
  exact ⟨_, Array.getElem?_eq_getElem hlt⟩

theorem Decided.refused (h : w.Decided w' p calls k o c₀ s results)
    (hy : c₀.passages[i]? = some .barred) : results[i]? = some .refused := by
  obtain ⟨r, hr, hof⟩ := h.result hy
  cases hof
  exact hr

theorem Decided.missed (h : w.Decided w' p calls k o c₀ s results)
    (hy : c₀.passages[i]? = some (.direct .missed)) :
    results[i]? = some (.made (.unit none) false) := by
  obtain ⟨r, hr, hof⟩ := h.result hy
  cases hof
  exact hr

theorem Decided.missed_queued (h : w.Decided w' p calls k o c₀ s results)
    (hy : c₀.passages[i]? = some (.queued none))
    (haward : Convoy.awards c₀.line o i = .missed) :
    results[i]? = some (.made (.unit none) true) := by
  obtain ⟨r, hr, hof⟩ := h.result hy
  rw [haward] at hof
  cases hof
  exact hr

theorem Decided.taken (h : w.Decided w' p calls k o c₀ s results) {u : UnitId}
    (hy : c₀.passages[i]? = some (.queued none))
    (haward : Convoy.awards c₀.line o i = .taken u) :
    ∃ n : NamedUnit, results[i]? = some (.made (.unit (some n)) true) ∧ n.id = u := by
  obtain ⟨r, hr, hof⟩ := h.result hy
  rw [haward] at hof
  obtain ⟨got, hgot, rfl⟩ := exists_got_of_made hof
  obtain ⟨n, rfl, hn⟩ := exists_name_of_gotOf hgot
  exact ⟨n, hr, hn⟩

theorem Decided.steal_misses (h : w.Decided w' p calls k o c₀ s results)
    (hcall : w.asks p calls i = some .steal) :
    ∃ queued, results[i]? = some (.made (.unit none) queued) := by
  obtain ⟨s₀, π, first, hcontested, hsound⟩ := h.contested
  obtain ⟨y, hy⟩ := h.exists_passage hcall
  cases y with
  | barred => cases hcontested.barred i _ hy hcall
  | direct r =>
    obtain rfl := hcontested.foreign i r _ hy hcall rfl
    exact ⟨false, h.missed hy⟩
  | queued r =>
    cases r with
    | some r => exact absurd hy (hcontested.unsettled i r)
    | none =>
      refine ⟨true, h.missed_queued hy (Convoy.awards_of_spurns ?_ o)⟩
      rintro x hx rfl u
      rw [Option.some.inj ((hcontested.seats x hx).symm.trans hcall)]
      rfl

theorem Decided.owner_queued (h : w.Decided w' p calls k o c₀ s results) :
    c₀.passages[k]? = some (.queued none) := by
  obtain ⟨s₀, π, first, hcontested, hsound⟩ := h.contested
  obtain ⟨y, hy, rfl, -⟩ := hcontested.last
  exact (hsound.waiting _).2 ⟨y, List.mem_of_getLast? hy, rfl⟩

theorem Decided.after_misses (h : w.Decided w' p calls k o c₀ s results) (hi : k < i)
    (hcall : w.asks p calls i = some call) :
    results[i]? = some (if call.isOwner then .refused else .made (.unit none) false) := by
  obtain ⟨s₀, π, first, hcontested, hsound⟩ := h.contested
  obtain ⟨y, hy⟩ := h.exists_passage hcall
  obtain rfl := hcontested.after i y call hi hy hcall
  cases howner : call.isOwner with
  | true =>
    rw [howner] at hy
    exact h.refused hy
  | false =>
    rw [howner] at hy
    exact h.missed hy

section Unit

variable {u : UnitId} {j : Nat} (h : w.Decided w' p calls k (some u) c₀ s results)

include h

theorem Decided.queued_of_queued {got : Got} (hmade : results[i]? = some (.made got true)) :
    c₀.passages[i]? = some (.queued none) := by
  obtain ⟨s₀, π, first, hcontested, hsound⟩ := h.contested
  obtain ⟨y, hy, hof⟩ := h.passage hmade
  cases y with
  | barred => cases hof
  | direct r =>
    obtain ⟨got', -, hgot'⟩ := exists_got_of_made hof
    cases hgot'
  | queued r =>
    cases r with
    | some r => exact absurd hy (hcontested.unsettled i r)
    | none => exact hy

theorem Decided.eq_of_gets (hrest : ∀ i, i ≠ j → Convoy.awards c₀.line (some u) i = .missed)
    {n : NamedUnit} {queued : Bool}
    (hmade : results[i]? = some (.made (.unit (some n)) queued)) (hn : n.id = u) :
    i = j ∨ i < k ∧ w.asks p calls i = none := by
  obtain ⟨s₀, π, first, hcontested, hsound⟩ := h.contested
  obtain ⟨y, hy, hof⟩ := h.passage hmade
  cases y with
  | barred => cases hof
  | direct r =>
    obtain ⟨got, hgot, hmade'⟩ := exists_got_of_made hof
    cases hmade'
    obtain rfl := (reply_of_gotOf hgot).trans (congrArg Reply.taken hn)
    refine .inr ⟨?_, Option.eq_none_iff_forall_ne_some.2 fun call hcall => ?_⟩
    · rcases Nat.lt_trichotomy i k with hik | rfl | hik
      · exact hik
      · cases hy.symm.trans h.owner_queued
      · exact absurd rfl (hcontested.elsewhere i u hik hy)
    · exact hcontested.taken i u call hy hcall hcontested.holds
  | queued r =>
    cases r with
    | some r => exact absurd hy (hcontested.unsettled i r)
    | none =>
      refine .inl (by_contra fun hij => ?_)
      rw [h.missed_queued hy (hrest i hij)] at hmade
      cases hmade

theorem Decided.gets_nothing (haward : Convoy.awards c₀.line (some u) i = .missed)
    (hcall : w.asks p calls i = some call) (hwants : i = k ∨ ∃ side, call = .remove side u) :
    call.isOwner = true ∧ results[i]? = some .refused ∨
      ∃ queued, results[i]? = some (.made (.unit none) queued) := by
  obtain ⟨s₀, π, first, hcontested, hsound⟩ := h.contested
  obtain ⟨y, hy⟩ := h.exists_passage hcall
  cases y with
  | barred => exact .inl ⟨hcontested.barred i call hy hcall, h.refused hy⟩
  | direct r =>
    refine .inr ⟨false, h.missed ?_⟩
    rcases hwants with rfl | ⟨side, rfl⟩
    · cases hy.symm.trans h.owner_queued
    · rcases hcontested.removes i r side u hy hcall with rfl | rfl
      · exact hy
      · exact absurd hcontested.holds (hcontested.taken i u _ hy hcall)
  | queued r =>
    cases r with
    | some r => exact absurd hy (hcontested.unsettled i r)
    | none => exact .inr ⟨true, h.missed_queued hy haward⟩

theorem Decided.exists_wins : ∃ j, Wins (w.asks p calls) k u results j := by
  obtain ⟨s₀, π, first, hcontested, hsound⟩ := h.contested
  obtain ⟨j, hj, haward, hplace, hfirst, hrest⟩ := hcontested.exists_winner hsound
  exact ⟨j,
    { gets := h.taken hj haward
      place := hplace
      first := fun i side got hi hcall hmade => hfirst i side hi hcall (h.queued_of_queued hmade)
      alone := fun i n queued hmade hn => h.eq_of_gets hrest hmade hn
      others := fun i call hij hcall hwants => h.gets_nothing (hrest i hij) hcall hwants }⟩

end Unit

theorem Decided.awarded (h : w.Decided w' p calls k o c₀ s results) :
    Awarded (w.asks p calls) k o results where
  steals _ hcall := h.steal_misses hcall
  after _ _ hi hcall := h.after_misses hi hcall
  hole := by
    rintro rfl
    exact h.missed_queued h.owner_queued (Convoy.awards_none _ _)
  unit := by
    rintro u rfl
    exact h.exists_wins

theorem Decided.emptied (h : w.Decided w' p calls k o c₀ s results) : ∃ v d,
    w.convoy p calls = .ok (results, v) ∧ v.Live p d ∧ d.head = d.tail ∧ d.length = 0 := by
  obtain ⟨e, c, hconvoy, -⟩ := h.settled
  have hlive := (live_put hconvoy.live (hconvoy.frame.id.trans hconvoy.live.2)).2 (.inl ⟨rfl, rfl⟩)
  exact ⟨_, s.deque, hconvoy.run, hlive, h.low.symm, Nat.sub_eq_zero_of_le (Nat.le_of_eq h.low)⟩

end Outcome

section Run

variable {telemetry hooks : Bool} {ops : List Op} {reports : List StepReport} {w : World}
  {p : PoolId} {calls : List BoardingCall} {k : Nat} {call : Call} {before after : Site}

/-- After any session, a convoy in which an owner call lowers the tail and waits ends with an empty
pool. The call came down to the head slot. No steal gets a unit; the one in the slot goes to the
first removal of it that waits before the owner, or else to the owner. -/
theorem convoy_last_slot (hrun : (start telemetry hooks).run ops = .ok (reports, w))
    (hready : ∀ bc ∈ calls, w.Ready bc) (hlow : w.Lowers p calls k call before after) :
    (call = .pop ∨ ∃ u, call = .remove .owner u) ∧ after.deque.tail = after.deque.head ∧
      ∃ results w' d, w.convoy p calls = .ok (results, w') ∧ w'.Live p d ∧ d.head = d.tail ∧
        d.length = 0 ∧
        Awarded (w.asks p calls) k (after.deque.ring.cell after.deque.tail) results := by
  obtain ⟨hcall, hlow, w', c₀, s, results, hdecided⟩ :=
    (sound_of_run hrun).convoy_decided hready hlow
  obtain ⟨v, d, hconvoy, hlive, hempty, hlength⟩ := hdecided.emptied
  rw [hlow]
  exact ⟨hcall, rfl, results, v, d, hconvoy, hlive, hempty, hlength, hdecided.awarded⟩

theorem exists_ok_of_any {α : Type} {x : Checked α} {f : α → Bool}
    (h : x.toOption.any f = true) : ∃ a, x = .ok a ∧ f a = true := by
  cases x with
  | error e => cases h
  | ok a => exact ⟨a, rfl, h⟩

/-- The owner pops twice, past a thief and two who want the first of its two tasks. -/
def ambush : List BoardingCall :=
  [.steal 1, .remove 1 ⟨0⟩, .remove 1 ⟨0⟩, .pop 0, .pop 0, .steal 1, .remove 1 ⟨0⟩]

theorem convoy_last_slot_ambush : ∃ reports w before after,
    (start true true).run openLoaded = .ok (reports, w) ∧ (∀ bc ∈ ambush, w.Ready bc) ∧
      w.Lowers (.ofIndex 0) ambush 4 .pop before after ∧
      after.deque.ring.cell after.deque.tail = some ⟨0⟩ ∧
      ∃ results w' d, w.convoy (.ofIndex 0) ambush = .ok (results, w') ∧
        w'.Live (.ofIndex 0) d ∧ d.head = d.tail ∧ d.length = 0 ∧
        Awarded (w.asks (.ofIndex 0) ambush) 4 (some ⟨0⟩) results := by
  obtain ⟨reports, w, hrun, -⟩ := (sound_start true true).run openLoaded
  have hshown : ((start true true).run openLoaded).toOption.any (fun o =>
      ambush.all o.2.knows && decide (o.2.asks (.ofIndex 0) ambush 4 = some .pop) &&
        (o.2.gather (.ofIndex 0) (ambush.take 4)).toOption.any fun g =>
          (g.2.live? (.ofIndex 0)).any fun d => !g.1.blocks .pop &&
            (Call.pop.start (g.2.site d)).toOption.any fun x => decide (x.1.pledge = .slot) &&
              decide (x.2.deque.tail < d.tail) &&
              decide (x.2.deque.ring.cell x.2.deque.tail = some ⟨0⟩)) = true := by
    decide +kernel
  obtain ⟨_, hrun', hshown⟩ := exists_ok_of_any hshown
  cases hrun.symm.trans hrun'
  simp only [Bool.and_eq_true, decide_eq_true_eq] at hshown
  obtain ⟨⟨hknows, hasks⟩, hgather⟩ := hshown
  obtain ⟨⟨c, v⟩, hg, hgathered⟩ := exists_ok_of_any hgather
  obtain ⟨d, hd, hdeque⟩ := (Option.any_eq_true ..).1 hgathered
  simp only [Bool.and_eq_true, Bool.not_eq_true'] at hdeque
  obtain ⟨hfree, hstart⟩ := hdeque
  obtain ⟨⟨flight, s⟩, hs, hlowered⟩ := exists_ok_of_any hstart
  simp only [Bool.and_eq_true, decide_eq_true_eq] at hlowered
  obtain ⟨⟨hpledge, hlt⟩, hcell⟩ := hlowered
  have hready : ∀ bc ∈ ambush, w.Ready bc := fun bc hbc =>
    ready_of_knows (List.all_eq_true.1 hknows bc hbc)
  have hlow : w.Lowers (.ofIndex 0) ambush 4 .pop (v.site d) s := by
    refine ⟨hasks, ⟨c, v, d, hg, live?_eq_some.1 hd, rfl, hfree⟩, ?_, hlt⟩
    cases flight with
    | landed r => cases hpledge
    | waiting ticket ahead stage => exact ⟨ticket, ahead, stage, hs⟩
  obtain ⟨-, -, results, w', e, hconvoy, hlive, hempty, hlength, hawarded⟩ :=
    convoy_last_slot hrun hready hlow
  rw [hcell] at hawarded
  exact ⟨reports, w, v.site d, s, hrun, hready, hlow, hcell, results, w', e, hconvoy, hlive,
    hempty, hlength, hawarded⟩

end Run

end World

end WorkStealing
