import WorkStealing.Proofs.Session.Chronicle

set_option autoImplicit false

/-!
# What a convoy tells

The calls of a convoy end in another order than they were started in, and some of them on other
pools. Each is counted when it lands, so that in the end the results of the convoy, taken in the
order of the calls, tell what was counted.
-/
namespace WorkStealing

def Passage.good? (x : Passage) : Option Bool := x.reply?.map Reply.good

namespace Convoy

def goods (c : Convoy) : List (Option Bool) := c.passages.toList.map Passage.good?

theorem length_goods (c : Convoy) : c.goods.length = c.passages.size := by
  rw [goods, List.length_map, Array.length_toList]

theorem goods_settle (c : Convoy) (seat : Nat) (r : Reply) :
    (c.settle seat r).goods = c.goods.set seat (some r.good) := by
  apply List.ext_getElem?
  intro i
  rw [goods, goods, settle, List.getElem?_map, Array.getElem?_toList, Array.getElem?_modify,
    List.getElem?_set, List.length_map, Array.length_toList, List.getElem?_map,
    Array.getElem?_toList]
  split
  · rename_i hi
    subst hi
    split
    · rename_i hlt
      rw [Array.getElem?_eq_getElem hlt]
      rfl
    · rename_i hlt
      rw [Array.getElem?_eq_none (Nat.le_of_not_lt hlt)]
      rfl
  · rfl

end Convoy

namespace World

section Heard

variable {w : World} {calls : List BoardingCall} {goods : List (Option Bool)} {bc : BoardingCall}
  {p : PoolId} {call : Call}

theorem heard_nil (w : World) (calls : List BoardingCall) : w.heard calls [] = [] := by
  cases calls <;> rfl

theorem heard_congr {w' : World} (h : w'.handles = w.handles) :
    w'.heard calls goods = w.heard calls goods := by
  induction calls generalizing goods with
  | nil => rfl
  | cons bc calls ih =>
    cases goods with
    | nil => rfl
    | cons good? goods => simp only [heard, heardOf, resolve_congr h, ih]

theorem zeroed_not_mem_heard (w : World) (calls : List BoardingCall) (goods : List (Option Bool))
    (p : PoolId) : .zeroed p ∉ w.heard calls goods := by
  induction calls generalizing goods with
  | nil => exact List.not_mem_nil
  | cons bc calls ih =>
    cases goods with
    | nil => exact List.not_mem_nil
    | cons good? goods =>
      rw [heard, List.mem_append, not_or]
      refine ⟨?_, ih goods⟩
      unfold heardOf
      split <;> simp

theorem heardOf_none (w : World) (bc : BoardingCall) : w.heardOf bc none = [] := by
  unfold heardOf
  cases w.resolve bc <;> rfl

theorem heardOf_some (hres : w.resolve bc = some (p, call)) (good : Bool) :
    w.heardOf bc (some good) = [.made p call.kind good] := by
  simp only [heardOf, hres]

theorem heard_concat (hbc : calls[goods.length]? = some bc) (good? : Option Bool) :
    w.heard calls (goods ++ [good?]) = w.heard calls goods ++ w.heardOf bc good? := by
  induction goods generalizing calls with
  | nil =>
    cases calls with
    | nil => cases hbc
    | cons bc' calls =>
      cases hbc
      rw [List.nil_append, heard, heard_nil, heard_nil, List.append_nil, List.nil_append]
  | cons good goods ih =>
    cases calls with
    | nil => cases hbc
    | cons bc' calls => rw [List.cons_append, heard, heard, ih hbc, List.append_assoc]

theorem heard_set {i : Nat} (hbc : calls[i]? = some bc) (hgood : goods[i]? = some none)
    (good? : Option Bool) :
    (w.heard calls (goods.set i good?)).Perm (w.heard calls goods ++ w.heardOf bc good?) := by
  induction goods generalizing calls i with
  | nil => cases hgood
  | cons good goods ih =>
    cases calls with
    | nil => cases hbc
    | cons bc' calls =>
      cases i with
      | zero =>
        cases hbc
        cases hgood
        rw [List.set_cons_zero, heard, heard, heardOf_none, List.nil_append]
        exact List.perm_append_comm
      | succ i =>
        have hbc' : calls[i]? = some bc := hbc
        have hgood' : goods[i]? = some none := hgood
        rw [List.set_cons_succ, heard, heard, List.append_assoc]
        exact (ih hbc' hgood').append_left _

theorem heard_push {c : Convoy} (hbc : calls[c.passages.size]? = some bc) (line : List Waiter)
    (x : Passage) : w.heard calls { c with line, passages := c.passages.push x }.goods =
      w.heard calls c.goods ++ w.heardOf bc x.good? := by
  rw [← c.length_goods] at hbc
  rw [← heard_concat hbc, Convoy.goods, Array.toList_push, List.map_append]
  rfl

end Heard

/-- The calls of a convoy on `p`, which started in `w`, have led to `v`. What they did so far was
heard, and those in line are among them. -/
structure Told (w : World) (p : PoolId) (calls : List BoardingCall) (v : World) (c : Convoy)
    (π : Pledge) : Prop where
  chronicled : w.Chronicled (.convoy p :: w.heard calls c.goods) v (Function.update atRest p π)
  asked : ∀ x ∈ c.line, ∃ bc, calls[x.seat]? = some bc ∧ w.resolve bc = some (p, x.call)

section Told

variable {w v : World} {p q : PoolId} {d : Deque} {calls : List BoardingCall} {c : Convoy}
  {π π' : Pledge} {bc : BoardingCall} {call : Call} {flight : Flight} {s : Site}

theorem Told.put (h : w.Told p calls v c π) (htel : w.telemetry = true) (hl : v.Live p d)
    {stage : Option LockedStage} {budget : Nat}
    (hcomes : (v.site d).Comes π call stage budget flight s π')
    (hworks : (v.site d).Works (flight.tally? call) s) :
    w.Chronicled (.convoy p :: (w.heard calls c.goods ++ flight.notices p call)) (v.put s)
      (Function.update atRest p π') := by
  have hnotices : ∀ n ∈ flight.notices p call, n.pool = p := by
    cases flight with
    | landed r => simp [Flight.notices, Notice.pool]
    | waiting => simp [Flight.notices]
  have hid : (v.site d).deque.id = p := hl.2
  have htells := hcomes.tells hworks (h.chronicled.telemetry.trans htel)
  rw [hid] at htells
  have hput := h.chronicled.put hl (hcomes.steps.frame.id.trans hl.2) hworks.telemetry hnotices
    fun _ => ⟨by rw [Function.update_self]; exact htells,
      fun hcon => absurd (List.mem_append_left _ List.mem_cons_self) hcon⟩
  rwa [Function.update_idem] at hput

theorem Told.bar (h : w.Told p calls v c π) (hbc : calls[c.passages.size]? = some bc) :
    w.Told p calls v c.bar π where
  chronicled := by
    have hheard : w.heard calls c.bar.goods = _ := heard_push hbc c.line .barred
    rw [hheard, show Passage.barred.good? = none from rfl, heardOf_none, List.append_nil]
    exact h.chronicled
  asked := h.asked

theorem Told.board (h : w.Told p calls v c π) (htel : w.telemetry = true) (hl : v.Live p d)
    (hbc : calls[c.passages.size]? = some bc) (hres : w.resolve bc = some (p, call))
    {stage : Option LockedStage} {budget : Nat}
    (hcomes : (v.site d).Comes π call stage budget flight s π')
    (hworks : (v.site d).Works (flight.tally? call) s) :
    w.Told p calls (v.put s) (c.boarded call flight) π' := by
  have hput := h.put htel hl hcomes hworks
  cases flight with
  | landed r =>
    refine ⟨?_, h.asked⟩
    have hheard : w.heard calls (c.boarded call (.landed r)).goods = _ :=
      heard_push hbc c.line (.direct r)
    rw [hheard, show (Passage.direct r).good? = some r.good from rfl, heardOf_some hres]
    exact hput
  | waiting ticket ahead locked =>
    refine ⟨?_, fun x hx => ?_⟩
    · have hheard : w.heard calls (c.boarded call (.waiting ticket ahead locked)).goods = _ :=
        heard_push hbc _ (.queued none)
      rw [hheard, show (Passage.queued none).good? = none from rfl, heardOf_none]
      exact hput
    · rcases List.mem_append.1 hx with hx | hx
      · exact h.asked x hx
      · obtain rfl := List.mem_singleton.1 hx
        exact ⟨bc, hbc, hres⟩

theorem Told.serve (h : w.Told p calls v c π) (htel : w.telemetry = true) (hl : v.Live p d)
    {first : Nat} {x : Waiter} {line : List Waiter} {budget : Nat}
    (hc : c.Sound (v.site d) π first) (hline : c.line = x :: line)
    (hcomes : (v.site d).Comes π x.call (some x.stage) budget flight s π')
    (hworks : (v.site d).Works (flight.tally? x.call) s) :
    w.Told p calls (v.put s) (c.served x line flight) π' := by
  have hput := h.put htel hl hcomes hworks
  have hx : x ∈ c.line := hline ▸ List.mem_cons_self
  have hrest : ∀ y ∈ line, y ∈ c.line := fun y hy => hline ▸ List.mem_cons_of_mem x hy
  obtain ⟨bc, hbc, hres⟩ := h.asked x hx
  cases flight with
  | landed r =>
    refine ⟨?_, fun y hy => h.asked y (hrest y hy)⟩
    have hpassage := (hc.waiting x.seat).2 ⟨x, hx, rfl⟩
    have hgood : c.goods[x.seat]? = some none := by
      rw [Convoy.goods, List.getElem?_map, Array.getElem?_toList, hpassage]
      rfl
    have hheard := heard_set (w := w) hbc hgood (some r.good)
    rw [heardOf_some hres] at hheard
    change w.Chronicled (.convoy p :: w.heard calls (c.settle x.seat r).goods) _ _
    rw [Convoy.goods_settle]
    exact hput.perm (hheard.symm.cons _)
  | waiting ticket ahead locked =>
    refine ⟨?_, fun y hy => ?_⟩
    · change w.Chronicled (.convoy p :: w.heard calls c.goods) _ _
      rwa [Flight.notices, List.append_nil] at hput
    · rcases List.mem_append.1 hy with hy | hy
      · exact h.asked y (hrest y hy)
      · obtain rfl := List.mem_singleton.1 hy
        exact ⟨bc, hbc, hres⟩

theorem Told.beside (h : w.Told p calls v c π) (htel : w.telemetry = true)
    (hv : v.Sound (some p) none) (hl : v.Live q d) (hq : q ≠ p)
    (hbc : calls[c.passages.size]? = some bc) (hres : w.resolve bc = some (q, call))
    (hc : call.Admissible v.units) {r : Reply} (hrun : v.perform q call = .ok (r, v.put s)) :
    w.Told p calls (v.put s) (c.pass r) π := by
  obtain ⟨r', s', hrun', -, -, -, hchronicled⟩ := h.chronicled.perform hv hl
    (fun heq => hq (Option.some.inj heq).symm) (Function.update_of_ne hq ..) hc
    (h.chronicled.telemetry.trans htel)
  obtain ⟨rfl, hput⟩ := Prod.mk.inj (Except.ok.inj (hrun'.symm.trans hrun))
  have hheard : w.heard calls (c.pass r').goods = _ := heard_push hbc c.line (.direct r')
  refine ⟨?_, h.asked⟩
  rw [← hput, hheard, show (Passage.direct r').good? = some r'.good from rfl, heardOf_some hres]
  exact hchronicled

end Told

section Convoys

variable {w : World} {p : PoolId} {d : Deque} {calls : List BoardingCall}

theorem put_put (w : World) {s s' : Site} (h : s'.deque.id = s.deque.id) :
    (w.put s).put s' = w.put s' := by
  simp only [put, h, Array.setIfInBounds_setIfInBounds]

theorem keeps_told (htel : w.telemetry = true) (hready : ∀ bc ∈ calls, w.Ready bc) :
    w.Keeps p calls fun v _ c π => w.Told p calls v c π where
  bar _ hbc _ hp := hp.bar hbc
  own h hbc hres _ hstart hcomes hp :=
    hp.board htel h.live hbc hres hcomes (Call.start_works _ _ _ hstart)
  beside h hbc hres hq hrun hp := by
    obtain ⟨x, hx, hxq⟩ := exists_handle_of_resolve hres
    obtain ⟨e, he⟩ := h.world.handle x (h.handles ▸ hx)
    have hc := h.admissible (hready _ (List.mem_of_getElem? hbc))
      ((resolve_congr h.handles _).trans hres)
    exact hp.beside htel h.world (hxq ▸ he) hq hbc hres hc hrun

theorem tells_relocked {s s' : Site} (π : Pledge) (htel : s'.telemetry = s.telemetry)
    (hlog : s'.log = s.log) (hmetrics : s'.deque.metrics = s.deque.metrics)
    (hcore : s'.core = s.core) : s.Tells π [] s' π :=
  (Site.Works.of_same htel hlog hmetrics).tells_none (congrArg (·.deque.id) hcore)
    (Site.backlog_of_core hcore π)

theorem told_start (w : World) (hl : w.Live p d) (calls : List BoardingCall) :
    w.Told p calls (w.put (w.site d).held) .empty .none where
  chronicled := by
    have hheld : (w.site d).held.Tells .none [.convoy p] (w.site d).held .none :=
      .uncalled _ _ (by simp)
    have htells : (w.site d).Tells .none [] (w.site d).held .none :=
      tells_relocked .none rfl rfl rfl rfl
    have htells := htells.trans hheld
    have hput := (Chronicled.refl w).put hl hl.2 rfl (by simp [Notice.pool]) fun _ =>
      ⟨htells, fun _ => rfl⟩
    rw [show Convoy.empty.goods = [] from rfl, heard_nil]
    exact hput
  asked x hx := by cases hx

theorem gotOf_good (w : World) (r : Reply) : Ensures (w.gotOf r) fun got => got.good = r.good := by
  cases r with
  | taken u => exact .bind (.trivial _) fun _ _ => .ok rfl
  | stored | refused | missed => exact .ok rfl

theorem resultOf_good (w : World) (x : Passage) :
    Ensures (w.resultOf x) fun r => r.good? = x.good? := by
  cases x with
  | barred => exact .ok rfl
  | direct r => exact .bind (w.gotOf_good r) fun got hgot => .ok (congrArg some hgot)
  | queued r =>
    cases r with
    | none => exact .error _ _
    | some r => exact .bind (w.gotOf_good r) fun got hgot => .ok (congrArg some hgot)

theorem Convoyed.goods_eq {w' : World} {e : Deque} {c : Convoy} {s : Site}
    {results : List CallResult} (h : w.Convoyed w' p e c s calls results) :
    results.map CallResult.good? = c.goods := by
  have hforall : List.Forall₂ (fun r x => r = x) (results.map CallResult.good?) c.goods :=
    List.forall₂_map_left_iff.2 (List.forall₂_map_right_iff.2
      (h.results.flip.imp fun r x hr => (w'.put s).resultOf_good x r hr))
  exact List.forall₂_eq_eq_eq ▸ hforall

theorem Told.released {v : World} {c : Convoy} {π : Pledge} (h : w.Told p calls v c π)
    (hl : v.Live p d) : w.Told p calls (v.put (v.site d).released) c π where
  chronicled := by
    have htells : (v.site d).Tells (Function.update atRest p π p) [] (v.site d).released
        (Function.update atRest p π p) := tells_relocked _ rfl rfl rfl rfl
    have hput := h.chronicled.put hl hl.2 rfl (by simp) fun _ => ⟨htells, fun _ => rfl⟩
    rwa [Function.update_eq_self, List.append_nil] at hput
  asked := h.asked

/-- A convoy tells of each of its calls, and of the lock at which they met. -/
theorem Sound.convoy_chronicled (h : w.Sound none none) (htel : w.telemetry = true)
    (hl : w.Live p d) (hready : ∀ bc ∈ calls, w.Ready bc) :
    Ensures (w.convoy p calls) fun o =>
      w.Chronicled (.convoy p :: w.heard calls (o.1.map CallResult.good?)) o.2 atRest := by
  let Q := fun (v : World) (e : Deque) (c : Convoy) (s : Site) (π : Pledge) =>
    v.Live p e ∧ s.deque.id = p ∧ w.boundless.Told p calls (v.put s) c π
  have hturn : ∀ {v e} {c : Convoy} {s : Site} {π : Pledge} {first : Nat} {x : Waiter}
      {line : List Waiter} {budget : Nat} {flight : Flight} {s' : Site} {π' : Pledge},
      c.Sound s π first → c.line = x :: line →
      x.call.turn x.ticket x.ahead x.stage s = .ok (flight, s') →
      s.Comes π x.call (some x.stage) budget flight s' π' → Q v e c s π →
      Q v e (c.served x line flight) s' π' := by
    rintro v e c s π first x line budget flight s' π' hc hline hrun hcomes ⟨hlive, hid, htold⟩
    have hput : (v.put s).Live p s.deque := (live_put hlive hid).2 (.inl ⟨rfl, rfl⟩)
    have hserved := htold.serve htel hput hc hline hcomes (Call.turn_works _ _ _ _ _ _ hrun)
    rw [put_put v hcomes.steps.frame.id] at hserved
    exact ⟨hlive, hcomes.steps.frame.id.trans hid, hserved⟩
  obtain ⟨v, e, c, s, results, hc, -, -, htold⟩ := h.convoy (Q := Q) hl hready
    (keeps_told (w := w.boundless) htel hready) (told_start w.boundless hl calls)
    (fun hb htold => ⟨hb.live, hb.live.2, htold.released hb.live⟩) hturn
  rw [hc.run]
  refine .ok ?_
  rw [hc.goods_eq]
  have hrest := htold.chronicled
  rw [show Pledge.none = atRest p from rfl, Function.update_eq_self,
    heard_congr (show w.boundless.handles = w.handles from rfl)] at hrest
  have hlimit : w.boundless.Chronicled (.convoy p :: w.heard calls c.goods)
      { v.put s with limit := w.limit } atRest := hrest.of_pools rfl fun _ _ he => he
  exact hlimit.of_start rfl rfl

end Convoys

end World

end WorkStealing
