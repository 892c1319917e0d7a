import WorkStealing.Proofs.Convoy.Line
import WorkStealing.Proofs.Session.Backlogs
import WorkStealing.Proofs.Session.Handles
import WorkStealing.Session

set_option autoImplicit false

/-!
# Convoys in a world

A convoy holds the lock of one pool while its calls start. A call on another pool finds that pool's
lock free and runs to its end at once. When the line is served the world is in order again.
-/
namespace WorkStealing

namespace Site

theorem Stands.elsewhere {k k' : Context} {d : Deque} {p : PoolId} {π : Pledge}
    (h : (⟨k, d⟩ : Site).Stands π) (hf : UnitTable.Frame p k.units k'.units)
    (hc : k'.units.Counted) (hp : d.id ≠ p) : (⟨k', d⟩ : Site).Stands π := by
  refine ⟨?_, h.lowered⟩
  cases π with
  | none | unit => exact Sound.elsewhere h.sound hf hc hp
  | slot => exact Sound.elsewhere (d := { d with tail := d.tail + 1 }) h.sound hf hc hp

theorem Awaits.of_deque {s s' : Site} {call : Call} {stage : LockedStage}
    (h : s.Awaits call stage) (hd : s'.deque = s.deque) : s'.Awaits call stage := by
  obtain ⟨k, d⟩ := s'
  obtain rfl : d = s.deque := hd
  cases h with
  | rebase u ht => exact .rebase u ht
  | store u ht => exact .store u ht
  | pop => exact .pop
  | removeLast u hc => exact .removeLast u hc
  | steal => exact .steal
  | extract side u i g hg ho => exact .extract side u i g hg ho

end Site

theorem Convoy.Lined.elsewhere {k k' : Context} {d : Deque} {p : PoolId} {π : Pledge}
    {line : List Waiter} (h : Lined ⟨k, d⟩ π line) (hf : UnitTable.Frame p k.units k'.units)
    (hc : k'.units.Counted) (hp : d.id ≠ p) : Lined ⟨k', d⟩ π line where
  stands := h.stands.elsewhere hf hc hp
  awaits w hw := (h.awaits w hw).of_deque rfl
  pledge := h.pledge
  idle := h.idle
  alone := h.alone

namespace World

def Ready (w : World) (bc : BoardingCall) : Prop :=
  ∀ q call, w.resolve bc = some (q, call) → call.Admissible w.units

/-- From `w₀` a world is reached in which a convoy stands at the lock of `p`. -/
structure Boarding (w₀ w : World) (p : PoolId) (d : Deque) (c : Convoy) (π : Pledge) : Prop where
  world : w.Sound (some p) none
  live : w.Live p d
  convoy : c.Sound (w.site d) π (d.foreign.nowServing + 1)
  handles : w.handles = w₀.handles
  registered : ∀ u, w.units.Registered u ↔ w₀.units.Registered u

section Boarding

variable {w₀ w : World} {p q : PoolId} {d : Deque} {c : Convoy} {π : Pledge} {call : Call}

theorem resolve_congr (h : w.handles = w₀.handles) (bc : BoardingCall) :
    w.resolve bc = w₀.resolve bc := by
  cases bc <;> simp only [resolve, owned?, stolen?, handle?, h]

theorem exists_handle_of_resolve {bc : BoardingCall} (h : w.resolve bc = some (q, call)) :
    ∃ x ∈ w.handles, x.2.pool = q := by
  cases bc with
  | steal n =>
    obtain ⟨p, hp, hq⟩ := Option.map_eq_some_iff.1 h
    cases hq
    exact ⟨_, mem_of_handle? (handle?_of_stolen? hp), rfl⟩
  | pop n =>
    obtain ⟨p, hp, hq⟩ := Option.map_eq_some_iff.1 h
    cases hq
    exact ⟨_, mem_of_handle? (handle?_of_owned? hp), rfl⟩
  | push n u =>
    obtain ⟨p, hp, hq⟩ := Option.map_eq_some_iff.1 h
    cases hq
    exact ⟨_, mem_of_handle? (handle?_of_owned? hp), rfl⟩
  | remove n u =>
    obtain ⟨k, hk, hq⟩ := Option.map_eq_some_iff.1 h
    cases hq
    exact ⟨_, mem_of_handle? hk, rfl⟩
  | unknown n => cases h

theorem put_site (h : w.Live p d) : w.put (w.site d) = w := by
  have hpools : w.pools.setIfInBounds d.id.index (some d) = w.pools := by
    apply Array.ext_getElem?
    intro i
    rw [Array.getElem?_setIfInBounds, h.2]
    split
    · rename_i hi
      rw [← hi, h.1, if_pos (Array.getElem?_eq_some_iff.1 h.1).1]
    · rfl
  exact congrArg (fun pools => { w with pools }) hpools

theorem Boarding.put (h : Boarding w₀ w p d c π) {s : Site} {c' : Convoy} {π' : Pledge}
    (hf : (w.site d).Frame s) (hc : c'.Sound s π' (s.deque.foreign.nowServing + 1)) :
    Boarding w₀ (w.put s) p s.deque c' π' where
  world := h.world.put h.live hf hc.lined.stands.counted (fun hp => absurd rfl hp) fun _ _ hq => hq
  live := (live_put h.live (hf.id.trans h.live.2)).2 (.inl ⟨rfl, rfl⟩)
  convoy := hc
  handles := h.handles
  registered u := hf.units.registered.trans (h.registered u)

theorem Boarding.bar (h : Boarding w₀ w p d c π) : Boarding w₀ w p d c.bar π :=
  ⟨h.world, h.live, h.convoy.bar, h.handles, h.registered⟩

theorem Boarding.admissible (h : Boarding w₀ w p d c π) {bc : BoardingCall} (hr : w₀.Ready bc)
    (hres : w.resolve bc = some (q, call)) : call.Admissible w.units := fun u hu =>
  (h.registered u).2 (hr q call (resolve_congr h.handles bc ▸ hres) u hu)

theorem Boarding.board (h : Boarding w₀ w p d c π) (hblocks : c.blocks call = false)
    (hc : call.Admissible w.units) :
    ∃ flight s π', w.visit p (c.board call) = .ok (c.boarded call flight, w.put s) ∧
      call.start (w.site d) = .ok (flight, s) ∧
      (w.site d).Comes π call none (d.length + 3) flight s π' ∧
      Boarding w₀ (w.put s) p s.deque (c.boarded call flight) π' := by
  obtain ⟨flight, s, π', hrun, hstart, hcomes, hsound, hnow⟩ := h.convoy.board rfl hblocks hc
  refine ⟨flight, s, π', visit_eq h.live hrun (hcomes.steps.frame.id.trans h.live.2), hstart,
    hcomes, h.put hcomes.steps.frame ?_⟩
  rw [hnow]
  exact hsound

theorem Boarding.beside (h : Boarding w₀ w p d c π) {e : Deque} (hq : q ≠ p) (hl : w.Live q e)
    (hc : call.Admissible w.units) :
    ∃ r s, w.perform q call = .ok (r, w.put s) ∧ Boarding w₀ (w.put s) p d (c.pass r) π := by
  have hp : some p ≠ some q := fun heq => hq (Option.some.inj heq).symm
  obtain ⟨s, _, hrun, hsound, hframe, _⟩ := h.world.perform_beside hl hp hc
  have hunits : UnitTable.Frame q w.units s.units := hl.2 ▸ hframe.units
  refine ⟨_, s, hrun, hsound, (live_put hl (hframe.id.trans hl.2)).2 (.inr ⟨hq.symm, h.live⟩), ?_,
    h.handles, fun u => hunits.registered.trans (h.registered u)⟩
  have hlined : Convoy.Lined ((w.put s).site d) π c.line :=
    h.convoy.lined.elsewhere hunits hsound.counted (h.live.2 ▸ hq.symm)
  apply h.convoy.push_passage (by simp) hlined h.convoy.next (fun _ => hunits.knows)
  intro u hu
  have hmem := Site.mem_of_taken (h.world.site q e hl hp).1 (Option.some.inj hu)
  exact UnitTable.knows_of_holder? ((h.world.site q e hl hp).1.holder_of_mem hmem)

theorem size_boarded (c : Convoy) (call : Call) (flight : Flight) :
    (c.boarded call flight).passages.size = c.passages.size + 1 := by
  cases flight <;> exact Array.size_push ..

theorem size_served (c : Convoy) (x : Waiter) (line : List Waiter) (flight : Flight) :
    (c.served x line flight).passages.size = c.passages.size := by
  cases flight with
  | landed r => exact Array.size_modify
  | waiting => rfl

theorem boardAll_append (p : PoolId) (c : Convoy) (w : World) (calls calls' : List BoardingCall) :
    boardAll p c w (calls ++ calls') =
      boardAll p c w calls >>= fun o => boardAll p o.1 o.2 calls' := by
  induction calls generalizing c w with
  | nil => rfl
  | cons bc calls ih =>
    rw [List.cons_append, boardAll, boardAll]
    cases w.resolve bc with
    | none => exact ih c.bar w
    | some o =>
      obtain ⟨q, call⟩ := o
      dsimp only
      split
      · cases w.visit p (c.board call) with
        | error e => rfl
        | ok o => exact ih o.1 o.2
      · split
        · exact ih c.bar w
        · cases w.perform q call with
          | error e => rfl
          | ok o => exact ih (c.pass o.1) o.2

/-- What every call of the list `all` keeps while it is started. -/
structure Keeps (w₀ : World) (p : PoolId) (all : List BoardingCall)
    (P : World → Deque → Convoy → Pledge → Prop) : Prop where
  bar : ∀ {w d c π bc}, Boarding w₀ w p d c π → all[c.passages.size]? = some bc →
    (∀ q call, w₀.resolve bc = some (q, call) → c.blocks call = true) → P w d c π → P w d c.bar π
  own : ∀ {w d c π bc call flight s π'}, Boarding w₀ w p d c π →
    all[c.passages.size]? = some bc → w₀.resolve bc = some (p, call) → c.blocks call = false →
    call.start (w.site d) = .ok (flight, s) →
    (w.site d).Comes π call none (d.length + 3) flight s π' → P w d c π →
    P (w.put s) s.deque (c.boarded call flight) π'
  beside : ∀ {w d c π bc q call r s}, Boarding w₀ w p d c π → all[c.passages.size]? = some bc →
    w₀.resolve bc = some (q, call) → q ≠ p → w.perform q call = .ok (r, w.put s) → P w d c π →
    P (w.put s) d (c.pass r) π

/-- What one more call does that is asked for while a convoy stands at the lock of `p`. -/
inductive Boards (w : World) (p : PoolId) (d : Deque) (c : Convoy) (π : Pledge)
    (bc : BoardingCall) : Convoy → World → Deque → Pledge → Prop
  | bar (h : ∀ q call, w.resolve bc = some (q, call) → c.blocks call = true) :
    Boards w p d c π bc c.bar w d π
  | own {call : Call} {flight : Flight} {s : Site} {π' : Pledge}
    (resolves : w.resolve bc = some (p, call)) (free : c.blocks call = false)
    (run : call.start (w.site d) = .ok (flight, s))
    (comes : (w.site d).Comes π call none (d.length + 3) flight s π') :
    Boards w p d c π bc (c.boarded call flight) (w.put s) s.deque π'
  | beside {q : PoolId} {call : Call} {r : Reply} {s : Site}
    (resolves : w.resolve bc = some (q, call)) (other : q ≠ p) (free : c.blocks call = false)
    (run : w.perform q call = .ok (r, w.put s)) : Boards w p d c π bc (c.pass r) (w.put s) d π

theorem Boards.size_eq {bc : BoardingCall} {c' : Convoy} {w' : World} {d' : Deque} {π' : Pledge}
    (h : w.Boards p d c π bc c' w' d' π') : c'.passages.size = c.passages.size + 1 := by
  cases h with
  | bar | beside => exact Array.size_push ..
  | own => exact size_boarded ..

theorem Boarding.boards (h : Boarding w₀ w p d c π) {bc : BoardingCall} (hready : w₀.Ready bc) :
    ∃ c' w' d' π', (∀ calls, World.boardAll p c w (bc :: calls) = World.boardAll p c' w' calls) ∧
      Boarding w₀ w' p d' c' π' ∧ w.Boards p d c π bc c' w' d' π' := by
  cases hr : w.resolve bc with
  | none =>
    refine ⟨c.bar, w, d, π, fun calls => ?_, h.bar, .bar fun q call hq => ?_⟩
    · rw [World.boardAll, hr]
    · rw [hr] at hq
      cases hq
  | some o =>
    obtain ⟨q, call⟩ := o
    have hc := h.admissible hready hr
    cases hblocks : c.blocks call with
    | true =>
      refine ⟨c.bar, w, d, π, fun calls => ?_, h.bar, .bar fun q' call' hq' => ?_⟩
      · have hrun : w.visit p (c.board call) = .ok (c.bar, w.put (w.site d)) :=
          visit_eq h.live (by rw [Convoy.board, hblocks]; rfl) h.live.2
        rw [put_site h.live] at hrun
        rw [World.boardAll, hr]
        simp only [hrun, hblocks, if_true, ok_bind, ite_self]
      · cases hr.symm.trans hq'
        exact hblocks
    | false =>
      by_cases hq : q = p
      · subst hq
        obtain ⟨flight, s, π', hrun, hstart, hcomes, hb⟩ := h.board hblocks hc
        refine ⟨_, _, _, π', fun calls => ?_, hb, .own hr hblocks hstart hcomes⟩
        rw [World.boardAll, hr]
        simp only [hrun, if_true, ok_bind]
      · obtain ⟨x, hx, hxq⟩ := exists_handle_of_resolve hr
        obtain ⟨e, he⟩ := h.world.handle x hx
        rw [hxq] at he
        obtain ⟨r, s, hrun, hb⟩ := h.beside hq he hc
        refine ⟨_, _, _, π, fun calls => ?_, hb, .beside hr hq hblocks hrun⟩
        rw [World.boardAll, hr]
        simp only [hrun, hblocks, if_neg hq, Bool.false_eq_true, if_false, ok_bind]

theorem Keeps.boards {all : List BoardingCall} {P : World → Deque → Convoy → Pledge → Prop}
    (hkeeps : w₀.Keeps p all P) (h : Boarding w₀ w p d c π) (hp : P w d c π) {bc : BoardingCall}
    (hbc : all[c.passages.size]? = some bc) {c' : Convoy} {w' : World} {d' : Deque} {π' : Pledge}
    (hb : w.Boards p d c π bc c' w' d' π') : P w' d' c' π' := by
  have hres := resolve_congr h.handles bc
  cases hb with
  | bar hblocks => exact hkeeps.bar h hbc (fun q call hq => hblocks q call (hres.trans hq)) hp
  | own hr hblocks hstart hcomes =>
    exact hkeeps.own h hbc (hres.symm.trans hr) hblocks hstart hcomes hp
  | beside hr hq _ hrun => exact hkeeps.beside h hbc (hres.symm.trans hr) hq hrun hp

theorem Boarding.boardAll {all : List BoardingCall}
    {P : World → Deque → Convoy → Pledge → Prop} (hkeeps : w₀.Keeps p all P)
    (h : Boarding w₀ w p d c π) (hp : P w d c π) {calls : List BoardingCall}
    (hcalls : all.drop c.passages.size = calls) (hready : ∀ bc ∈ calls, w₀.Ready bc) :
    ∃ c' w' d' π', boardAll p c w calls = .ok (c', w') ∧ Boarding w₀ w' p d' c' π' ∧
      c'.passages.size = c.passages.size + calls.length ∧ P w' d' c' π' := by
  induction calls generalizing w d c π with
  | nil => exact ⟨c, w, d, π, rfl, h, rfl, hp⟩
  | cons bc calls ih =>
    -- as many passages as calls before it: the next call of `all` is the head of what is left
    have hbc : all[c.passages.size]? = some bc := by
      rw [← List.head?_drop, hcalls]
      rfl
    have hrest : all.drop (c.passages.size + 1) = calls := by
      rw [← List.tail_drop, hcalls]
      rfl
    obtain ⟨c', w', d', π', hstep, hb, hboards⟩ := h.boards (hready bc List.mem_cons_self)
    have hsize := hboards.size_eq
    obtain ⟨c'', w'', d'', π'', hrun, hb', hlen, hp''⟩ := ih hb (hkeeps.boards h hp hbc hboards)
      (by rw [hsize]; exact hrest) fun x hx => hready x (List.mem_cons_of_mem bc hx)
    refine ⟨c'', w'', d'', π'', (hstep calls).trans hrun, hb', ?_, hp''⟩
    rw [hlen, hsize, List.length_cons]
    omega

end Boarding

section Results

variable {w : World}

theorem resultOf_ok {x : Passage} (hx : x ≠ .queued none)
    (hk : ∀ u, x.reply? = some (.taken u) → w.units.Knows u) : ∃ r, w.resultOf x = .ok r := by
  have hgot : ∀ r, x.reply? = some r → ∃ g, w.gotOf r = .ok g := by
    intro r hr
    cases r with
    | taken u =>
      obtain ⟨e, he⟩ := hk u hr
      exact ⟨.unit (some ⟨u, e.unit.kind⟩),
        by simp only [gotOf, name, UnitTable.lookup_eq he, ok_bind, pure_eq_ok]⟩
    | stored | refused | missed => exact ⟨_, rfl⟩
  cases x with
  | barred => exact ⟨_, rfl⟩
  | direct r =>
    obtain ⟨g, hg⟩ := hgot r rfl
    exact ⟨.made g false, by simp only [resultOf, hg, ok_bind, pure_eq_ok]⟩
  | queued r =>
    cases r with
    | none => exact absurd rfl hx
    | some r =>
      obtain ⟨g, hg⟩ := hgot r rfl
      exact ⟨.made g true, by simp only [resultOf, hg, ok_bind, pure_eq_ok]⟩

theorem mapM_ok {α β : Type} {f : α → Checked β} {l : List α}
    (h : ∀ x ∈ l, ∃ y, f x = .ok y) :
    ∃ ys, l.mapM f = .ok ys ∧ List.Forall₂ (fun x y => f x = .ok y) l ys := by
  induction l with
  | nil => exact ⟨[], rfl, .nil⟩
  | cons x l ih =>
    obtain ⟨y, hy⟩ := h x List.mem_cons_self
    obtain ⟨ys, hys, hall⟩ := ih fun z hz => h z (List.mem_cons_of_mem x hz)
    exact ⟨y :: ys, by simp only [List.mapM_cons, hy, hys, ok_bind, pure_eq_ok], .cons hy hall⟩

end Results

section Convoy

variable {w : World} {p : PoolId} {d : Deque} {calls : List BoardingCall}

def boundless (w : World) : World := { w with limit := none }

theorem Sound.boundless {busy loose : Option PoolId} (h : w.Sound busy loose) :
    w.boundless.Sound busy loose :=
  h.congr rfl rfl h.counted fun _ => rfl

theorem Sound.visit_hold (h : w.Sound none none) (hl : w.Live p d) :
    w.visit p (fun s => do return ((), ← Convoy.hold s)) = .ok ((), w.put (w.site d).held) := by
  obtain ⟨hs, hu⟩ := h.site p d hl (by simp)
  refine visit_eq (f := fun s => do return ((), ← Convoy.hold s)) hl ?_ hl.2
  rw [(Convoy.hold_eq hs hu).1]
  rfl

theorem Sound.boarding (h : w.Sound none none) (hl : w.Live p d) :
    w.Boarding (w.put (w.site d).held) p (w.site d).held.deque .empty .none := by
  obtain ⟨hs, hu⟩ := h.site p d hl (by simp)
  have hf : (w.site d).Frame (w.site d).held := Site.Frame.of_deque _ rfl rfl
  exact
    { world := h.put hl hf hs.counted (fun hp => absurd rfl hp) fun _ _ _ => by simp
      live := (live_put hl hl.2).2 (.inl ⟨rfl, rfl⟩)
      convoy := (Convoy.hold_eq hs hu).2
      handles := rfl
      registered := fun _ => Iff.rfl }

structure Convoyed (w w' : World) (p : PoolId) (d : Deque) (c : Convoy) (s : Site)
    (calls : List BoardingCall) (results : List CallResult) : Prop where
  run : w.convoy p calls = .ok (results, { w'.put s with limit := w.limit })
  live : w'.Live p d
  frame : (w'.site d).Frame s
  site : s.Sound []
  world : (w'.put s).Sound none none
  results : List.Forall₂ (fun x r => (w'.put s).resultOf x = .ok r) c.passages.toList results
  landed : ∀ x ∈ c.passages, x ≠ .queued none
  size : c.passages.size = calls.length
  boarded : ∃ e c₀ π, w.Live p e ∧
    boardAll p .empty (w.boundless.put (w.boundless.site e).held) calls = .ok (c₀, w') ∧
    w.boundless.Boarding w' p d c₀ π ∧ c₀.finish (w'.site d) = .ok (c, s)

/-- A convoy comes to its end. What its calls keep while they are started, and then while the line
is served, holds there. -/
theorem Sound.convoy {P : World → Deque → Convoy → Pledge → Prop}
    {Q : World → Deque → Convoy → Site → Pledge → Prop} (h : w.Sound none none)
    (hl : w.Live p d) (hready : ∀ bc ∈ calls, w.Ready bc)
    (hkeeps : w.boundless.Keeps p calls P)
    (hstart : P (w.boundless.put (w.boundless.site d).held) (w.boundless.site d).held.deque .empty
      .none)
    (hrelease : ∀ {v e c π}, w.boundless.Boarding v p e c π → P v e c π →
      Q v e c (v.site e).released π)
    (hturn : ∀ {v e} {c : Convoy} {s : Site} {π : Pledge} {first : Nat} {x : Waiter}
      {line : List Waiter} {budget : Nat} {flight : Flight} {s' : Site} {π' : Pledge},
      c.Sound s π first → c.line = x :: line →
      x.call.turn x.ticket x.ahead x.stage s = .ok (flight, s') →
      s.Comes π x.call (some x.stage) budget flight s' π' → Q v e c s π →
      Q v e (c.served x line flight) s' π') :
    ∃ w' e c s results, w.Convoyed w' p e c s calls results ∧ Q w' e c s .none := by
  have hboarding := h.boundless.boarding hl
  obtain ⟨c, v, e, π, hrun, hb, hsize, hp⟩ := hboarding.boardAll hkeeps hstart rfl hready
  have hfinish := hb.convoy.finish
    (P := fun c s π => (v.site e).Frame s ∧ c.passages.size = calls.length ∧ Q v e c s π)
    (fun hc hline hrun hcomes hq => ⟨hq.1.trans hcomes.steps.frame,
      (size_served ..).trans hq.2.1, hturn hc hline hrun hcomes hq.2.2⟩) rfl
    ⟨Site.Frame.of_deque _ rfl rfl, hsize.trans (Nat.zero_add _), hrelease hb hp⟩
  obtain ⟨c', s, last, hrun', hsound, hs', hu', hline, hf, hsize', hq⟩ := hfinish
  have hid : s.deque.id = p := hf.id.trans hb.live.2
  have hworld : (v.put s).Sound none none :=
    hb.world.put hb.live hf hs'.counted (fun _ => ⟨hs', hu'⟩) fun q hq _ heq =>
      hq (Option.some.inj heq).symm
  -- a passage without a reply is one of a call that still waits
  have hlanded : ∀ x ∈ c'.passages, x ≠ .queued none := by
    rintro x hx rfl
    obtain ⟨i, hi⟩ := Array.mem_iff_getElem?.1 hx
    obtain ⟨y, hy, _⟩ := (hsound.waiting i).1 hi
    rw [hline] at hy
    cases hy
  obtain ⟨results, hresults, hall⟩ := mapM_ok (f := (v.put s).resultOf) fun x hx =>
    resultOf_ok (hlanded x (Array.mem_toList_iff.1 hx)) (hsound.known x (Array.mem_toList_iff.1 hx))
  refine ⟨v, e, c', s, results, ⟨?_, hb.live, hf, hs', hworld, hall, hlanded, hsize',
    d, c, π, hl, hrun, hb, hrun'⟩, hq⟩
  have hvisit := h.boundless.visit_hold hl
  have hvisit' := visit_eq hb.live hrun' hid
  have hrun'' : boardAll p .empty (w.boundless.put (w.boundless.site d).held) calls =
      .ok (c, v) := hrun
  have hw : { w with limit := none } = w.boundless := rfl
  simp only [pure_eq_ok] at hvisit
  simp only [World.convoy, unlimited, hw, hvisit, hrun'', hvisit', hresults, ok_bind, pure_eq_ok]

theorem Sound.exists_convoyed (h : w.Sound none none) (hl : w.Live p d)
    (hready : ∀ bc ∈ calls, w.Ready bc) :
    ∃ w' e c s results, w.Convoyed w' p e c s calls results := by
  obtain ⟨w', e, c, s, results, hc, -⟩ := h.convoy (P := fun _ _ _ _ => True)
    (Q := fun _ _ _ _ _ => True) hl hready
    ⟨fun _ _ _ _ => trivial, fun _ _ _ _ _ _ _ => trivial, fun _ _ _ _ _ _ => trivial⟩ trivial
    (fun _ _ => trivial) (fun _ _ _ _ _ => trivial)
  exact ⟨w', e, c, s, results, hc⟩

theorem getElem?_of_forall₂ {α β : Type} {R : α → β → Prop} {xs : List α} {ys : List β}
    (h : List.Forall₂ R xs ys) {i : Nat} {x : α} (hx : xs[i]? = some x) :
    ∃ y, ys[i]? = some y ∧ R x y := by
  induction h generalizing i with
  | nil => cases hx
  | cons hxy _ ih =>
    cases i with
    | zero =>
      cases hx
      exact ⟨_, rfl, hxy⟩
    | succ i => exact ih hx

section Passages

variable {w' : World} {e : Deque} {c : Convoy} {s : Site} {results : List CallResult} {i : Nat}

theorem Convoyed.result (h : w.Convoyed w' p e c s calls results) {x : Passage}
    (hx : c.passages[i]? = some x) :
    ∃ r, results[i]? = some r ∧ (w'.put s).resultOf x = .ok r := by
  rw [← Array.getElem?_toList] at hx
  exact getElem?_of_forall₂ h.results hx

theorem Convoyed.passage (h : w.Convoyed w' p e c s calls results) {r : CallResult}
    (hr : results[i]? = some r) :
    ∃ x, c.passages[i]? = some x ∧ (w'.put s).resultOf x = .ok r := by
  obtain ⟨x, hx, hof⟩ := getElem?_of_forall₂ h.results.flip hr
  rw [Array.getElem?_toList] at hx
  exact ⟨x, hx, hof⟩

end Passages

end Convoy

end World

end WorkStealing
