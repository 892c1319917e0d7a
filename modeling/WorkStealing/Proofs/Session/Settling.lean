import WorkStealing.Proofs.Convoy.Sights
import WorkStealing.Proofs.Session.Paths

set_option autoImplicit false

/-!
# Settling the head in a session

A removal that empties the head slot brings the head past it, be it alone or in a line, unless it
had seen its unit before the counters were rebased in its own convoy. Then it does not know the head
slot by its new number, and leaves the hole there.
-/
namespace WorkStealing

def Flight.hasTaken (u : UnitId) : Flight → Bool
  | .landed r => r = .taken u
  | .waiting .. => false

theorem Flight.eq_of_hasTaken {u : UnitId} {flight : Flight} (h : flight.hasTaken u = true) :
    flight = .landed (.taken u) := by
  cases flight with
  | landed r => exact congrArg Flight.landed (of_decide_eq_true h)
  | waiting => cases h

namespace Leg

def Pops (l : Leg) (u : UnitId) : Prop :=
  l.call = .remove .owner u ∧ l.stage = none ∧
    l.before.deque.ring.cell (l.before.deque.tail - 1) = some u

/-- A removal that ends with its unit here, and has not popped it, settles the head. -/
def Settles (rebased : Prop) (l : Leg) : Prop :=
  ∀ side u, l.call = .remove side u → l.flight = .landed (.taken u) → ¬ l.Pops u →
    l.before.deque.Settles rebased u l.after.deque

def Rebases (l : Leg) : Prop := ∃ u, l.stage = some (.rebase u)

variable {l : Leg} {rebased rebased' : Prop}

theorem Settles.mono (h : l.Settles rebased) (hr : rebased → rebased') : l.Settles rebased' :=
  fun side u hcall hflight hpops =>
    have hs := h side u hcall hflight hpops
    ⟨hs.elsewhere, fun hc hlt => (hs.boundary hc hlt).imp_right fun hleft => ⟨hr hleft.1, hleft.2⟩,
      hs.emptied⟩

theorem Ran.settles (h : l.Ran) (hstage : l.stage = none) : l.Settles False := by
  intro side u hcall hflight hpops
  cases h with
  | @alone call s s' r sound free admissible run =>
    obtain rfl : call = .remove side u := hcall
    have hlast : side = .owner → s.deque.ring.cell (s.deque.tail - 1) ≠ some u := by
      rintro rfl hc
      exact hpops ⟨rfl, rfl, hc⟩
    exact Site.start_settles sound free admissible hlast _ (Call.start_of_perform run) hflight
  | @boards call s s' flight π π' budget stands held admissible idle run comes =>
    obtain rfl : flight = .landed (.taken u) := hflight
    have harrives := Site.start_arrives stands held admissible idle _ run
    cases harrives with
    | landed spares foreign removes taken =>
      have hne := (taken u rfl).2
      exact ⟨fun _ => spares.head, fun hc => absurd hc hne, fun hc => absurd hc hne⟩
  | turns => cases hstage

end Leg

/-- Every removal settles the head, but for those on pools whose counters were rebased before. -/
def Tidy (rebased : PoolId → Prop) (bs : List Beat) : Prop :=
  ∀ pre l post, bs = pre ++ .leg l :: post →
    l.Settles (rebased l.before.deque.id ∨
      ∃ l', .leg l' ∈ pre ∧ l'.Rebases ∧ l'.before.deque.id = l.before.deque.id)

namespace Tidy

variable {rebased : PoolId → Prop} {bs bs' : List Beat} {l : Leg}

theorem nil (rebased : PoolId → Prop) : Tidy rebased [] := by
  intro pre l post h
  cases pre <;> cases h

theorem cons (h : l.Settles (rebased l.before.deque.id))
    (hbs : Tidy (fun p => rebased p ∨ l.Rebases ∧ l.before.deque.id = p) bs) :
    Tidy rebased (.leg l :: bs) := by
  intro pre m post heq
  cases pre with
  | nil =>
    cases heq
    exact h.mono .inl
  | cons b pre =>
    obtain ⟨rfl, hrest⟩ := List.cons.inj heq
    refine (hbs pre m post hrest).mono ?_
    rintro ((hr | ⟨hl, hid⟩) | ⟨l', hl', hrest⟩)
    · exact .inl hr
    · exact .inr ⟨l, List.mem_cons_self, hl, hid⟩
    · exact .inr ⟨l', List.mem_cons_of_mem _ hl', hrest⟩

theorem append (h : Tidy rebased bs) (h' : Tidy rebased bs') : Tidy rebased (bs ++ bs') := by
  intro pre l post heq
  rcases List.append_eq_append_iff.1 heq with ⟨as, rfl, hbs'⟩ | ⟨cs, rfl, hcs⟩
  · refine (h' as l post hbs').mono (Or.imp_right ?_)
    rintro ⟨l', hl', hrest⟩
    exact ⟨l', List.mem_append_right bs hl', hrest⟩
  · cases cs with
    | nil =>
      refine (h' [] l post hcs.symm).mono (Or.imp_right ?_)
      rintro ⟨l', hl', -⟩
      cases hl'
    | cons b cs =>
      obtain ⟨rfl, -⟩ := List.cons.inj hcs
      exact h pre l cs rfl

theorem of_all (h : ∀ l, .leg l ∈ bs → l.Settles False) : Tidy rebased bs := by
  rintro pre l post rfl
  exact (h l (List.mem_append_right pre List.mem_cons_self)).mono False.elim

end Tidy

section Turns

variable {c : Convoy} {s s' : Site} {π : Pledge} {first : Nat} {x : Waiter} {line : List Waiter}
  {flight : Flight}

theorem Convoy.Sound.turn_settles (h : c.Sound s π first) (hline : c.line = x :: line)
    (hnow : s.deque.foreign.nowServing = first) {rebased : Prop}
    (hlook : ¬ rebased → Lookout s.deque.Sights c.line)
    (hrun : x.call.turn x.ticket x.ahead x.stage s = .ok (flight, s')) :
    Leg.Settles rebased ⟨x.call, some x.stage, s, flight, s'⟩ := by
  intro side u hcall hflight _
  have hcall : x.call = .remove side u := hcall
  have hx : x ∈ c.line := hline ▸ List.mem_cons_self
  have hawaits := h.lined.awaits x hx
  have hpledge := h.lined.pledge x hx
  rw [hcall] at hawaits hpledge hrun
  exact h.lined.stands.turn_settles hawaits (fun hs => hpledge (decide_eq_true hs))
    (fun hnot => (hlook hnot).sights x hx) (hnow.trans (h.ticket_eq hline).symm) x.ahead _ hrun
    hflight

theorem Convoy.Sound.turns_tidy {rebased : PoolId → Prop} (h : c.Sound s π first)
    (hnow : s.deque.foreign.nowServing = first)
    (hlook : ¬ rebased s.deque.id → Lookout s.deque.Sights c.line) (budget : Nat) :
    Tidy rebased (c.turns budget s) := by
  induction budget generalizing c s π first rebased with
  | zero => exact .nil rebased
  | succ budget ih =>
    cases hline : c.line with
    | nil =>
      rw [turns, hline]
      exact .nil rebased
    | cons x line =>
      obtain ⟨_, flight, s', π', hrun, hcomes, hsound, hnow', -⟩ := h.turn hnow hline
      rw [turns_cons hline hrun]
      -- from a turn that rebases the counters on nothing is known of what was seen
      refine .cons (h.turn_settles hline hnow hlook hrun) (ih hsound hnow' fun hnot => ?_)
      rw [hcomes.steps.frame.id, not_or] at hnot
      obtain ⟨hnot, hstage⟩ := hnot
      refine h.lookout_turn hline hnow (hlook hnot) (fun u hu => ?_) hrun hcomes hsound
      exact hstage ⟨⟨u, congrArg some hu⟩, rfl⟩

end Turns

namespace World

def Fresh (bs : List Beat) : Prop := ∀ l, .leg l ∈ bs → l.stage = none

section Starts

variable {bs bs' : List Beat}

theorem Fresh.nil : Fresh [] := fun _ hl => nomatch hl

theorem Fresh.append (h : Fresh bs) (h' : Fresh bs') : Fresh (bs ++ bs') := fun l hl =>
  (List.mem_append.1 hl).elim (h l) (h' l)

theorem fresh_thence {α : Type} {f : α → World → List Beat} (h : ∀ a w, Fresh (f a w))
    (x : Checked (α × World)) : Fresh (thence x f) := by
  cases x with
  | error e => exact .nil
  | ok o => exact h o.1 o.2

theorem fresh_elim {α : Type} {f : α → List Beat} (h : ∀ a, Fresh (f a)) (o : Option α) :
    Fresh (o.elim [] f) := by
  cases o with
  | none => exact .nil
  | some a => exact h a

theorem fresh_callBeats (w : World) (p : PoolId) (call : Call) : Fresh (w.callBeats p call) := by
  intro l hl
  unfold callBeats at hl
  split at hl
  · split at hl
    · cases List.mem_singleton.1 hl
      rfl
    · cases hl
  · cases hl

theorem fresh_takeManyBeats (p : PoolId) (call : Call) (times : Nat) (w : World) :
    Fresh (takeManyBeats p call times w) := by
  induction times generalizing w with
  | zero => exact .nil
  | succ times ih => exact (fresh_callBeats w p call).append (fresh_thence (fun _ => ih) _)

theorem fresh_takeAllBeats (p : PoolId) (call : Call) (times : Nat) (w : World) :
    Fresh (takeAllBeats p call times w) := by
  induction times generalizing w with
  | zero => exact .nil
  | succ times ih =>
    refine (fresh_callBeats w p call).append (fresh_thence (fun u v => ?_) _)
    split
    · exact ih v
    · exact .nil

theorem fresh_pushManyBeats (p : PoolId) (type : UnitType) (first : UInt64) (times : Nat)
    (w : World) : Fresh (pushManyBeats p type first times w) := by
  induction times generalizing w first with
  | zero => exact .nil
  | succ times ih =>
    exact (fresh_callBeats _ p _).append (fresh_thence (fun _ => ih (first + 1)) _)

theorem fresh_boardAllBeats (p : PoolId) (calls : List BoardingCall) (c : Convoy) (w : World) :
    Fresh (boardAllBeats p c w calls) := by
  induction calls generalizing c w with
  | nil => exact .nil
  | cons bc calls ih =>
    refine Fresh.append ?_ (fresh_thence ih _)
    unfold boardBeats
    split
    · split
      · exact .nil
      · exact fresh_callBeats _ _ _
    · exact .nil

theorem fresh_beats (w : World) {op : Op} (h : ∀ n calls, op ≠ .convoy n calls) :
    Fresh (w.beats op) := by
  cases op with
  | convoy n calls => exact absurd rfl (h n calls)
  | push n u =>
    rw [beats]
    split
    · exact fresh_callBeats _ _ _
    · exact .nil
  | pushNew n kind => exact fresh_elim (fun p => fresh_callBeats _ p _) _
  | pushMany n type first times =>
    exact fresh_elim (fun p => fresh_pushManyBeats p type first times w) _
  | pop n => exact fresh_elim (fun p => fresh_callBeats w p _) _
  | steal n => exact fresh_elim (fun p => fresh_callBeats w p _) _
  | remove n u =>
    rw [beats]
    split
    · exact fresh_callBeats _ _ _
    · exact .nil
  | popMany n times => exact fresh_elim (fun p => fresh_takeManyBeats p _ times w) _
  | stealMany n times => exact fresh_elim (fun p => fresh_takeManyBeats p _ times w) _
  | popAll n => exact fresh_elim (fun p => fresh_takeAllBeats p _ _ w) _
  | stealAll n => exact fresh_elim (fun p => fresh_takeAllBeats p _ _ w) _
  | resetMetrics n =>
    refine fresh_elim (fun k l hl => ?_) _
    cases List.mem_singleton.1 hl
  | createUnit | unitInfo | whereabouts | clearUnit | new | newAt | limit | stealer | clone | drop
  | info | compareIds | samePool | metrics | unknown => exact .nil

end Starts

section Convoys

variable {w : World} {p : PoolId} {d : Deque} {calls : List BoardingCall}

theorem keeps_lookout (w₀ : World) (p : PoolId) (calls : List BoardingCall)
    (hready : ∀ bc ∈ calls, w₀.Ready bc) :
    w₀.Keeps p calls fun _ e c _ => Lookout e.Spots c.line where
  bar _ _ _ hp := hp
  own {w d c π bc call flight s π'} h hbc hr hblocks hrun hcomes hp := by
    have hc := h.admissible (hready bc (List.mem_of_getElem? hbc))
      ((resolve_congr h.handles bc).trans hr)
    exact h.convoy.lined.lookout_board hp (h.convoy.arrives hc hblocks _ hrun)
      (hcomes.grown.resolve_right (by simp))
  beside _ _ _ _ _ hp := hp

theorem Sound.convoyBeats_tidy (h : w.Sound none none) (hl : w.Live p d)
    (hready : ∀ bc ∈ calls, w.Ready bc) : Tidy (fun _ => False) (w.convoyBeats p calls) := by
  have hboarding := h.boundless.boarding hl
  obtain ⟨c, v, e, π, hrun, hb, -, hlook⟩ := hboarding.boardAll
    (keeps_lookout w.boundless p calls hready) ⟨by simp [Convoy.empty], .nil⟩ rfl hready
  have hway := hboarding.boardAll_path hready _ hrun
  have hserve : Tidy (fun _ => False) (c.turns (Call.grantBudget c.line.length e.length)
      (Convoy.letGo (v.site e))) :=
    hb.convoy.released.turns_tidy rfl (fun _ => hlook.mono fun _ _ hspots => hspots.sights) _
  rw [convoyBeats, h.boundless.visit_hold hl]
  simp only [thence]
  refine .append (.of_all fun l hmem => ?_) ?_
  · exact (hway.ran hmem).settles (fresh_boardAllBeats _ _ _ _ l hmem)
  · change boardAll p .empty (w.boundless.put (w.boundless.site d).held) calls = .ok (c, v) at hrun
    simp only [hrun, serveBeats, hb.live.pool?_eq]
    exact hserve

theorem Sound.beats_tidy (h : w.Sound none none) (op : Op) :
    Tidy (fun _ => False) (w.beats op) := by
  by_cases hop : ∃ n calls, op = .convoy n calls
  · obtain ⟨n, calls, rfl⟩ := hop
    rw [beats]
    cases ho : w.owned? n with
    | none => exact .nil _
    | some p =>
      obtain ⟨d, hl⟩ := h.live_of_handle? (handle?_of_owned? ho)
      dsimp only [Option.elim]
      split
      · rename_i hknows
        exact h.convoyBeats_tidy hl fun bc hbc =>
          ready_of_knows (List.all_eq_true.1 hknows bc hbc)
      · exact .nil _
  · obtain ⟨a, w', hrun, -⟩ := h.act op
    have hway := h.leads_act op _ hrun
    exact .of_all fun l hl =>
      (hway.ran hl).settles (fresh_beats w (fun n calls hc => hop ⟨n, calls, hc⟩) l hl)

end Convoys

/-- In every state that a session can reach and in every operation there, convoys included, a
removal that takes its unit out of the head slot of a window that shows it brings the head past that
slot, and other removals leave the head where it is. The one exception is a removal from a pool
whose counters were rebased before in the same operation, by a call that had waited: it may leave
the head at the slot that it has emptied. -/
theorem removal_settles_head (telemetry hooks : Bool) (ops : List Op) : ∃ reports w,
    (start telemetry hooks).run ops = .ok (reports, w) ∧ ∀ op pre l post,
      w.unlogged.beats op = pre ++ .leg l :: post → l.Settles (∃ l', .leg l' ∈ pre ∧ l'.Rebases ∧
        l'.before.deque.id = l.before.deque.id) := by
  obtain ⟨reports, w, hrun, hw⟩ := (sound_start telemetry hooks).run ops
  have hu : w.unlogged.Sound none none := hw.congr rfl rfl hw.counted fun _ => rfl
  refine ⟨reports, w, hrun, fun op pre l post heq => ?_⟩
  exact (hu.beats_tidy op pre l post heq).mono fun hr => hr.resolve_left id

/-- The foreign removal of `u` ends with `u`, out of the head slot of a window that shows it. -/
structure TakesHead (u : UnitId) (l : Leg) : Prop where
  call : l.call = .remove .foreign u
  flight : l.flight = .landed (.taken u)
  shown : l.before.deque.head < l.before.deque.tail
  cell : l.before.deque.ring.cell l.before.deque.head = some u

def takesHead (u : UnitId) (f : Leg → Bool) : Beat → Bool
  | .leg l => decide (l.call = .remove .foreign u) && l.flight.hasTaken u &&
      decide (l.before.deque.head < l.before.deque.tail) &&
      decide (l.before.deque.ring.cell l.before.deque.head = some u) && f l
  | .reset _ => false

theorem exists_takesHead {bs : List Beat} {u : UnitId} {f : Leg → Bool}
    (h : bs.any (takesHead u f) = true) :
    ∃ pre l post, bs = pre ++ .leg l :: post ∧ TakesHead u l ∧ f l = true := by
  obtain ⟨b, hb, htakes⟩ := List.any_eq_true.1 h
  obtain ⟨pre, post, hsplit⟩ := List.append_of_mem hb
  cases b with
  | reset p => cases htakes
  | leg l =>
    simp only [takesHead, Bool.and_eq_true, decide_eq_true_eq] at htakes
    obtain ⟨⟨⟨⟨hcall, hflight⟩, hlt⟩, hc⟩, hf⟩ := htakes
    exact ⟨pre, l, post, hsplit, ⟨hcall, Flight.eq_of_hasTaken hflight, hlt, hc⟩, hf⟩

def threeTasks : List Op :=
  [.new 0 (some 4) none, .stealer 1 0, .pushMany 0 .task 7 3]

/-- By the turn of the removal the steal before it has brought the head to the slot of its unit. -/
theorem removal_settles_head_behind_steal : ∃ reports w pre l post,
    (start true true).run threeTasks = .ok (reports, w) ∧
      w.unlogged.beats (.convoy 0 [.steal 1, .remove 1 ⟨1⟩]) = pre ++ .leg l :: post ∧
      TakesHead ⟨1⟩ l ∧ l.after.deque.head = l.before.deque.head + 1 := by
  obtain ⟨reports, w, hrun, hsettles⟩ := removal_settles_head true true threeTasks
  have hshown : ((start true true).run threeTasks).toOption.any (fun o =>
      (o.2.unlogged.beats (.convoy 0 [.steal 1, .remove 1 ⟨1⟩])).any
        (takesHead ⟨1⟩ fun l => decide (l.after.deque.head ≠ l.before.deque.head))) = true := by
    decide +kernel
  rw [hrun] at hshown
  obtain ⟨pre, l, post, hsplit, htakes, hmoved⟩ := exists_takesHead hshown
  have hpops : ¬ l.Pops ⟨1⟩ := fun hpops => nomatch htakes.call.symm.trans hpops.1
  have hs := hsettles _ pre l post hsplit _ _ htakes.call htakes.flight hpops
  refine ⟨reports, w, pre, l, post, hrun, hsplit, htakes, ?_⟩
  exact (hs.boundary htakes.cell htakes.shown).resolve_right fun hleft =>
    of_decide_eq_true hmoved hleft.2

/-- A push finds the counters at their end and waits to rebase them, and a thief waits behind it to
remove the oldest unit. -/
def renumbering : List Op :=
  [.newAt 0 (some 4) 18446744073709551613, .stealer 1 0, .createUnit (.task ⟨7⟩),
   .createUnit (.task ⟨8⟩), .createUnit (.task ⟨9⟩), .push 0 ⟨0⟩, .push 0 ⟨1⟩,
   .convoy 0 [.push 0 ⟨2⟩, .remove 1 ⟨0⟩]]

theorem removal_leaves_hole_at_head : ∃ l, .leg l ∈ (start true true).course renumbering ∧
    TakesHead ⟨0⟩ l ∧ l.after.deque.head = l.before.deque.head ∧
      l.after.deque.head < l.after.deque.tail ∧
      l.after.deque.ring.cell l.after.deque.head = none := by
  have hshown : ((start true true).course renumbering).any (takesHead ⟨0⟩ fun l =>
      decide (l.after.deque.head = l.before.deque.head ∧
        l.after.deque.head < l.after.deque.tail ∧
        l.after.deque.ring.cell l.after.deque.head = none)) = true := by
    decide +kernel
  obtain ⟨pre, l, post, hsplit, htakes, hhole⟩ := exists_takesHead hshown
  refine ⟨l, ?_, htakes, of_decide_eq_true hhole⟩
  rw [hsplit]
  exact List.mem_append_right pre List.mem_cons_self

end World

end WorkStealing
