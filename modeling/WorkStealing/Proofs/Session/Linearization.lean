import WorkStealing.Proofs.Convoy.Record
import WorkStealing.Proofs.Session.Invariant

set_option autoImplicit false

/-!
# Convoys one call after another

However the calls of a convoy meet at the lock, some order of them explains what they give and what
they leave: made one after another in that order, on plain lists, they have the same replies, and
the lists end as the pools do.
-/
namespace WorkStealing

theorem Convoy.Explained.released {b : Backlogs} {p : PoolId} {asked : List Call}
    {c : Convoy} {s : Site} {π : Pledge}
    (h : Explained b p asked c s π) : Explained b p asked c s.released π := by
  obtain ⟨A, B, hdraft, hB, hrecord⟩ := h
  have hq := Site.backlog_of_core (show s.released.core = s.core from rfl) π
  exact ⟨A, B, ⟨hdraft.id, hdraft.here.trans hq.symm, hdraft.elsewhere, hdraft.ordered,
    hdraft.lacks, hdraft.gap⟩, hB, hrecord⟩

namespace World

/-- The call at `i` is one of an owner, and comes behind an owner call that had to queue. -/
def Behind (asked : List Call) (results : List CallResult) (i : Nat) : Prop :=
  (∃ call, asked[i]? = some call ∧ call.isOwner = true) ∧
    ∃ j call got, j < i ∧ asked[j]? = some call ∧ call.isOwner = true ∧
      results[j]? = some (.made got true)

/-- The calls `asked` of a convoy on pool `p`, in an order that explains it. It leads from `w` to
`w'`, and the calls have `results`. -/
structure Linearized (w w' : World) (p : PoolId) (asked : List Call) (results : List CallResult)
    (order : List Berth) : Prop where
  seats : (order.map Berth.seat).Nodup
  result : ∀ x ∈ order, asked[x.seat]? = some x.call ∧
    ∃ got, w'.gotOf x.reply = .ok got ∧ results[x.seat]? = some (.made got (!x.direct))
  complete : ∀ i r, results[i]? = some r →
    (∃ x ∈ order, x.seat = i) ∨ r = .refused ∧ Behind asked results i
  before : order.Pairwise fun x y => y.direct = true → x.seat < y.seat
  legal : w.backlogs.Legal (order.map (Berth.deed p))
  /-- What a call lacked cannot be had, and is twice what the pool ends with. -/
  lack : ∀ x ∈ order, ∀ n ∈ x.lack, Ring.fits none n = false ∧
    ∃ d, w'.Live p d ∧ n = 2 * d.capacity
  final : w.backlogs.final (order.map (Berth.deed p)) = w'.backlogs

section Linearization

variable {w : World} {p : PoolId} {d : Deque} {calls : List BoardingCall} {asked : List Call}

theorem asked_of_call (hcalls : calls.map w.resolve = asked.map fun call => some (p, call))
    {i : Nat} {bc : BoardingCall} (hbc : calls[i]? = some bc) :
    ∃ call, asked[i]? = some call ∧ w.resolve bc = some (p, call) := by
  have hi := congrArg (fun l => l[i]?) hcalls
  simp only [List.getElem?_map, hbc, Option.map_some] at hi
  obtain ⟨call, hcall, hres⟩ := Option.map_eq_some_iff.1 hi.symm
  exact ⟨call, hcall, hres.symm⟩

theorem Sound.explained (h : w.Sound none none) (hl : w.Live p d) (asked : List Call) :
    Convoy.Explained w.backlogs p asked .empty (w.site d).held .none := by
  have hfits := h.fits (by simp) hl
  exact ⟨[], [], ⟨hl.2, hfits.here, hfits.elsewhere, ⟨trivial, by simp, .nil, by simp⟩, by simp,
    by simp [Convoy.empty]⟩, fun hne => absurd rfl hne, ⟨.nil, by simp, by simp [Convoy.empty],
    by simp [Convoy.empty]⟩⟩

theorem keeps_explained (hcalls : calls.map w.resolve = asked.map fun call => some (p, call))
    (b : Backlogs) (limit : Option Nat) :
    w.Keeps p calls fun v e c π => Convoy.Explained b p asked c (v.site e) π ∧
      v.limit = limit ∧ ∀ q, q ≠ p → v.backlogs q = b q where
  bar h hbc hblocks hp := by
    obtain ⟨call, hcall, hres⟩ := asked_of_call hcalls hbc
    exact ⟨hp.1.bar h.convoy hcall (hblocks p call hres), hp.2⟩
  own h hbc hres hblocks _ hcomes hp := by
    obtain ⟨call, hcall, hres'⟩ := asked_of_call hcalls hbc
    cases hres.symm.trans hres'
    refine ⟨hp.1.board h.convoy hblocks hcall hcomes, hcomes.steps.frame.limit.trans hp.2.1,
      fun q hq => ?_⟩
    rw [backlogs_put h.live (hcomes.steps.frame.id.trans h.live.2), Function.update_of_ne hq]
    exact hp.2.2 q hq
  beside _ hbc hres hq _ _ := by
    obtain ⟨call, _, hres'⟩ := asked_of_call hcalls hbc
    cases hres.symm.trans hres'
    exact absurd rfl hq

theorem exists_got_of_made {v : World} {r : Reply} {queued : Bool} {o : CallResult}
    (h : (do return .made (← v.gotOf r) queued : Checked CallResult) = .ok o) :
    ∃ got, v.gotOf r = .ok got ∧ o = .made got queued := by
  cases hgot : v.gotOf r with
  | error e =>
    rw [hgot] at h
    cases h
  | ok got =>
    rw [hgot] at h
    cases h
    exact ⟨got, rfl, rfl⟩

theorem Convoyed.results_of_recorded {w' : World} {e : Deque} {c : Convoy} {s : Site}
    {results : List CallResult} {L : List Berth} (h : w.Convoyed w' p e c s calls results)
    (hr : c.Recorded asked L) :
    (∀ x ∈ L, asked[x.seat]? = some x.call ∧
      ∃ got, (w'.put s).gotOf x.reply = .ok got ∧
        results[x.seat]? = some (.made got (!x.direct))) ∧
    ∀ i r, results[i]? = some r →
      (∃ x ∈ L, x.seat = i) ∨ r = .refused ∧ Behind asked results i := by
  constructor
  · intro x hx
    obtain ⟨hcall, hpassage⟩ := hr.landed x hx
    obtain ⟨r, hres, hof⟩ := h.result hpassage
    refine ⟨hcall, ?_⟩
    cases hdirect : x.direct with
    | true =>
      rw [Berth.passage, hdirect, if_pos rfl] at hof
      obtain ⟨got, hgot, rfl⟩ := exists_got_of_made hof
      exact ⟨got, hgot, hres⟩
    | false =>
      rw [Berth.passage, hdirect, if_neg Bool.false_ne_true] at hof
      obtain ⟨got, hgot, rfl⟩ := exists_got_of_made hof
      exact ⟨got, hgot, hres⟩
  · intro i r hi
    obtain ⟨y, hy, hof⟩ := h.passage hi
    rcases hr.place i y hy with rfl | hx | ⟨rfl, howner, j, call, r', hj, hcall, hjowner, hjr⟩
    · exact absurd rfl (h.landed _ (Array.mem_of_getElem? hy))
    · exact .inl hx
    · cases hof
      refine .inr ⟨rfl, howner, j, call, ?_⟩
      obtain ⟨o, ho, hof⟩ := h.result hjr
      cases r' with
      | none => exact absurd rfl (h.landed _ (Array.mem_of_getElem? hjr))
      | some r' =>
        obtain ⟨got, _, rfl⟩ := exists_got_of_made hof
        exact ⟨got, hj, hcall, hjowner, ho⟩

theorem Sound.convoy_linearized (h : w.Sound none none) (hl : w.Live p d)
    (hcalls : calls.map w.resolve = asked.map fun call => some (p, call))
    (hunits : ∀ call ∈ asked, call.Admissible w.units) :
    ∃ results w' order, w.convoy p calls = .ok (results, w') ∧
      results.length = asked.length ∧ w.Linearized w' p asked results order := by
  have hready : ∀ bc ∈ calls, w.Ready bc := by
    intro bc hbc q call hres
    obtain ⟨i, hi⟩ := List.mem_iff_getElem?.1 hbc
    obtain ⟨call', hcall, hres'⟩ := asked_of_call hcalls hi
    cases hres.symm.trans hres'
    exact hunits call (List.mem_of_getElem? hcall)
  have hexplained := h.boundless.explained (w := w.boundless) hl asked
  obtain ⟨v, e, c, s, results, hc, ⟨A, B, hdraft, hB, hrecord⟩, hlimit, hothers⟩ := h.convoy
    (Q := fun v e c s π => Convoy.Explained w.backlogs p asked c s π ∧ s.limit = none ∧
      ∀ q, q ≠ p → v.backlogs q = w.backlogs q) hl hready
    (keeps_explained (w := w.boundless) hcalls w.backlogs none)
    ⟨hexplained, rfl, fun q hq => by
      rw [backlogs_put (w := w.boundless) hl hl.2, Function.update_of_ne hq]
      rfl⟩
    (fun _ hp => ⟨hp.1.released, hp.2⟩)
    (fun hc hline _ hcomes hq => ⟨hq.1.serve hc hline hcomes,
      hcomes.steps.frame.limit.trans hq.2.1, hq.2.2⟩)
  -- nobody is left who has the last slot off the window, so every call has its place
  have hnone : B = [] := by_contra fun hne => nomatch hB hne
  subst hnone
  rw [List.append_nil] at hrecord
  obtain ⟨hresult, hcomplete⟩ := hc.results_of_recorded hrecord
  have hlength : results.length = asked.length := by
    have hlen := congrArg List.length hcalls
    rw [List.length_map, List.length_map] at hlen
    rw [← hc.results.length_eq, Array.length_toList, hc.size, hlen]
  refine ⟨results, _, A, hc.run, hlength, hrecord.seats, hresult, hcomplete, ?_,
    hdraft.ordered.legal, fun x hx n hn => ?_, ?_⟩
  · have hbefore := hdraft.ordered.before
    rwa [List.append_nil] at hbefore
  · obtain ⟨hcapacity, hfits⟩ := hdraft.lacks x (List.mem_append_left [] hx) n hn
    rw [hlimit] at hfits
    have hlive : (v.put s).Live p s.deque :=
      (live_put hc.live (hc.frame.id.trans hc.live.2)).2 (.inl ⟨rfl, rfl⟩)
    exact ⟨hfits, s.deque, hlive, hcapacity⟩
  · change _ = (v.put s).backlogs
    rw [backlogs_put hc.live (hc.frame.id.trans hc.live.2)]
    funext q
    by_cases hq : q = p
    · rw [hq, Function.update_self]
      exact hdraft.here
    · rw [Function.update_of_ne hq, hothers q hq]
      exact Backlogs.final_of_ne (fun _ hx => Convoy.pool_of_mem_deeds hx) hq

/-- After any session, the calls of a convoy on one pool have an order in which they are calls on
plain lists. A call that did not queue comes before every call that was started after it. Only an
owner call behind one that had to queue is not made. -/
theorem convoy_linearizable {telemetry hooks : Bool} {ops : List Op} {reports : List StepReport}
    (hrun : (start telemetry hooks).run ops = .ok (reports, w)) (hl : w.Live p d)
    (hcalls : calls.map w.resolve = asked.map fun call => some (p, call))
    (hunits : ∀ call ∈ asked, call.Admissible w.units) :
    ∃ results w' order, w.convoy p calls = .ok (results, w') ∧
      results.length = asked.length ∧ w.Linearized w' p asked results order :=
  (sound_of_run hrun).convoy_linearized hl hcalls hunits

/-- Two tasks in a pool of four slots whose counters start at the last but one machine word. -/
def openLoaded : List Op :=
  [.newAt 0 (some 4) 18446744073709551614, .stealer 1 0, .createUnit (.task ⟨7⟩),
   .createUnit (.task ⟨8⟩), .push 0 ⟨0⟩, .push 0 ⟨1⟩]

/-- A removal that loses its unit to a pop while it waits, a pop that waits with the last slot off
the window, and two calls that find nothing meanwhile. -/
def meeting : List BoardingCall := [.remove 1 ⟨1⟩, .pop 0, .pop 0, .remove 1 ⟨0⟩, .steal 1]

def met : List Call := [.remove .foreign ⟨1⟩, .pop, .pop, .remove .foreign ⟨0⟩, .steal]

theorem convoy_linearizable_off_window : ∃ reports w d,
    (start true true).run openLoaded = .ok (reports, w) ∧ w.Live (.ofIndex 0) d ∧
      meeting.map w.resolve = met.map (fun call => some (.ofIndex 0, call)) ∧
      (∀ call ∈ met, call.Admissible w.units) ∧
      ∃ results w' order, w.convoy (.ofIndex 0) meeting = .ok (results, w') ∧
        results.length = met.length ∧ w.Linearized w' (.ofIndex 0) met results order := by
  obtain ⟨reports, w, hrun, -⟩ := (sound_start true true).run openLoaded
  have hshown : ((start true true).run openLoaded).toOption.any (fun o =>
      (o.2.live? (.ofIndex 0)).isSome && (o.2.unit? ⟨0⟩).isSome && (o.2.unit? ⟨1⟩).isSome &&
        decide (meeting.map o.2.resolve = met.map fun call => some (.ofIndex 0, call))) = true := by
    decide +kernel
  rw [hrun] at hshown
  simp only [Except.toOption, Option.any_some, Bool.and_eq_true, Option.isSome_iff_exists,
    decide_eq_true_eq] at hshown
  obtain ⟨⟨⟨⟨d, hd⟩, e, he⟩, e', he'⟩, hcalls⟩ := hshown
  have hunits : ∀ call ∈ met, call.Admissible w.units := by
    simp [met, Call.Admissible, Call.unit?, registered_of_unit? he, registered_of_unit? he']
  exact ⟨reports, w, d, hrun, live?_eq_some.1 hd, hcalls, hunits,
    convoy_linearizable hrun (live?_eq_some.1 hd) hcalls hunits⟩

end Linearization

end World

end WorkStealing
