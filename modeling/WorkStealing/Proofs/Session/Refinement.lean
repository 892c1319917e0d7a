import WorkStealing.Proofs.Session.Invariant

set_option autoImplicit false

/-!
# Calls one after another

Any number of calls on the pools of a session, in any order but one at a time, are calls on plain
lists of units: each reply is the one that the lists give, and the queued units are what the lists
hold.
-/
namespace WorkStealing

namespace World

/-- Makes the calls in turn. What a pool lacks is read off before each of them. -/
def callAll (w : World) : List (PoolId × Call) → Checked (List Deed × World)
  | [] => return ([], w)
  | (p, call) :: calls => do
    let (reply, v) ← w.perform p call
    let (xs, v) ← v.callAll calls
    return (⟨p, call, reply, w.lack p⟩ :: xs, v)

/-- The history `xs` of the calls is one on the lists of `w`, and these end as those of `w'`. -/
structure Refined (w w' : World) (calls : List (PoolId × Call)) (xs : List Deed) : Prop where
  calls_eq : xs.map (fun x => (x.pool, x.call)) = calls
  legal : w.backlogs.Legal xs
  final : w.backlogs.final xs = w'.backlogs

theorem Sound.callAll {w : World} (h : w.Sound none none) {calls : List (PoolId × Call)}
    (hpools : ∀ x ∈ calls, ∃ d, w.Live x.1 d) (hunits : ∀ x ∈ calls, x.2.Admissible w.units) :
    ∃ xs w', w.callAll calls = .ok (xs, w') ∧ w.Refined w' calls xs := by
  induction calls generalizing w with
  | nil => exact ⟨[], w, rfl, rfl, trivial, rfl⟩
  | cons x calls ih =>
    obtain ⟨p, call⟩ := x
    obtain ⟨d, hl⟩ := hpools _ List.mem_cons_self
    obtain ⟨s, hp⟩ := h.perform hl (hunits _ List.mem_cons_self)
    have hlive : ∀ x ∈ calls, ∃ e, (w.put s).Live x.1 e := by
      intro x hx
      obtain ⟨e, he⟩ := hpools x (List.mem_cons_of_mem _ hx)
      by_cases hq : x.1 = p
      · exact ⟨_, (live_put hl (hp.frame.id.trans hl.2)).2 (.inl ⟨hq, rfl⟩)⟩
      · exact ⟨e, (live_put hl (hp.frame.id.trans hl.2)).2 (.inr ⟨hq, he⟩)⟩
    have hadmissible : ∀ x ∈ calls, x.2.Admissible (w.put s).units := fun x hx u hu =>
      hp.frame.units.registered.2 (hunits x (List.mem_cons_of_mem _ hx) u hu)
    obtain ⟨xs, w', hrun, hcalls, hlegal, hfinal⟩ := ih hp.sound hlive hadmissible
    rw [hp.backlogs_eq] at hlegal hfinal
    refine ⟨⟨p, call, ((w.site d).scene.perform call).1, w.lack p⟩ :: xs, w', ?_, ?_,
      ⟨hp.allowed, hlegal⟩, hfinal⟩
    · simp only [World.callAll, hp.run, hrun, ok_bind, pure_eq_ok]
    · rw [List.map_cons, hcalls]

/-- After any session, calls on pools that have not ended are calls on plain lists. Each reply is
the one that the list gives, but for a push of a unit that is queued nowhere: it is refused when its
pool lacks slots, and only then. -/
theorem callAll_refines {telemetry hooks : Bool} {ops : List Op} {reports : List StepReport}
    {w : World} (hrun : (start telemetry hooks).run ops = .ok (reports, w))
    {calls : List (PoolId × Call)} (hpools : ∀ x ∈ calls, ∃ d, w.Live x.1 d)
    (hunits : ∀ x ∈ calls, x.2.Admissible w.units) :
    ∃ xs w', w.callAll calls = .ok (xs, w') ∧ w.Refined w' calls xs :=
  (sound_of_run hrun).callAll hpools hunits

/-- A pool of two slots whose counters start at the last machine word, and three tasks. -/
def openAtMax : List Op :=
  [.newAt 0 (some 2) 18446744073709551615, .createUnit (.task ⟨7⟩), .createUnit (.task ⟨8⟩),
   .createUnit (.task ⟨9⟩)]

/-- Three pushes, which bring the counters back and grow the ring, then a removal, which leaves a
hole, a steal and two pops. -/
def workAtMax (p : PoolId) : List (PoolId × Call) :=
  [.push ⟨0⟩, .push ⟨1⟩, .push ⟨2⟩, .remove .foreign ⟨1⟩, .steal, .pop, .pop].map (Prod.mk p)

theorem callAll_refines_at_max : ∃ reports w,
    (start true true).run openAtMax = .ok (reports, w) ∧
      (∀ x ∈ workAtMax (.ofIndex 0), ∃ d, w.Live x.1 d) ∧
      (∀ x ∈ workAtMax (.ofIndex 0), x.2.Admissible w.units) ∧
      ∃ xs w', w.callAll (workAtMax (.ofIndex 0)) = .ok (xs, w') ∧
        w.Refined w' (workAtMax (.ofIndex 0)) xs ∧
        xs.map Deed.reply =
          [.stored, .stored, .stored, .taken ⟨1⟩, .taken ⟨0⟩, .taken ⟨2⟩, .missed] := by
  obtain ⟨reports, w, hrun, -⟩ := (sound_start true true).run openAtMax
  have hshown : ((start true true).run openAtMax).toOption.any (fun o =>
      (o.2.live? (.ofIndex 0)).isSome && (o.2.unit? ⟨0⟩).isSome && (o.2.unit? ⟨1⟩).isSome &&
        (o.2.unit? ⟨2⟩).isSome && (o.2.callAll (workAtMax (.ofIndex 0))).toOption.any fun o' =>
          decide (o'.1.map Deed.reply =
            [.stored, .stored, .stored, .taken ⟨1⟩, .taken ⟨0⟩, .taken ⟨2⟩, .missed])) = true := by
    decide +kernel
  rw [hrun] at hshown
  simp only [Except.toOption, Option.any_some, Bool.and_eq_true, Option.isSome_iff_exists]
    at hshown
  obtain ⟨⟨⟨⟨⟨d, hd⟩, e, he⟩, e', he'⟩, e'', he''⟩, hreplies⟩ := hshown
  have hpools : ∀ x ∈ workAtMax (.ofIndex 0), ∃ d, w.Live x.1 d := by
    intro x hx
    obtain ⟨call, _, rfl⟩ := List.mem_map.1 hx
    exact ⟨d, live?_eq_some.1 hd⟩
  have hunits : ∀ x ∈ workAtMax (.ofIndex 0), x.2.Admissible w.units := by
    simp [workAtMax, Call.Admissible, Call.unit?, registered_of_unit? he, registered_of_unit? he',
      registered_of_unit? he'']
  obtain ⟨xs, w', hcalls, hrefined⟩ := callAll_refines hrun hpools hunits
  rw [hcalls, Option.any_some, decide_eq_true_iff] at hreplies
  exact ⟨reports, w, hrun, hpools, hunits, xs, w', hcalls, hrefined, hreplies⟩

end World

end WorkStealing
