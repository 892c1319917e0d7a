import Mathlib.Data.List.Nodup
import WorkStealing.Proofs.Race.Turns

set_option autoImplicit false

/-!
# Races in order

What holds of a race after every step: the pool stands but for what the owner's call has pledged,
every thread is where it may be, and the units that were made are those handed out, those queued and
the one that the owner carries. A turn of any thread keeps all of it.
-/
namespace WorkStealing

/-- The units of the pool's table are the first `made` of a race, all registered, and no other pool
holds any. -/
structure Site.Hosts (s : Site) (made : Nat) : Prop where
  size : s.units.size = made
  identity : ∀ k < made, s.units.identity? ⟨k⟩ = some (.task ⟨k.toUInt64⟩, true)
  holder : ∀ u q, s.units.holder? u = some q → q = s.deque.id

/-- What a race comes to beyond its state: the pool without the reference that is lent, how many
units were made, what is lent and what the owner's call has pledged. -/
structure RaceGhost where
  site : Site
  made : Nat
  lent : Option UnitId
  pledge : Pledge

namespace RaceGhost

/-- The units that were made are accounted for, and so are the calls that were counted. -/
structure Account (g : RaceGhost) (received carried : List UnitId) : Prop where
  units : (received ++ (g.site.backlog g.pledge ++ carried)).Perm
    ((List.range g.made).map UnitId.mk)
  pushes : g.site.telemetry = true →
    g.site.deque.metrics.snapshot.pushes + carried.length = g.made
  extracted : g.site.telemetry = true →
    g.site.deque.metrics.snapshot.extracted = received.length

/-- From `g` to `g'` a thread moved and was handed `got`; the owner carried `carried` before and
`carried'` after it. -/
structure Leads (g : RaceGhost) (queued : Bool) (carried got : List UnitId) (g' : RaceGhost)
    (queued' : Bool) (carried' : List UnitId) : Prop where
  telemetry : g'.site.telemetry = g.site.telemetry
  lines : g.site.Lines queued g'.site queued'
  grew : g'.site.AlwaysGrew → g.site.AlwaysGrew
  account : g'.site.AlwaysGrew → ∀ received, g.Account received carried →
    g'.Account (got ++ received) carried'

end RaceGhost

namespace Site.Hosts

variable {s s' : Site} {made : Nat}

theorem frame (h : s.Hosts made) (hf : s.Frame s') : s'.Hosts made where
  size := hf.units.size.trans h.size
  identity k hk := (hf.units.identity _).trans (h.identity k hk)
  holder u q hq := by
    by_contra hne
    rw [hf.id] at hne
    exact hne (h.holder u q ((hf.units.holder u q hne).1 hq))

theorem registered (h : s.Hosts made) {k : Nat} (hk : k < made) : s.units.Registered ⟨k⟩ :=
  ⟨_, h.identity k hk⟩

theorem create (h : s.Hosts made) :
    (s.setUnits (s.units.create (.task ⟨made.toUInt64⟩)).2).Hosts (made + 1) where
  size := by
    rw [← h.size]
    exact Array.size_push _
  identity k hk := by
    change (s.units.create _).2.identity? ⟨k⟩ = _
    rw [UnitTable.identity?, UnitTable.find?_create]
    split
    · rename_i hnew
      have hnew' : k = made := hnew.trans h.size
      rw [hnew']
      rfl
    · rename_i hnew
      have hnew' : k ≠ made := fun hkm => hnew (hkm.trans h.size.symm)
      exact h.identity k (by omega)
  holder u q hq := by
    refine h.holder u q ?_
    rw [← hq]
    exact (UnitTable.holder?_create ..).symm

end Site.Hosts

theorem Site.Sound.create {s : Site} (h : s.Sound []) (kind : UnitKind) :
    (s.setUnits (s.units.create kind).2).Sound [] where
  deque := h.deque
  counted := h.counted.create kind
  nodup := h.nodup
  holder u := by
    change (s.units.create kind).2.holder? u = some s.deque.id ↔ _
    rw [UnitTable.holder?_create]
    exact h.holder u

namespace RaceGhost

variable {g g' : RaceGhost} {received carried carried' gave got : List UnitId}

theorem Account.trades (h : g.Account received carried)
    (ht : g.site.Trades g.pledge gave got g'.site g'.pledge) (hmade : g'.made = g.made)
    (hc : carried' ++ gave = carried) : g'.Account (got ++ received) carried' where
  units := by
    rw [hmade]
    refine List.Perm.trans ?_ h.units
    have hbalance := ht.balance
    subst hc
    rw [List.perm_iff_count] at hbalance ⊢
    intro u
    have hu := hbalance u
    simp only [List.count_append] at hu ⊢
    omega
  pushes htel := by
    have htel' := ht.telemetry ▸ htel
    have hpushes := h.pushes htel'
    rw [ht.pushes htel', hmade, ← hpushes, ← hc, List.length_append]
    omega
  extracted htel := by
    have htel' := ht.telemetry ▸ htel
    rw [ht.extracted htel', h.extracted htel', List.length_append, Nat.add_comm]

theorem Account.holder?_eq_none (h : g.Account received carried) (hs : g.site.Stands .none)
    (hpledge : g.pledge = .none) (hh : g.site.Hosts g.made) {u : UnitId} (hu : u ∈ carried) :
    g.site.units.holder? u = none := by
  cases hq : g.site.units.holder? u with
  | none => rfl
  | some q =>
    have hsound : g.site.Sound [] := hs.sound
    have hnodup : (received ++ (g.site.backlog g.pledge ++ carried)).Nodup := by
      refine h.units.nodup_iff.2 (List.Nodup.map ?_ List.nodup_range)
      intro m n hmn
      cases hmn
      rfl
    have hmem : u ∈ g.site.backlog g.pledge := by
      rw [hpledge]
      have hmem := (hsound.holder u).1 (hh.holder u q hq ▸ hq)
      rwa [List.append_nil] at hmem
    have hdisjoint := (List.nodup_append.1 (List.nodup_append.1 hnodup).2.1).2.2
    exact absurd rfl (hdisjoint u hmem u hu)

end RaceGhost

namespace RacePlan

variable {plan : RacePlan} {s : Site} {π : Pledge}

section Thief

theorem steal_advance_lends (lent : Option UnitId) :
    Ensures (Call.steal.advance .steal s) fun x =>
      Call.steal.advance .steal (s.lends lent) = .ok (x.1, x.2.lends lent) := by
  cases lent with
  | none => exact fun x hx => hx
  | some u => exact Call.steal_advance_beside s u

theorem steal_grant_lends (lent : Option UnitId) (ticket ahead : Nat) :
    Ensures (Call.steal.grant ticket ahead .steal s) fun x =>
      Call.steal.grant ticket ahead .steal (s.lends lent) = .ok (x.1, x.2.lends lent) := by
  cases lent with
  | none => exact fun x hx => hx
  | some u => exact Call.steal_grant_beside s u ticket ahead

theorem lends_deque (s : Site) (lent : Option UnitId) : (s.lends lent).deque = s.deque := by
  cases lent <;> rfl

theorem steals_next (ownerDone : Bool) (r : Reply) :
    RaceThread.Steals ⟨plan.next ownerDone .thieve r, .idle⟩ := by
  unfold next
  dsimp only
  split
  · exact .retired
  · exact .idle

structure Robs (s : Site) (π : Pledge) (queued : Bool) (got : List UnitId) (s' : Site)
    (queued' : Bool) : Prop where
  steps : s.Steps π .steal s' π
  trades : s.Trades π [] got s' π
  grew : s'.AlwaysGrew → s.AlwaysGrew
  lines : s.Lines queued s' queued'
  empty : s.deque.tail ≤ s.deque.head → s'.deque.tail ≤ s'.deque.head

theorem Robs.refl (h : s.Stands π) (queued : Bool) : Robs s π queued [] s queued :=
  ⟨.refl h _, .refl s π, fun hs => hs, rfl, fun he => he⟩

theorem steal_gave (flight : Flight) : flight.gave .steal = [] := by
  cases flight with
  | landed r => cases r <;> rfl
  | waiting => rfl

theorem steal_next_gave (next : Next FreeStage) : next.gave .steal = [] := by
  cases next with
  | reply r => cases r <;> rfl
  | go => rfl

variable (plan) in
theorem thief_advance (h : s.Stands π) (ownerDone : Bool) (lent : Option UnitId) :
    ∃ flight s', Call.steal.advance .steal (s.lends lent) = .ok (flight, s'.lends lent) ∧
      (plan.afterFlight ownerDone .thieve .steal flight).Steals ∧
      Robs s π false flight.got s'
        (plan.afterFlight ownerDone .thieve .steal flight).isQueued := by
  obtain ⟨flight, s', π', hrun, hcomes, hqueues⟩ := Site.resume_comes h (.steal π)
  obtain rfl : π' = π := hcomes.pledge
  have hworks := Call.steal.advance_works s .steal _ hrun
  have htrades := hcomes.trades hworks
  rw [steal_gave] at htrades
  refine ⟨flight, s', steal_advance_lends lent _ hrun, ?_, hcomes.steps, htrades,
    hworks.alwaysGrew, hqueues.lines plan ownerDone .thieve .steal,
    fun hempty => Call.steal_advance_empty hempty _ hrun⟩
  cases hcomes.fate with
  | landed => exact steals_next ownerDone _
  | waiting _ ha =>
    cases ha
    exact .queued _ _

variable (plan) in
theorem thief_grant (h : s.Stands π) {ticket : Nat} (hticket : s.deque.foreign.nowServing = ticket)
    (ahead : Nat) (ownerDone : Bool) (lent : Option UnitId) :
    ∃ next s', Call.steal.grant ticket ahead .steal (s.lends lent) = .ok (next, s'.lends lent) ∧
      (plan.afterGrant ownerDone .thieve .steal next).Steals ∧
      Robs s π true next.got s'
        (plan.afterGrant ownerDone .thieve .steal next).isQueued := by
  obtain ⟨next, s', π', hrun, hgrants⟩ :=
    Site.grant_comes h hticket .steal (by simp [Call.isOwner]) ahead
  obtain rfl := hgrants.pledge rfl
  have hworks := Call.steal.grant_works s ticket ahead .steal _ hrun
  have htrades := hgrants.trades hworks
  rw [steal_next_gave] at htrades
  refine ⟨next, s', steal_grant_lends lent ticket ahead _ hrun, ?_, hgrants.steps, htrades,
    hworks.alwaysGrew, hgrants.releases.lines plan ownerDone .thieve .steal next,
    fun hempty => Call.steal_grant_empty hempty _ hrun⟩
  cases hgrants with
  | lands => exact steals_next ownerDone _
  | cedes hcedes =>
    cases hcedes.resumes
    exact .ready

variable (plan) in
/-- A stealer's turn is over without a fault, and does little to the pool. -/
theorem thief_turn (h : s.Stands π) {th : RaceThread} (hth : th.Steals) (ownerDone : Bool)
    (lent : Option UnitId) :
    ∃ th' s' got, plan.turn ownerDone (s.lends lent) th = .ok (th', s'.lends lent, got) ∧
      th'.Steals ∧ Robs s π th.isQueued got s' th'.isQueued := by
  cases hth with
  | retired => exact ⟨_, s, [], rfl, .retired, .refl h _⟩
  | idle => exact ⟨_, s, [], rfl, .ready, .refl h _⟩
  | ready =>
    obtain ⟨flight, s', hrun, hsteals, hrobs⟩ := thief_advance plan h ownerDone lent
    refine ⟨_, s', _, ?_, hsteals, hrobs⟩
    simp only [turn, hrun, ok_bind, pure_eq_ok]
  | queued ticket ahead =>
    by_cases hticket : s.deque.foreign.nowServing = ticket
    · obtain ⟨next, s', hrun, hsteals, hrobs⟩ :=
        thief_grant plan h hticket ahead ownerDone lent
      refine ⟨_, s', _, ?_, hsteals, hrobs⟩
      have hserves : (s.lends lent).deque.foreign.serves ticket = true := by
        rw [lends_deque]
        exact decide_eq_true hticket
      simp only [turn, if_pos hserves, hrun, ok_bind, pure_eq_ok]
    · refine ⟨_, s, [], ?_, .queued ticket ahead, .refl h _⟩
      have hserves : ¬ (s.lends lent).deque.foreign.serves ticket = true := by
        rw [lends_deque]
        exact fun hs => hticket (of_decide_eq_true hs)
      simp only [turn, if_neg hserves, pure_eq_ok]

end Thief

section Owner

structure Holds (plan : RacePlan) (g : RaceGhost) (th : RaceThread) : Prop where
  stands : g.site.Stands g.pledge
  hosts : g.site.Hosts g.made
  owner : plan.Owner g.site g.made th g.lent g.pledge

variable {g : RaceGhost} {th : RaceThread} {duty : Duty} {call : Call} {ownerDone : Bool}

/-- The owner's turn is over without a fault, and leaves the race in order. -/
def Turns (plan : RacePlan) (ownerDone : Bool) (g : RaceGhost) (th : RaceThread) : Prop :=
  ∃ th' g' got, plan.turn ownerDone (g.site.lends g.lent) th =
      .ok (th', g'.site.lends g'.lent, got) ∧ plan.Holds g' th' ∧
    g.Leads th.isQueued th.carried got g' th'.isQueued th'.carried

theorem Turns.rest (h : plan.Holds g th)
    (hturn : plan.turn ownerDone (g.site.lends g.lent) th =
      .ok (th, g.site.lends g.lent, [])) : plan.Turns ownerDone g th :=
  ⟨th, g, [], hturn, h, rfl, rfl, fun hs => hs, fun _ _ ha => ha⟩

theorem turns_idle_pop (hs : g.site.Stands .none) (hh : g.site.Hosts g.made)
    (hlent : g.lent = none) (hpledge : g.pledge = .none) (hasks : plan.Asks g.made duty .pop) :
    plan.Turns ownerDone g ⟨duty, .idle⟩ := by
  refine ⟨⟨duty, .ready .pop (.popBack none)⟩, g, [], ?_, ⟨hpledge ▸ hs, hh, ?_⟩,
    rfl, rfl, fun hs => hs, fun _ _ ha => ha⟩
  · cases hasks <;> rfl
  · rw [hlent, hpledge]
    exact .running hasks .pop

theorem turns_idle_push (hs : g.site.Stands .none) (hh : g.site.Hosts g.made)
    (hlent : g.lent = none) (hpledge : g.pledge = .none) (hlt : g.made < plan.total.toNat) :
    plan.Turns ownerDone g ⟨.produce g.made, .idle⟩ := by
  obtain ⟨s, made, lent, π⟩ := g
  subst hlent hpledge
  have hsound : s.Sound [] := hs.sound
  have hcall : Race.callOf (.produce made) s =
      some (.push ⟨made⟩, s.setUnits (s.units.create (.task ⟨made.toUInt64⟩)).2) :=
    congrArg (fun n => some (Call.push ⟨n⟩, s.setUnits (s.units.create _).2)) hh.size
  have hfind : (s.units.create (.task ⟨made.toUInt64⟩)).2.find? ⟨made⟩ =
      some ⟨.new (.task ⟨made.toUInt64⟩), 1, true⟩ := by
    rw [UnitTable.find?_create, if_pos hh.size.symm]
  have hlaunch : (Call.push ⟨made⟩).launch
      (s.setUnits (s.units.create (.task ⟨made.toUInt64⟩)).2) = .ok (.push ⟨made⟩,
        (s.setUnits (s.units.create (.task ⟨made.toUInt64⟩)).2).lend ⟨made⟩) := by
    have hretain := UnitTable.retain_eq hfind Nat.one_pos
    simp only [Call.launch, Site.updateUnits, Site.setUnits, hretain, ok_bind, pure_eq_ok]
    rfl
  refine ⟨⟨.produce made, .ready (.push ⟨made⟩) (.push ⟨made⟩)⟩,
    ⟨s.setUnits (s.units.create (.task ⟨made.toUInt64⟩)).2, made + 1, some ⟨made⟩, .none⟩, [],
    ?_, ⟨.of_sound (hsound.create _), hh.create, .opening (.push rfl hlt)⟩,
    rfl, rfl, fun hs => hs, fun _ received ha => ?_⟩
  · simp only [turn, Site.lends, hcall, hlaunch, ok_bind, pure_eq_ok]
  · refine ⟨?_, fun htel => ?_, ha.extracted⟩
    · have hunits := ha.units
      change (received ++ (s.backlog .none ++ [])).Perm _ at hunits
      rw [List.append_nil] at hunits
      change (received ++ (s.backlog .none ++ [UnitId.mk made])).Perm
        ((List.range (made + 1)).map UnitId.mk)
      rw [List.range_succ, List.map_append, ← List.append_assoc]
      exact hunits.append_right _
    · have hpushes := ha.pushes htel
      change s.deque.metrics.snapshot.pushes + 0 = made at hpushes
      change s.deque.metrics.snapshot.pushes + 1 = made + 1
      omega

theorem turns_idle (h : plan.Holds g ⟨duty, .idle⟩) : plan.Turns ownerDone g ⟨duty, .idle⟩ := by
  obtain ⟨hs, hh, ho⟩ := h
  generalize hlent : g.lent = lent at ho
  generalize hpledge : g.pledge = π at ho
  cases ho with
  | idle hdue hempty =>
    rw [hpledge] at hs
    cases hdue with
    | produce hlt => exact turns_idle_push hs hh hlent hpledge hlt
    | interlude h hi => exact turns_idle_pop hs hh hlent hpledge (.interlude h hi)
    | drain h => exact turns_idle_pop hs hh hlent hpledge (.drain h)
    | retired h =>
      refine .rest ⟨hpledge ▸ hs, hh, ?_⟩ rfl
      rw [hlent, hpledge]
      exact .idle (.retired h) hempty

section Landing

variable {s' : Site} {π' : Pledge} {budget : Nat} {stage : Option LockedStage}

theorem holds_afterFlight (flight : Flight) (hh : g.site.Hosts g.made)
    (hasks : plan.Asks g.made duty call)
    (hcomes : g.site.Comes g.pledge call stage budget flight s' π')
    (hempty : call = .pop → flight = .landed .missed → s'.deque.tail ≤ s'.deque.head) :
    plan.Holds ⟨s', g.made, none, π'⟩ (plan.afterFlight ownerDone duty call flight) := by
  have hpledge := hcomes.pledge
  rw [hasks.isOwner, if_pos rfl] at hpledge
  refine ⟨hcomes.steps.stands, hh.frame hcomes.steps.frame, ?_⟩
  cases hcomes.fate with
  | @landed r =>
    subst hpledge
    obtain ⟨hdue, hretired⟩ := hasks.next ownerDone r
    refine .idle hdue fun hd => ?_
    obtain ⟨hcall, rfl⟩ := hretired hd
    exact hempty hcall rfl
  | waiting _ ha =>
    subst hpledge
    exact .waiting hasks ha

theorem carried_afterFlight (flight : Flight) {s : Site}
    (hcomes : s.Comes π call stage budget flight s' π')
    (hr : ∀ u, call = .push u → ∀ e, flight ≠ .landed (.refused e)) :
    (plan.afterFlight ownerDone duty call flight).carried ++ flight.gave call = call.pending := by
  cases hcomes.fate with
  | waiting => exact List.append_nil _
  | @landed r hb =>
    cases call with
    | push u =>
      have hanswers := hb.answers
      cases r with
      | stored => rfl
      | refused e => exact absurd rfl (hr u rfl e)
      | taken | missed => cases hanswers
    | pop | steal | remove => rfl

theorem leads_afterFlight {flight : Flight}
    (hcomes : g.site.Comes g.pledge call stage budget flight s' π')
    (hqueues : g.site.Queues flight s') (hworks : g.site.Works (flight.tally? call) s')
    (hr : s'.AlwaysGrew → ∀ received, g.Account received call.pending →
      ∀ u, call = .push u → ∀ e, flight ≠ .landed (.refused e)) (lent : Option UnitId) :
    g.Leads false call.pending flight.got ⟨s', g.made, lent, π'⟩
      (plan.afterFlight ownerDone duty call flight).isQueued
      (plan.afterFlight ownerDone duty call flight).carried where
  telemetry := hworks.telemetry
  lines := hqueues.lines plan ownerDone duty call
  grew := hworks.alwaysGrew
  account hs' received ha :=
    ha.trades (hcomes.trades hworks) rfl (carried_afterFlight flight hcomes (hr hs' received ha))

end Landing

theorem turns_opening {u : UnitId} (hs : g.site.Stands .none) (hh : g.site.Hosts g.made)
    (hlent : g.lent = some u) (hpledge : g.pledge = .none)
    (hasks : plan.Asks g.made duty (.push u)) :
    plan.Turns ownerDone g ⟨duty, .ready (.push u) (.push u)⟩ := by
  have hr : g.site.units.Registered u := by
    cases hasks with
    | push h => exact hh.registered (by omega)
  obtain ⟨e, he, hrefs⟩ := hs.counted.exists_entry hr
  have hlaunch : (Call.push u).launch g.site = .ok (.push u, g.site.lend u) := by
    simp only [Call.launch, Site.updateUnits, UnitTable.retain_eq he hrefs, ok_bind, pure_eq_ok]
    rfl
  have hc : (Call.push u).Admissible g.site.units := by
    rintro v ⟨⟩
    exact hr
  obtain ⟨o, hopen, hyields, hforeign⟩ := Site.opening_yields hs hc fun _ => rfl
  rw [Call.opening, hlaunch] at hopen
  change (FreeStage.push u).run (g.site.lend u) = .ok o at hopen
  obtain ⟨flight, s', π', hsettle, hcomes, hqueues⟩ := Site.settle_comes hyields rfl
  have hrun : (Call.push u).advance (.push u) (g.site.lend u) = .ok (flight, s') := by
    rw [Call.advance_eq, hopen]
    exact hsettle
  have hlend : g.site.Works none (g.site.lend u) := .of_same rfl rfl rfl
  have hworks := hlend.trans ((Call.push u).advance_works (g.site.lend u) (.push u) _ hrun)
  rw [← hpledge] at hcomes
  refine ⟨plan.afterFlight ownerDone duty (.push u) flight, ⟨s', g.made, none, π'⟩, flight.got,
    ?_, holds_afterFlight flight hh hasks hcomes (by simp),
    leads_afterFlight hcomes ?_ hworks (fun _ received ha v hv e => ?_) none⟩
  · rw [hlent]
    simp only [turn, Site.lends, hrun, ok_bind, pure_eq_ok]
  · cases flight with
    | landed | waiting =>
      rw [Site.Queues, hforeign] at hqueues
      exact hqueues
  · have hn := ha.holder?_eq_none hs hpledge hh (List.mem_singleton_self u)
    have hn' : (g.site.lend u).units.holder? u = none :=
      (UnitTable.holder?_retained ..).trans hn
    exact Call.advance_accepts _ (.push u) (.push u) ((g.site.lend u).push_accepts u hn') _ hrun e

theorem turns_running {free : FreeStage} (hs : g.site.Stands g.pledge)
    (hh : g.site.Hosts g.made) (hlent : g.lent = none) (hasks : plan.Asks g.made duty call)
    (hr : g.site.Resumes call free g.pledge) :
    plan.Turns ownerDone g ⟨duty, .ready call free⟩ := by
  obtain ⟨flight, s', π', hrun, hcomes, hqueues⟩ := Site.resume_comes hs hr
  have hworks := call.advance_works g.site free _ hrun
  refine ⟨plan.afterFlight ownerDone duty call flight, ⟨s', g.made, none, π'⟩, flight.got, ?_,
    holds_afterFlight flight hh hasks hcomes ?_,
    leads_afterFlight hcomes hqueues hworks (fun _ _ _ u hu e => ?_) none⟩
  · rw [hlent]
    simp only [turn, Site.lends, hrun, ok_bind, pure_eq_ok]
  · rintro rfl
    generalize hπ : g.pledge = π at hr
    cases hr with
    | pop => exact Call.pop_advance_missed (hπ ▸ hs) _ hrun
  · generalize hπ : g.pledge = π at hr
    cases hr with
    | place v =>
      exact Call.advance_accepts _ (.push v) (.place v) (g.site.place_accepts v) _ hrun e
    | pop | steal | scan => cases hu

theorem turns_waiting {ticket ahead : Nat} {locked : LockedStage} (hs : g.site.Stands g.pledge)
    (hh : g.site.Hosts g.made) (hlent : g.lent = none) (hpledge : g.pledge = locked.pledge)
    (hasks : plan.Asks g.made duty call) (ha : g.site.Awaits call locked) :
    plan.Turns ownerDone g ⟨duty, .queued call ticket ahead locked⟩ := by
  by_cases hticket : g.site.deque.foreign.nowServing = ticket
  · obtain ⟨next, s', π', hrun, hgrants⟩ :=
      Site.grant_comes hs hticket ha (fun _ => hpledge) ahead
    have hworks := call.grant_works g.site ticket ahead locked _ hrun
    have hserves : g.site.deque.foreign.serves ticket = true := decide_eq_true hticket
    refine ⟨plan.afterGrant ownerDone duty call next, ⟨s', g.made, none, π'⟩, next.got, ?_, ?_,
      hworks.telemetry, hgrants.releases.lines plan ownerDone duty call next, hworks.alwaysGrew,
      fun hgrew received haccount => haccount.trades (hgrants.trades hworks) rfl ?_⟩
    · rw [hlent]
      simp only [turn, Site.lends, if_pos hserves, hrun, ok_bind, pure_eq_ok]
    · cases hgrants with
      | lands hcomes =>
        refine holds_afterFlight (.landed _) hh hasks hcomes fun hcall hmissed => ?_
        subst hcall
        cases hmissed
        cases ha with
        | pop =>
          rw [hpledge] at hs
          -- an owner that waited for the last slot does not miss, so it does not retire here
          exact absurd rfl (Call.pop_grant_not_missed hs _ hrun)
      | cedes hcedes =>
        refine ⟨hcedes.steps.stands, hh.frame hcedes.steps.frame, .running hasks hcedes.resumes⟩
    · cases hgrants with
      | lands hcomes =>
        refine carried_afterFlight (.landed _) hcomes fun u hu e he => ?_
        subst hu
        cases he
        refine absurd hgrew (Call.grant_refused g.site u (.push u) ?_ _ hrun e rfl)
        cases ha with
        | rebase => exact .inl rfl
        | store => exact .inr rfl
      | cedes => exact List.append_nil _
  · have hserves : ¬ g.site.deque.foreign.serves ticket = true :=
      fun hs => hticket (of_decide_eq_true hs)
    refine .rest ⟨hs, hh, ?_⟩ ?_
    · rw [hlent, hpledge]
      exact .waiting hasks ha
    · rw [hlent]
      exact if_neg hserves

theorem owner_turn (h : plan.Holds g th) (ownerDone : Bool) : plan.Turns ownerDone g th := by
  obtain ⟨hs, hh, ho⟩ := h
  generalize hlent : g.lent = lent at ho
  generalize hpledge : g.pledge = π at ho
  cases ho with
  | idle hdue hempty => exact turns_idle ⟨hs, hh, by rw [hlent, hpledge]; exact .idle hdue hempty⟩
  | opening hasks => exact turns_opening (hpledge ▸ hs) hh hlent hpledge hasks
  | running hasks hr => exact turns_running hs hh hlent hasks (hpledge ▸ hr)
  | waiting hasks ha => exact turns_waiting hs hh hlent hpledge hasks ha

end Owner

end RacePlan

end WorkStealing
