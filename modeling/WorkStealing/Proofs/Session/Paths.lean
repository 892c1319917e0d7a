import WorkStealing.Proofs.Session.Course
import WorkStealing.Proofs.Session.Gathering

set_option autoImplicit false

/-!
# Sessions along their course

Every step leads along the beats that are read off it. The session's functions are followed one by
one, and a convoy call by call and turn by turn.
-/
namespace WorkStealing

theorem Call.start_of_perform {call : Call} {s s' : Site} {r : Reply}
    (h : call.perform s = .ok (r, s')) : call.start s = .ok (.landed r, s') := by
  unfold perform at h
  cases hstart : call.start s with
  | error e =>
    rw [hstart] at h
    cases h
  | ok o =>
    obtain ⟨flight, x⟩ := o
    rw [hstart] at h
    cases flight with
    | landed r' =>
      cases h
      rfl
    | waiting => cases h

namespace World

section Calls

variable {w v v' : World} {busy : Option PoolId} {p : PoolId} {d : Deque} {call : Call}
  {bs bs' : List Beat}

theorem callBeats_eq (hl : w.Live p d) {flight : Flight} {s : Site}
    (hrun : call.start (w.site d) = .ok (flight, s)) :
    w.callBeats p call = [.leg ⟨call, none, w.site d, flight, s⟩] := by
  simp only [callBeats, hl.pool?_eq, hrun]

structure Treads (w : World) (p : PoolId) (bs : List Beat) (v : World) : Prop where
  sound : v.Sound none none
  continues : w.Continues p v
  way : w.Path bs v

theorem Treads.trans (h : w.Treads p bs v) (h' : v.Treads p bs' v') :
    w.Treads p (bs ++ bs') v' where
  sound := h'.sound
  continues := ⟨h'.continues.live, fun u =>
    (h'.continues.registered u).trans (h.continues.registered u)⟩
  way := h.way.trans h'.way

theorem Treads.refl (h : w.Sound none none) (hl : w.Live p d) : w.Treads p [] w :=
  ⟨h, ⟨⟨d, hl⟩, fun _ => Iff.rfl⟩, .refl w⟩

theorem Sound.perform_beats (h : w.Sound busy none) (hl : w.Live p d) (hp : busy ≠ some p)
    (hc : call.Admissible w.units) : ∃ r s, w.perform p call = .ok (r, w.put s) ∧
      (w.put s).Sound busy none ∧ w.Continues p (w.put s) ∧
      w.Path (w.callBeats p call) (w.put s) := by
  obtain ⟨hs, hu⟩ := h.site p d hl hp
  obtain ⟨s, hsite, hrun, hsound, hframe, -⟩ := h.perform_beside hl hp hc
  refine ⟨_, s, hrun, hsound, ⟨⟨s.deque, ?_⟩, fun _ => hframe.units.registered⟩, ?_⟩
  · exact (live_put hl (hframe.id.trans hl.2)).2 (.inl ⟨rfl, rfl⟩)
  · rw [callBeats_eq hl (Call.start_of_perform hsite)]
    exact .of_leg hl rfl (.alone hs hu hc hsite)

variable (h : w.Sound none none)

include h

theorem Sound.perform_treads (hl : w.Live p d) (hc : call.Admissible w.units) :
    Ensures (w.perform p call) fun o => w.Treads p (w.callBeats p call) o.2 := by
  obtain ⟨r, s, hrun, hsound, hcontinues, hway⟩ := h.perform_beats hl (by simp) hc
  rw [hrun]
  exact .ok ⟨hsound, hcontinues, hway⟩

theorem Sound.take_treads (hl : w.Live p d) (hc : call.Admissible w.units) :
    Ensures (w.take p call) fun o => w.Treads p (w.callBeats p call) o.2 :=
  .bind (h.perform_treads hl hc) fun _ ho => .bind (.trivial _) fun _ _ => .ok ho

theorem Sound.pushOne_treads (hl : w.Live p d) {u : UnitId} (hu : w.units.Registered u) :
    Ensures (w.pushOne p u) fun o => w.Treads p (w.callBeats p (.push u)) o.2 := by
  have hc : (Call.push u).Admissible w.units := by
    rintro v ⟨⟩
    exact hu
  refine .bind (h.perform_treads hl hc) ?_
  rintro ⟨r, v⟩ hv
  cases r <;> exact .ok hv

theorem Sound.takeMany_treads (hl : w.Live p d) (hc : call.Admissible w.units) (times : Nat) :
    Ensures (takeMany p call times w) fun o =>
      w.Treads p (takeManyBeats p call times w) o.2 := by
  induction times generalizing w d with
  | zero => exact .ok (.refl h hl)
  | succ times ih =>
    rintro ⟨us, x⟩ hx
    obtain ⟨⟨u, v⟩, htake, hx⟩ := Ensures.exists_of_bind hx
    obtain ⟨⟨us', v'⟩, hrest, hx⟩ := Ensures.exists_of_bind hx
    cases hx
    have hv := h.take_treads hl hc _ htake
    obtain ⟨e, he⟩ := hv.continues.live
    rw [takeManyBeats, htake]
    exact hv.trans (ih hv.sound he (hv.continues.admissible hc) (us', _) hrest)

theorem Sound.takeAll_treads (hl : w.Live p d) (hc : call.Admissible w.units) (times : Nat) :
    Ensures (takeAll p call times w) fun o =>
      w.Treads p (takeAllBeats p call times w) o.2 := by
  induction times generalizing w d with
  | zero => exact .error _ _
  | succ times ih =>
    rintro ⟨us, x⟩ hx
    obtain ⟨⟨u, v⟩, htake, hx⟩ := Ensures.exists_of_bind hx
    have hv := h.take_treads hl hc _ htake
    obtain ⟨e, he⟩ := hv.continues.live
    rw [takeAllBeats, htake]
    cases u with
    | none =>
      cases hx
      exact hv.trans (.refl hv.sound he)
    | some u =>
      obtain ⟨⟨us', v'⟩, hrest, hx⟩ := Ensures.exists_of_bind hx
      cases hx
      exact hv.trans (ih hv.sound he (hv.continues.admissible hc) (us', _) hrest)

theorem Sound.createUnit (kind : UnitKind) : (w.createUnit kind).2.Sound none none :=
  h.congr rfl rfl (h.counted.create kind) fun _ => UnitTable.holder?_create ..

theorem Sound.pushMany_path (hl : w.Live p d) (type : UnitType) (first : UInt64) (times : Nat) :
    Ensures (pushMany p type first times w) fun o =>
      w.Path (pushManyBeats p type first times w) o.2 := by
  induction times generalizing w d first with
  | zero => exact .ok (.refl w)
  | succ times ih =>
    rintro ⟨es, x⟩ hx
    obtain ⟨⟨e?, v⟩, hpush, hx⟩ := Ensures.exists_of_bind hx
    obtain ⟨⟨es', v'⟩, hrest, hx⟩ := Ensures.exists_of_bind hx
    cases hx
    have hpush : (w.createUnit (.ofRaw type first)).2.pushOne p
      (w.createUnit (.ofRaw type first)).1 = .ok (e?, v) := hpush
    have hv := (h.createUnit (.ofRaw type first)).pushOne_treads (p := p) (d := d) hl
      (UnitTable.registered_create w.units (.ofRaw type first)) _ hpush
    obtain ⟨e, he⟩ := hv.continues.live
    have hfirst : w.Path [] (w.createUnit (.ofRaw type first)).2 := .aside (.refl w) rfl rfl rfl
    rw [pushManyBeats]
    dsimp only
    rw [hpush]
    exact hfirst.trans (hv.way.trans (ih hv.sound he (first + 1) (es', _) hrest))

end Calls

section Convoys

variable {w₀ w v : World} {p : PoolId} {d e : Deque} {c : Convoy} {π : Pledge}
  {calls : List BoardingCall}

theorem Boards.path (h : Boarding w₀ w p d c π) {bc : BoardingCall} (hready : w₀.Ready bc)
    {c' : Convoy} {w' : World} {d' : Deque} {π' : Pledge}
    (hb : w.Boards p d c π bc c' w' d' π') : w.Path (w.boardBeats c bc) w' := by
  cases hb with
  | bar hblocks =>
    have hnone : w.boardBeats c bc = [] := by
      rw [boardBeats]
      cases hr : w.resolve bc with
      | none => rfl
      | some o => exact if_pos (hblocks o.1 o.2 hr)
    rw [hnone]
    exact .refl w
  | own hr hfree hrun hcomes =>
    simp only [boardBeats, hr, hfree, Bool.false_eq_true, if_false, callBeats_eq h.live hrun]
    exact .of_leg h.live rfl (.boards h.convoy.lined.stands (h.convoy.locked rfl)
      (h.admissible hready hr) (h.convoy.idle hfree) hrun hcomes)
  | beside hr hq hfree hrun =>
    obtain ⟨x, hx, hxq⟩ := exists_handle_of_resolve hr
    obtain ⟨e, he⟩ := h.world.handle x hx
    rw [hxq] at he
    obtain ⟨r, s, hrun', -, -, hway⟩ := h.world.perform_beats he
      (fun heq => hq (Option.some.inj heq).symm) (h.admissible hready hr)
    have hput := (Prod.mk.inj (Except.ok.inj (hrun'.symm.trans hrun))).2
    simp only [boardBeats, hr, hfree, Bool.false_eq_true, if_false, ← hput]
    exact hway

theorem Boarding.boardAll_path (h : Boarding w₀ w p d c π) (hready : ∀ bc ∈ calls, w₀.Ready bc) :
    Ensures (World.boardAll p c w calls) fun o => w.Path (boardAllBeats p c w calls) o.2 := by
  induction calls generalizing w d c π with
  | nil => exact .ok (.refl w)
  | cons bc calls ih =>
    have hbc := hready bc List.mem_cons_self
    obtain ⟨c', w', d', π', hstep, hb, hboards⟩ := h.boards hbc
    have hrest := ih hb fun x hx => hready x (List.mem_cons_of_mem bc hx)
    have hone : World.boardAll p c w [bc] = .ok (c', w') := hstep []
    rw [hstep, boardAllBeats, hone]
    exact hrest.mono fun _ ho => (hboards.path h hbc).trans ho

theorem turns_path (hl : v.Live p e) {s : Site} {first : Nat} (hc : c.Sound s π first)
    (hnow : s.deque.foreign.nowServing = first) (hid : s.deque.id = p) (budget : Nat) :
    Ensures (Convoy.serve budget c s) fun o =>
      (v.put s).Path (c.turns budget s) (v.put o.2) := by
  induction budget generalizing c s π first with
  | zero =>
    rw [Convoy.serve]
    cases c.line with
    | nil => exact .ok (.refl _)
    | cons => exact .error _ _
  | succ budget ih =>
    cases hline : c.line with
    | nil =>
      rw [Convoy.serve, Convoy.turns, hline]
      exact .ok (.refl _)
    | cons x line =>
      obtain ⟨_, flight, s', π', hrun, hcomes, hsound, hnow', -⟩ := hc.turn hnow hline
      have hid' : s'.deque.id = p := hcomes.steps.frame.id.trans hid
      have hway : (v.put s).Path [.leg ⟨x.call, some x.stage, s, flight, s'⟩] (v.put s') := by
        rw [← show (v.put s).put s' = v.put s' from put_put v (hid'.trans hid.symm)]
        exact .of_leg ((live_put hl hid).2 (.inl ⟨rfl, rfl⟩)) rfl
          (.turns hc hline hnow hrun hcomes)
      rw [Convoy.serve_cons hline, Convoy.turns_cons hline hrun, hrun]
      exact (ih hsound hnow' hid').mono fun _ ho => hway.trans ho

theorem Convoyed.path {w' : World} {s : Site} {results : List CallResult}
    (h : w.Convoyed w' p d c s calls results) (hw : w.Sound none none)
    (hready : ∀ bc ∈ calls, w.Ready bc) :
    w.Path (w.convoyBeats p calls) { w'.put s with limit := w.limit } := by
  obtain ⟨e, c₀, π, hl, hboard, hb, hfinish⟩ := h.boarded
  have hhold := hw.boundless.visit_hold hl
  obtain rfl := hl.2
  have hheld : w.Path [] (w.boundless.put (w.boundless.site e).held) :=
    .locked (.aside (.refl w) rfl rfl rfl) hl rfl
  have hboarding : (w.boundless.put (w.boundless.site e).held).Path _ w' :=
    (hw.boundless.boarding hl).boardAll_path hready _ hboard
  have hreleased : w'.Path [] (w'.put (w'.site d).released) := by
    have hl' := hb.live
    rw [← hl'.2] at hl'
    exact .locked (.refl w') hl' rfl
  have hturns := turns_path hb.live hb.convoy.released rfl hb.live.2 _ _ hfinish
  have hlimit : (w'.put s).Path [] { w'.put s with limit := w.limit } :=
    .aside (.refl _) rfl rfl rfl
  have hway := hheld.trans (hboarding.trans (hreleased.trans (hturns.trans hlimit)))
  rw [convoyBeats, hhold]
  simp only [thence, hboard, serveBeats, hb.live.pool?_eq]
  rw [List.append_nil] at hway
  exact hway

end Convoys

section Handles

variable {w : World} {p : PoolId} {d : Deque} {loose : Option PoolId}

theorem Sound.settlePool_path (h : w.Sound none (some p)) (hl : w.Live p d) :
    Ensures (w.settlePool p) (w.Path []) := by
  rw [(settlePool_eq h hl).1]
  obtain rfl := hl.2
  refine .ok ?_
  unfold settled
  split
  · exact .refl w
  · exact .closed (.refl w) hl

theorem Sound.dropHandle_path (h : w.Sound none none) {n : Nat} {k : PoolHandle}
    (hk : w.handle? n = some k) : Ensures (w.dropHandle n) (w.Path []) := by
  obtain ⟨d, hl⟩ := h.live_of_handle? hk
  have hfirst : w.Path [] { w with handles := w.handles.filter (·.1 ≠ n) } :=
    .aside (.refl w) rfl rfl rfl
  rw [World.dropHandle, hk]
  exact ((h.dropped hk).settlePool_path (d := d) hl).mono fun _ hv => hfirst.trans hv

theorem Sound.bind_path (h : w.Sound none loose) {k : PoolHandle} (hl : w.Live k.pool d)
    (hloose : ∀ p, loose = some p → p = k.pool) (n : Nat) :
    Ensures (w.bind n k) (w.Path []) := by
  have hbound := h.bound (n := n) hl hloose
  have hfirst : w.Path [] (w.bound n k) := .aside (.refl w) rfl rfl rfl
  rw [World.bind]
  cases hold : w.handle? n with
  | none => exact .ok hfirst
  | some old =>
    rw [hold] at hbound
    obtain ⟨e, he⟩ := h.live_of_handle? hold
    exact (hbound.settlePool_path (d := e) he).mono fun _ hv => hfirst.trans hv

theorem Sound.openPool_path (h : w.Sound none none) (n : Nat) (config : PoolConfig) {start : Nat}
    (hs : start ≤ Word.max) : Ensures (w.openPool n config start) fun o => w.Path [] o.2 := by
  cases hv : config.validate with
  | error problem =>
    rw [World.openPool, hv]
    exact .ok (.refl w)
  | ok _ =>
    rw [openPool_eq w hv]
    split
    · refine .bind ((h.opened hv hs).bind_path (k := ⟨.owner, .ofIndex w.pools.size⟩)
        (live_opened.2 (.inl ⟨rfl, rfl⟩)) (fun p hp => (Option.some.inj hp).symm) n) ?_
      exact fun v hway => .ok ((Path.opened start (.refl w) hv).trans hway)
    · exact .ok (.refl w)

end Handles

section Steps

variable {w : World} {op : Op}

def Leads (w : World) (op : Op) (x : Checked (Answer × World)) : Prop :=
  Ensures x fun o => w.Path (w.beats op) o.2

theorem leads_of_nil (hop : w.beats op = []) {x : Checked (Answer × World)}
    (hx : Ensures x fun o => w.Path [] o.2) : w.Leads op x :=
  hx.mono fun _ ho => by
    rw [hop]
    exact ho

theorem leads_refuse (hop : w.beats op = []) : w.Leads op w.refuse :=
  leads_of_nil hop (.ok (.refl w))

theorem leads_still (hop : w.beats op = []) (a : Answer) : w.Leads op (.ok (a, w)) :=
  leads_of_nil hop (.ok (.refl w))

theorem Sound.leads_owned {f : PoolId → Checked (Answer × World)} {g : PoolId → List Beat}
    (h : w.Sound none none) (n : Nat) (hop : w.beats op = (w.owned? n).elim [] g)
    (hf : ∀ p d, w.owned? n = some p → w.Live p d → Ensures (f p) fun o => w.Path (g p) o.2) :
    w.Leads op (match w.owned? n with | some p => f p | none => w.refuse) := by
  cases ho : w.owned? n with
  | some p =>
    obtain ⟨d, hl⟩ := h.live_of_handle? (handle?_of_owned? ho)
    rw [Leads, hop, ho]
    exact hf p d ho hl
  | none => exact leads_refuse (by rw [hop, ho]; rfl)

theorem Sound.leads_stolen {f : PoolId → Checked (Answer × World)} {g : PoolId → List Beat}
    (h : w.Sound none none) (n : Nat) (hop : w.beats op = (w.stolen? n).elim [] g)
    (hf : ∀ p d, w.stolen? n = some p → w.Live p d → Ensures (f p) fun o => w.Path (g p) o.2) :
    w.Leads op (match w.stolen? n with | some p => f p | none => w.refuse) := by
  cases ho : w.stolen? n with
  | some p =>
    obtain ⟨d, hl⟩ := h.live_of_handle? (handle?_of_stolen? ho)
    rw [Leads, hop, ho]
    exact hf p d ho hl
  | none => exact leads_refuse (by rw [hop, ho]; rfl)

theorem Sound.leads_handle {f : PoolHandle → Checked (Answer × World)} {g : PoolHandle → List Beat}
    (h : w.Sound none none) (n : Nat) (hop : w.beats op = (w.handle? n).elim [] g)
    (hf : ∀ k d, w.handle? n = some k → w.Live k.pool d →
      Ensures (f k) fun o => w.Path (g k) o.2) :
    w.Leads op (match w.handle? n with | some k => f k | none => w.refuse) := by
  cases hk : w.handle? n with
  | some k =>
    obtain ⟨d, hl⟩ := h.live_of_handle? hk
    rw [Leads, hop, hk]
    exact hf k d hk hl
  | none => exact leads_refuse (by rw [hop, hk]; rfl)

theorem nil_eq_elim {α : Type} (o : Option α) : ([] : List Beat) = o.elim [] fun _ => [] := by
  cases o <;> rfl

theorem admissible_of_none {call : Call} (hc : call.unit? = none) : call.Admissible w.units := by
  intro u hu
  rw [hc] at hu
  cases hu

theorem Sound.leads_act (h : w.Sound none none) (op : Op) : w.Leads op (w.act op) := by
  cases op with
  | createUnit kind => exact leads_of_nil rfl (.ok (.aside (.refl w) rfl rfl rfl))
  | unitInfo u =>
    rw [World.act]
    cases w.unit? u with
    | some e => exact leads_still rfl _
    | none => exact leads_refuse rfl
  | whereabouts => exact leads_still rfl _
  | clearUnit u =>
    rw [World.act]
    cases w.units.find? u with
    | some e =>
      exact leads_of_nil rfl (.bind (.trivial _) fun _ _ => .ok (.aside (.refl w) rfl rfl rfl))
    | none => exact leads_refuse rfl
  | new n capacity name =>
    refine leads_of_nil rfl (.bind (h.openPool_path n _ (Nat.zero_le _)) ?_)
    rintro ⟨opened, v⟩ hv
    cases opened <;> exact .ok hv
  | newAt n capacity start =>
    refine leads_of_nil rfl (.bind (h.openPool_path n _ (start_le start)) ?_)
    rintro ⟨opened, v⟩ hv
    cases opened <;> exact .ok hv
  | limit slots => exact leads_of_nil rfl (.ok (.aside (.refl w) rfl rfl rfl))
  | stealer n owner =>
    refine h.leads_owned owner (nil_eq_elim _) fun p d _ hl => ?_
    exact .bind (h.bind_path (k := ⟨.foreign, p⟩) hl (by simp) n) fun _ hv => .ok hv
  | clone n stealer =>
    refine h.leads_stolen stealer (nil_eq_elim _) fun p d _ hl => ?_
    exact .bind (h.bind_path (k := ⟨.foreign, p⟩) hl (by simp) n) fun _ hv => .ok hv
  | drop n =>
    refine h.leads_handle n (nil_eq_elim _) fun k d hk _ => ?_
    exact .bind (h.dropHandle_path hk) fun _ hv => .ok hv
  | push n u =>
    rw [Leads, World.act, beats]
    cases ho : w.owned? n with
    | none => exact .ok (.refl w)
    | some p =>
      cases hu : w.unit? u with
      | none => exact .ok (.refl w)
      | some e =>
        obtain ⟨d, hl⟩ := h.live_of_handle? (handle?_of_owned? ho)
        refine .bind (h.pushOne_treads hl (registered_of_unit? hu)) ?_
        rintro ⟨e?, v⟩ hv
        cases e? <;> exact .ok hv.way
  | pushNew n kind =>
    refine h.leads_owned n rfl fun p d ho hl => ?_
    have hfirst : w.Path [] (w.createUnit kind).2 := .aside (.refl w) rfl rfl rfl
    refine .bind ((h.createUnit kind).pushOne_treads (d := d) hl
      (UnitTable.registered_create w.units kind)) ?_
    rintro ⟨e?, v⟩ hv
    cases e? <;> exact .ok (hfirst.trans hv.way)
  | pushMany n type first times =>
    refine h.leads_owned n rfl fun p d _ hl => ?_
    exact .bind (h.pushMany_path hl type first times) fun _ hv => .ok hv
  | pop n =>
    refine h.leads_owned n rfl fun p d _ hl => ?_
    exact .bind (h.take_treads hl (admissible_of_none rfl)) fun _ hv => .ok hv.way
  | steal n =>
    refine h.leads_stolen n rfl fun p d _ hl => ?_
    exact .bind (h.take_treads hl (admissible_of_none rfl)) fun _ hv => .ok hv.way
  | remove n u =>
    rw [Leads, World.act, beats]
    cases hk : w.handle? n with
    | none => exact .ok (.refl w)
    | some k =>
      cases hu : w.unit? u with
      | none => exact .ok (.refl w)
      | some e =>
        obtain ⟨d, hl⟩ := h.live_of_handle? hk
        have hc : (Call.remove k.side u).Admissible w.units := by
          rintro v ⟨⟩
          exact registered_of_unit? hu
        exact .bind (h.take_treads hl hc) fun _ hv => .ok hv.way
  | popMany n times =>
    refine h.leads_owned n rfl fun p d _ hl => ?_
    exact .bind (h.takeMany_treads hl (admissible_of_none rfl) times) fun _ hv => .ok hv.way
  | stealMany n times =>
    refine h.leads_stolen n rfl fun p d _ hl => ?_
    exact .bind (h.takeMany_treads hl (admissible_of_none rfl) times) fun _ hv => .ok hv.way
  | popAll n =>
    refine h.leads_owned n rfl fun p d _ hl => ?_
    exact .bind (h.takeAll_treads hl (admissible_of_none rfl) _) fun _ hv => .ok hv.way
  | stealAll n =>
    refine h.leads_stolen n rfl fun p d _ hl => ?_
    exact .bind (h.takeAll_treads hl (admissible_of_none rfl) _) fun _ hv => .ok hv.way
  | info n =>
    refine h.leads_handle n (nil_eq_elim _) fun k d _ hl => ?_
    rw [hl.pool?_eq]
    exact .ok (.refl w)
  | compareIds m n =>
    rw [World.act]
    cases w.handle? m with
    | none => exact leads_refuse rfl
    | some j =>
      cases w.handle? n with
      | none => exact leads_refuse rfl
      | some k => exact leads_still rfl _
  | samePool m n =>
    rw [World.act]
    cases w.stolen? m with
    | none => exact leads_refuse rfl
    | some p =>
      cases w.owned? n with
      | none => exact leads_refuse rfl
      | some q => exact leads_still rfl _
  | metrics n =>
    refine h.leads_handle n (nil_eq_elim _) fun k d _ hl => ?_
    rw [hl.pool?_eq]
    exact .ok (.refl w)
  | resetMetrics n =>
    refine h.leads_handle n rfl fun k d hk hl => ?_
    rw [visit_eq (f := fun s => return ((), s.resetMetrics)) hl rfl hl.2]
    have hlive : w.Live d.id d := hl.2.symm ▸ hl
    have hway := Path.reset (.refl w) hlive
    rw [hl.2] at hway
    exact .ok hway
  | convoy n calls =>
    refine h.leads_owned n rfl fun p d ho hl => ?_
    dsimp only
    split
    · rename_i hknows
      have hready : ∀ bc ∈ calls, w.Ready bc := fun bc hbc =>
        ready_of_knows (List.all_eq_true.1 hknows bc hbc)
      obtain ⟨v, e, c, s, results, hc⟩ := h.exists_convoyed hl hready
      rw [hc.run]
      exact .ok (hc.path h hready)
    · exact .ok (.refl w)
  | unknown n => exact leads_refuse rfl

theorem Sound.step_path (h : w.Sound none none) (op : Op) : Ensures (w.step op) fun o =>
    w.unlogged.Path (if op.needsHooks && !w.hooks then [] else w.unlogged.beats op) o.2 := by
  have hu : w.unlogged.Sound none none := h.congr rfl rfl h.counted fun _ => rfl
  rw [step_eq]
  refine .bind ?_ fun _ ho => .ok ho
  rw [answer]
  have hhooks : w.unlogged.hooks = w.hooks := rfl
  rw [hhooks]
  split
  · exact .ok (.refl _)
  · exact hu.leads_act op

end Steps

end World

end WorkStealing
