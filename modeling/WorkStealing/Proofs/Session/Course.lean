import WorkStealing.Proofs.Session.Invariant

set_option autoImplicit false

/-!
# The course of a session

Between two steps of a session nothing is on its way. Within a step calls run one after the other,
and those that meet at a lock run in stretches. The course of a session lists the stretches in the
order in which they ran, each with the pool as it was before and after it. It is read off the
session's own functions.
-/
namespace WorkStealing

/-- A stretch of a call, from its start or from its turn in a line until it has landed or waits. -/
structure Leg where
  call : Call
  stage : Option LockedStage
  before : Site
  flight : Flight
  after : Site

inductive Beat where
  | leg (l : Leg)
  | reset (p : PoolId)

/-- The turns by which a line is served. -/
def Convoy.turns : Convoy → Nat → Site → List Beat
  | _, 0, _ => []
  | c, budget + 1, s =>
    match c.line with
    | [] => []
    | x :: line =>
      match x.call.turn x.ticket x.ahead x.stage s with
      | .ok (flight, s') =>
        .leg ⟨x.call, some x.stage, s, flight, s'⟩ :: (c.served x line flight).turns budget s'
      | .error _ => []

theorem Convoy.turns_cons {c : Convoy} {x : Waiter} {line : List Waiter} (h : c.line = x :: line)
    {s s' : Site} {flight : Flight}
    (hrun : x.call.turn x.ticket x.ahead x.stage s = .ok (flight, s')) (budget : Nat) :
    c.turns (budget + 1) s =
      .leg ⟨x.call, some x.stage, s, flight, s'⟩ :: (c.served x line flight).turns budget s' := by
  rw [turns, h]
  simp only [hrun]

namespace World

def thence {α : Type} (x : Checked (α × World)) (f : α → World → List Beat) : List Beat :=
  match x with
  | .ok (a, w) => f a w
  | .error _ => []

def callBeats (w : World) (p : PoolId) (call : Call) : List Beat :=
  match w.pool? p with
  | some d =>
    match call.start (w.site d) with
    | .ok (flight, s) => [.leg ⟨call, none, w.site d, flight, s⟩]
    | .error _ => []
  | none => []

def takeManyBeats (p : PoolId) (call : Call) : Nat → World → List Beat
  | 0, _ => []
  | times + 1, w =>
    w.callBeats p call ++ thence (w.take p call) fun _ w => takeManyBeats p call times w

def takeAllBeats (p : PoolId) (call : Call) : Nat → World → List Beat
  | 0, _ => []
  | times + 1, w =>
    w.callBeats p call ++ thence (w.take p call) fun u w =>
      if u.isSome then takeAllBeats p call times w else []

def pushManyBeats (p : PoolId) (type : UnitType) (first : UInt64) : Nat → World → List Beat
  | 0, _ => []
  | times + 1, w =>
    let (u, w) := w.createUnit (.ofRaw type first)
    w.callBeats p (.push u) ++ thence (w.pushOne p u) fun _ w =>
      pushManyBeats p type (first + 1) times w

def boardBeats (w : World) (c : Convoy) (bc : BoardingCall) : List Beat :=
  match w.resolve bc with
  | some (q, call) => if c.blocks call then [] else w.callBeats q call
  | none => []

def boardAllBeats (p : PoolId) : Convoy → World → List BoardingCall → List Beat
  | _, _, [] => []
  | c, w, bc :: calls =>
    w.boardBeats c bc ++ thence (boardAll p c w [bc]) fun c w => boardAllBeats p c w calls

def serveBeats (w : World) (p : PoolId) (c : Convoy) : List Beat :=
  match w.pool? p with
  | some d =>
    c.turns (Call.grantBudget c.line.length d.length) (Convoy.letGo (w.site d))
  | none => []

def convoyBeats (w : World) (p : PoolId) (calls : List BoardingCall) : List Beat :=
  thence (w.boundless.visit p fun s => do return ((), ← Convoy.hold s)) fun _ w =>
    boardAllBeats p .empty w calls ++
      thence (boardAll p .empty w calls) fun c w => w.serveBeats p c

/-- What a step does to the pools that are there. -/
def beats (w : World) : Op → List Beat
  | .push n u =>
    match w.owned? n, w.unit? u with
    | some p, some _ => w.callBeats p (.push u)
    | _, _ => []
  | .pushNew n kind =>
    let (u, w') := w.createUnit kind
    (w.owned? n).elim [] fun p => w'.callBeats p (.push u)
  | .pushMany n type first times =>
    (w.owned? n).elim [] fun p => pushManyBeats p type first times w
  | .pop n => (w.owned? n).elim [] fun p => w.callBeats p .pop
  | .steal n => (w.stolen? n).elim [] fun p => w.callBeats p .steal
  | .remove n u =>
    match w.handle? n, w.unit? u with
    | some k, some _ => w.callBeats k.pool (.remove k.side u)
    | _, _ => []
  | .popMany n times => (w.owned? n).elim [] fun p => takeManyBeats p .pop times w
  | .stealMany n times => (w.stolen? n).elim [] fun p => takeManyBeats p .steal times w
  | .popAll n =>
    (w.owned? n).elim [] fun p =>
      takeAllBeats p .pop (((w.pool? p).map Deque.length).getD 0 + 1) w
  | .stealAll n =>
    (w.stolen? n).elim [] fun p =>
      takeAllBeats p .steal (((w.pool? p).map Deque.length).getD 0 + 1) w
  | .resetMetrics n => (w.handle? n).elim [] fun k => [.reset k.pool]
  | .convoy n calls =>
    (w.owned? n).elim [] fun p => if calls.all w.knows then w.convoyBeats p calls else []
  | _ => []

def course (w : World) : List Op → List Beat
  | [] => []
  | op :: ops =>
    (if op.needsHooks && !w.hooks then [] else w.unlogged.beats op) ++
      thence (w.step op) fun _ w => w.course ops

end World

/-- How a stretch of a call comes about. -/
inductive Leg.Ran : Leg → Prop
  | alone {call : Call} {s s' : Site} {r : Reply} (sound : s.Sound []) (free : s.deque.Unlocked)
    (admissible : call.Admissible s.units) (run : call.perform s = .ok (r, s')) :
    Ran ⟨call, none, s, .landed r, s'⟩
  | boards {call : Call} {s s' : Site} {flight : Flight} {π π' : Pledge} {budget : Nat}
    (stands : s.Stands π) (held : s.deque.foreign.nowServing < s.deque.foreign.nextTicket)
    (admissible : call.Admissible s.units) (idle : call.isOwner = true → π = .none)
    (run : call.start s = .ok (flight, s'))
    (comes : s.Comes π call none budget flight s' π') : Ran ⟨call, none, s, flight, s'⟩
  /-- The call has waited, and it is its turn. -/
  | turns {c : Convoy} {x : Waiter} {line : List Waiter} {s s' : Site} {flight : Flight}
    {π π' : Pledge} {first budget : Nat} (sound : c.Sound s π first) (front : c.line = x :: line)
    (served : s.deque.foreign.nowServing = first)
    (run : x.call.turn x.ticket x.ahead x.stage s = .ok (flight, s'))
    (comes : s.Comes π x.call (some x.stage) budget flight s' π') :
    Ran ⟨x.call, some x.stage, s, flight, s'⟩

namespace World

/-- A way from one world to another along a list of beats. Pools are opened and closed on the way,
locks are taken and let go, and what is not in the pools changes, but nothing else. -/
inductive Path : World → List Beat → World → Prop
  | refl (w : World) : Path w [] w
  | leg {w v : World} {bs : List Beat} {l : Leg} {d : Deque} (way : Path w bs v)
    (live : v.Live d.id d) (start : l.before = v.site d) (ran : l.Ran) :
    Path w (bs ++ [.leg l]) (v.put l.after)
  | reset {w v : World} {bs : List Beat} {d : Deque} (way : Path w bs v) (live : v.Live d.id d) :
    Path w (bs ++ [.reset d.id]) (v.put (v.site d).resetMetrics)
  | locked {w v : World} {bs : List Beat} {d : Deque} {l : TicketLock Nat (List Ring)}
    (way : Path w bs v) (live : v.Live d.id d) (contents : l.contents = d.foreign.contents) :
    Path w bs (v.put ((v.site d).setForeign l))
  | opened {w v : World} {bs : List Beat} {config : PoolConfig} (start : Nat) (way : Path w bs v)
    (valid : config.validate = .ok ()) : Path w bs (v.opened config start)
  | closed {w v : World} {bs : List Beat} {d : Deque} (way : Path w bs v) (live : v.Live d.id d) :
    Path w bs (v.close (v.site d).ended)
  | aside {w v v' : World} {bs : List Beat} (way : Path w bs v)
    (telemetry : v'.telemetry = v.telemetry) (log : v'.log = v.log)
    (pools : v'.pools = v.pools) : Path w bs v'

namespace Path

variable {w v v' : World} {bs bs' : List Beat} {p : PoolId} {d : Deque}

theorem trans (h : w.Path bs v) (h' : v.Path bs' v') : w.Path (bs ++ bs') v' := by
  induction h' with
  | refl =>
    rw [List.append_nil]
    exact h
  | leg _ live start ran ih =>
    rw [← List.append_assoc]
    exact .leg ih live start ran
  | reset _ live ih =>
    rw [← List.append_assoc]
    exact .reset ih live
  | locked _ live contents ih => exact .locked ih live contents
  | opened start _ valid ih => exact .opened start ih valid
  | closed _ live ih => exact .closed ih live
  | aside _ telemetry log pools ih => exact .aside ih telemetry log pools

theorem ran (h : w.Path bs v) {l : Leg} (hl : .leg l ∈ bs) : l.Ran := by
  induction h with
  | refl => cases hl
  | leg _ live start ran ih =>
    rcases List.mem_append.1 hl with hl | hl
    · exact ih hl
    · cases List.mem_singleton.1 hl
      exact ran
  | reset _ live ih =>
    rcases List.mem_append.1 hl with hl | hl
    · exact ih hl
    · cases List.mem_singleton.1 hl
  | locked _ _ _ ih => exact ih hl
  | opened _ _ _ ih => exact ih hl
  | closed _ _ ih => exact ih hl
  | aside _ _ _ _ ih => exact ih hl

theorem of_leg {l : Leg} (hl : v.Live p d) (hs : l.before = v.site d) (hr : l.Ran) :
    v.Path [.leg l] (v.put l.after) := by
  obtain rfl := hl.2
  exact .leg (.refl v) hl hs hr

end Path

end World

end WorkStealing
