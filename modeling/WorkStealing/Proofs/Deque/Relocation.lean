import WorkStealing.Deque.Site
import WorkStealing.Proofs.Deque.Steady
import WorkStealing.Proofs.Ring.Growth

set_option autoImplicit false

/-!
# Growth of any ring

A pool keeps its ring well formed, but what growth does to the slots needs less: a power of two of
slots, be it one, a head anywhere, at the end of the machine word too, and a window no longer than
the ring. Either all slots of the window move, or the pool keeps the ring as it was.
-/
namespace WorkStealing.Site

variable {s : Site}

/-- The window of `count` slots moved to the front of a ring of twice the capacity, and the ring
that it left is kept among the replaced ones. -/
structure Regrown (s : Site) (count : Nat) (g : Ring.Growth) (s' : Site) : Prop where
  ring_grow : s.deque.ring.grow s.limit s.deque.head count = .ok (.ok g)
  grow : s.grow count = .ok (none, s')
  relocated : Ring.Relocated s.deque.ring s.deque.head count g
  ring_eq : s'.deque.ring = g.grown
  replaced : s'.deque.foreign.contents = g.emptied :: s.deque.foreign.contents
  head_eq : s'.deque.head = 0
  tail_eq : s'.deque.tail = count

/-- No larger ring could be had, and nothing of the pool has changed. -/
structure Spared (s : Site) (count requested : Nat) (s' : Site) : Prop where
  ring_grow : s.deque.ring.grow s.limit s.deque.head count =
    .ok (.error (.resourceExhausted requested))
  grow : s.grow count = .ok (some (.resourceExhausted requested), s')
  deque_eq : s'.deque = s.deque

/-- Whether a ring of twice the capacity can be had: its size is a machine word, and it can be
allocated. -/
def Spacious (s : Site) : Prop :=
  2 * s.deque.ring.capacity < Word.count ∧
    ∃ fresh, Ring.allocate s.limit (2 * s.deque.ring.capacity) = .ok (.ok fresh)

/-- The size that is asked for, as far as a machine word can say it. -/
def requested (s : Site) : Nat :=
  if Word.count ≤ 2 * s.deque.ring.capacity then Word.max else 2 * s.deque.ring.capacity

theorem spacious_iff (h : s.deque.ring.Regular) :
    s.Spacious ↔ Ring.fits s.limit (2 * s.deque.ring.capacity) = true := by
  rw [Spacious, h.allocate_double]
  constructor
  · rintro ⟨_, fresh, hfresh⟩
    cases hfits : Ring.fits s.limit (2 * s.deque.ring.capacity) with
    | false => simp [hfits] at hfresh
    | true => rfl
  · intro hfits
    have hmax := Ring.le_maxSlots_of_fits hfits
    exact ⟨Ring.lt_wordCount (by omega), _, by rw [if_pos hfits]⟩

theorem regrown_of_grow {count : Nat} {g : Ring.Growth}
    (hgrow : s.deque.ring.grow s.limit s.deque.head count = .ok (.ok g))
    (hg : Ring.Relocated s.deque.ring s.deque.head count g) : ∃ s', s.Regrown count g s' := by
  obtain ⟨m, hm⟩ := exists_tally { s.emit (.grew s.deque.id s.deque.name s.deque.capacity
      g.grown.capacity count) with
    deque := { s.deque with
      ring := g.grown, foreign := s.deque.foreign.modify (g.emptied :: ·), head := 0,
      tail := count } } .resize
  refine ⟨_, hgrow, ?_, hg, congrArg (·.deque.ring) hm, congrArg (·.deque.foreign.contents) hm,
    congrArg (·.deque.head) hm, congrArg (·.deque.tail) hm⟩
  simp only [grow, hgrow, ok_bind, pure_eq_ok]
  rfl

theorem spared_of_grow {count n : Nat}
    (hgrow : s.deque.ring.grow s.limit s.deque.head count = .ok (.error (.resourceExhausted n))) :
    ∃ s', s.Spared count n s' := by
  refine ⟨s.emit (.growthFailed s.deque.id s.deque.capacity (.resourceExhausted n)), hgrow, ?_, rfl⟩
  simp only [grow, hgrow, ok_bind, pure_eq_ok]

/-- A ring that has to grow hands over the slots of its window, each to its place, holes included,
or is left alone; which of the two it is depends on the larger ring only. -/
theorem grow_relocates (h : s.deque.ring.Regular) (count : Nat)
    (hcount : count ≤ s.deque.ring.capacity) :
    (s.Spacious → ∃ g s', s.Regrown count g s') ∧
      (¬ s.Spacious → ∃ s', s.Spared count s.requested s') := by
  rw [spacious_iff h]
  rcases h.grow_eq s.limit s.deque.head hcount with ⟨hfits, hgrow⟩ | ⟨hfits, g, hgrow, hg⟩
  · rw [hfits]
    exact ⟨fun hspacious => absurd hspacious (by decide), fun _ => spared_of_grow hgrow⟩
  · rw [hfits]
    exact ⟨fun _ => ⟨g, regrown_of_grow hgrow hg⟩, fun hnot => absurd rfl hnot⟩

/-- Four slots with the head two short of the end of the machine word. The window of three takes the
slots two, three, which is a hole, and zero. -/
def wrapping (limit : Option Nat) : Site where
  units := .empty
  limit := limit
  telemetry := true
  log := #[]
  deque :=
    { id := .ofIndex 0, name := none, head := Word.max - 1, tail := Word.max,
      ring := ⟨#[some ⟨2⟩, some ⟨9⟩, some ⟨1⟩, none], 3⟩, foreign := .startingAt 0 [],
      metrics := .new }

theorem grow_relocates_wrapping :
    (∃ (g : Ring.Growth) (s' : Site), (wrapping none).grow 3 = .ok (none, s') ∧
      s'.deque.ring = g.grown ∧
      (List.range 8).map (g.grown.slots[·]?) =
        [some (some ⟨1⟩), some none, some (some ⟨2⟩), some none, some none, some none, some none,
          some none] ∧
      (List.range 4).map (g.emptied.slots[·]?) =
        [some none, some (some ⟨9⟩), some none, some none]) ∧
    ∃ s', (wrapping (some 4)).grow 3 = .ok (some (.resourceExhausted 8), s') ∧
      s'.deque = (wrapping (some 4)).deque := by
  have hregular (limit : Option Nat) : (wrapping limit).deque.ring.Regular := ⟨⟨2, rfl⟩, rfl⟩
  constructor
  · have hspacious : (wrapping none).Spacious := (spacious_iff (hregular none)).2 (by decide)
    obtain ⟨g, s', hg⟩ := (grow_relocates (hregular none) 3 (by decide)).1 hspacious
    refine ⟨g, s', hg.grow, hg.ring_eq, ?_, ?_⟩
    · have hslots (k : Nat) (hk : k ∈ List.range 8) := hg.relocated.slot k (List.mem_range.1 hk)
      exact (List.map_congr_left hslots).trans (by decide)
    · have htwo : g.emptied.slots[2]? = some none := hg.relocated.slot_moved 0 (by decide)
      have hthree : g.emptied.slots[3]? = some none := hg.relocated.slot_moved 1 (by decide)
      have hzero : g.emptied.slots[0]? = some none := hg.relocated.slot_moved 2 (by decide)
      have hone : g.emptied.slots[1]? = some (some ⟨9⟩) := hg.relocated.slot_kept 1 (by decide)
      simp [List.range_succ, hzero, hone, htwo, hthree]
  · have hnot : ¬ (wrapping (some 4)).Spacious := by
      rw [spacious_iff (hregular (some 4))]
      decide
    obtain ⟨s', hs'⟩ := (grow_relocates (hregular (some 4)) 3 (by decide)).2 hnot
    exact ⟨s', hs'.grow, hs'.deque_eq⟩

end WorkStealing.Site
