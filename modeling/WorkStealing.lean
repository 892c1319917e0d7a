import WorkStealing.Backoff
import WorkStealing.Proofs.Backlogs
import WorkStealing.Proofs.Backoff.Pacing
import WorkStealing.Proofs.Convoy.Arrival
import WorkStealing.Proofs.Convoy.Balance
import WorkStealing.Proofs.Convoy.Boarding
import WorkStealing.Proofs.Convoy.Contest
import WorkStealing.Proofs.Convoy.Grants
import WorkStealing.Proofs.Convoy.LastSlot
import WorkStealing.Proofs.Convoy.Line
import WorkStealing.Proofs.Convoy.Notices
import WorkStealing.Proofs.Convoy.Order
import WorkStealing.Proofs.Convoy.Outcomes
import WorkStealing.Proofs.Convoy.Record
import WorkStealing.Proofs.Convoy.Sights
import WorkStealing.Proofs.Convoy.Spending
import WorkStealing.Proofs.Convoy.Standing
import WorkStealing.Proofs.Convoy.Turn
import WorkStealing.Proofs.Convoy.Yields
import WorkStealing.Proofs.Deque.Contention
import WorkStealing.Proofs.Deque.Effects
import WorkStealing.Proofs.Deque.Ending
import WorkStealing.Proofs.Deque.Gauge
import WorkStealing.Proofs.Deque.Holes
import WorkStealing.Proofs.Deque.Refusals
import WorkStealing.Proofs.Deque.Relocation
import WorkStealing.Proofs.Deque.Scene
import WorkStealing.Proofs.Deque.Sequential
import WorkStealing.Proofs.Deque.Settling
import WorkStealing.Proofs.Deque.Slots
import WorkStealing.Proofs.Deque.Solo
import WorkStealing.Proofs.Deque.Soundness
import WorkStealing.Proofs.Deque.Stages
import WorkStealing.Proofs.Deque.Steady
import WorkStealing.Proofs.Deque.Turns
import WorkStealing.Proofs.Deque.Unmetered
import WorkStealing.Proofs.Deque.Window
import WorkStealing.Proofs.Ensures
import WorkStealing.Proofs.Metrics.Histograms
import WorkStealing.Proofs.Metrics.Periods
import WorkStealing.Proofs.Metrics.Samples
import WorkStealing.Proofs.PoolConfig.Rules
import WorkStealing.Proofs.Race.Delivery
import WorkStealing.Proofs.Race.Invariant
import WorkStealing.Proofs.Race.Lending
import WorkStealing.Proofs.Race.Turns
import WorkStealing.Proofs.Ring.Cells
import WorkStealing.Proofs.Ring.Growth
import WorkStealing.Proofs.Session.Alike
import WorkStealing.Proofs.Session.Backlogs
import WorkStealing.Proofs.Session.Bounds
import WorkStealing.Proofs.Session.Bystanders
import WorkStealing.Proofs.Session.Capacity
import WorkStealing.Proofs.Session.Chronicle
import WorkStealing.Proofs.Session.Conservation
import WorkStealing.Proofs.Session.Contention
import WorkStealing.Proofs.Session.Convoys
import WorkStealing.Proofs.Session.Course
import WorkStealing.Proofs.Session.Crowds
import WorkStealing.Proofs.Session.Failures
import WorkStealing.Proofs.Session.Gathering
import WorkStealing.Proofs.Session.Handles
import WorkStealing.Proofs.Session.Handover
import WorkStealing.Proofs.Session.Holes
import WorkStealing.Proofs.Session.Identifiers
import WorkStealing.Proofs.Session.Invariant
import WorkStealing.Proofs.Session.Isolation
import WorkStealing.Proofs.Session.LastSlot
import WorkStealing.Proofs.Session.Lifetimes
import WorkStealing.Proofs.Session.Linearization
import WorkStealing.Proofs.Session.Openings
import WorkStealing.Proofs.Session.Paths
import WorkStealing.Proofs.Session.References
import WorkStealing.Proofs.Session.Refinement
import WorkStealing.Proofs.Session.Rounds
import WorkStealing.Proofs.Session.Settling
import WorkStealing.Proofs.Session.Soundness
import WorkStealing.Proofs.Session.Termination
import WorkStealing.Proofs.Session.Thinning
import WorkStealing.Proofs.Session.Traffic
import WorkStealing.Proofs.Session.Twins
import WorkStealing.Proofs.Session.Unmetered
import WorkStealing.Proofs.TicketLock.Fairness
import WorkStealing.Proofs.TicketLock.Narrowing
import WorkStealing.Proofs.TicketLock.Scripts
import WorkStealing.Proofs.UnitTable.Accounts
import WorkStealing.Race
import WorkStealing.Session
import WorkStealing.TicketLock.Crowd
import WorkStealing.TicketLock.Script

