import SortNetwork.Barrier.Nested
import SortNetwork.Barrier.Sums
import SortNetwork.Duration
import SortNetwork.Main
import SortNetwork.Proofs.Barrier.Attendance
import SortNetwork.Proofs.Barrier.Cycles
import SortNetwork.Proofs.Barrier.Joining
import SortNetwork.Proofs.Barrier.Nested
import SortNetwork.Proofs.Barrier.Shrinking
import SortNetwork.Proofs.Halting
import SortNetwork.Proofs.InPlace
import SortNetwork.Proofs.Merge
import SortNetwork.Proofs.Network.Supply
import SortNetwork.Proofs.Parallel.Meetings
import SortNetwork.Proofs.Parallel.Shares
import SortNetwork.Proofs.Phases
import SortNetwork.Proofs.Refusal
import SortNetwork.Proofs.Safety
import SortNetwork.Proofs.Scratch.Session
import SortNetwork.Proofs.Workshop
import SortNetwork.TaskQueue.Relay
import SortNetwork.Walkthrough
