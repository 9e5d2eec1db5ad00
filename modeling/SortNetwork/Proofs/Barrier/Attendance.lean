import Mathlib
import SortNetwork.Proofs.Barrier.Crowd

/-!
# SortNetwork.Proofs.Barrier.Attendance

A fixed set of callers that call a barrier for themselves, each as often as it likes.

The callers meet (`Meeting`), where a caller has been through as many meetings as its calls have returned, and
as many meetings are released as the marker was moved.  With the arrivals of each caller this is an
invariant (`Attended`), from which the arrivals can be counted: while a meeting gathers, they are those of
all meetings before and the present count (`Attended.allArrivals_eq`).

* `no_early_return`: nobody returns from a call before all have arrived in theirs of the same number.
* `no_lost_release`: a marker that was moved is seen by all who wait for it, and somebody can always go on.
-/

namespace SortNetwork.Barrier

variable {participants w : Nat} {calls : Nat → Nat} {past : List Act} {crowd next : Crowd}
  {snapshot : UInt32}

/-! ## calls that are counted -/

/-- Whoever is not counted yet has been through all meetings that are released. -/
theorem Call.Fits.le_counted {marker : UInt32} {released done : Nat} {call : Call}
    (fits : call.Fits marker released done) : released ≤ done + call.counted.toNat := by
  cases call <;> simp only [Call.Fits] at fits <;> simp [Call.counted] <;> omega

/-- Nobody is counted for a meeting that is not released, but those that wait for the marker to move. -/
theorem Call.Fits.counted_eq {marker : UInt32} {released done : Nat} {call : Call}
    (fits : call.Fits marker released done) (open_ : call.closing = false) :
    done + call.counted.toNat = released + if call = .polling marker then 1 else 0 := by
  cases call with
  | polling snapshot =>
    obtain ⟨level, rfl⟩ | ⟨behind, moved⟩ := fits
    · simp [level, Call.counted]
    · simp [← behind, moved, Call.counted]
  | entering =>
    rw [show done = released from fits]
    simp [Call.counted]
  | arriving snapshot => simp [fits.1, Call.counted]
  | _ => cases open_

/-! ## the invariant -/

/-- The callers meet, each has arrived once for each call that has returned, and once more if its call is
counted, and it has the rest of its calls before it. -/
structure Attended (participants : Nat) (calls : Nat → Nat) (past : List Act) (crowd : Crowd) : Prop where
  meeting : Meeting participants crowd.barrier (fun w => (crowd.callers w).call) (returnsOf past)
    (releases past)
  counted : ∀ w < participants,
    arrivalsOf past w = returnsOf past w + (crowd.callers w).call.counted.toNat
  left : ∀ w < participants, ∃ left, returnsOf past w + left = calls w ∧
    (crowd.callers w).calls = List.replicate left participants

theorem callOf_update (callers : Nat → Caller) (w : Nat) (caller : Caller) :
    (fun u => (Function.update callers w caller u).call) =
      Function.update (fun u => (callers u).call) w caller.call :=
  Function.comp_update Caller.call callers w caller

namespace Attended

/-- Everybody makes its calls for all. -/
theorem calls_eq (attended : Attended participants calls past crowd) (inside : w < participants)
    {first : Nat} {later : List Nat} (here : (crowd.callers w).calls = first :: later) :
    first = participants ∧ ∃ left, returnsOf past w + left + 1 = calls w ∧
      later = List.replicate left participants := by
  obtain ⟨left, all, same⟩ := attended.left w inside
  rw [here] at same
  cases left with
  | zero => cases same
  | succ left =>
    obtain ⟨rfl, rfl⟩ := List.cons.inj same
    exact ⟨rfl, left, all, rfl⟩

/-- A step of a caller keeps the meeting. -/
theorem meeting_of_step (attended : Attended participants calls past crowd) (inside : w < participants)
    (moved : crowd.step w = .progress next) :
    Meeting participants next.barrier (fun u => (next.callers u).call)
      (returnsOf (past ++ [⟨w, (crowd.callers w).call⟩]))
      (releases (past ++ [⟨w, (crowd.callers w).call⟩])) := by
  obtain ⟨first, later, here, ⟨b, call, goes, rfl⟩ | ⟨b, returned, rfl⟩⟩ := Crowd.exists_of_progress moved
  · obtain ⟨rfl, -⟩ := attended.calls_eq inside here
    obtain ⟨stays, still, -⟩ := counted_of_moved goes
    rw [returnsOf, tally_snoc_of_not stays, releases_snoc, still, callOf_update]
    exact (attended.meeting.moved inside goes).1
  · obtain ⟨rfl, -⟩ := attended.calls_eq inside here
    obtain ⟨returns, -⟩ := counted_of_left returned
    rw [returnsOf_snoc, returns, releases_snoc, callOf_update]
    exact attended.meeting.left inside returned

end Attended

/-- Whatever the callers do in which order, they stay attended. -/
theorem Passage.attended {kind : BarrierKind} {marker : UInt32} (some_ : 0 < participants)
    (passage : Passage participants (.gather kind marker participants calls) past crowd) :
    Attended participants calls past crowd := by
  have of_meeting : ∀ {past crowd}, Passage participants (.gather kind marker participants calls) past crowd →
      Meeting participants crowd.barrier (fun w => (crowd.callers w).call) (returnsOf past) (releases past) →
        Attended participants calls past crowd := by
    intro past crowd passage meeting
    refine ⟨meeting, fun w _ => passage.arrivalsOf_eq (fun _ => rfl) w, fun w _ => ?_⟩
    obtain ⟨rest, short⟩ := passage.calls_eq w
    simp only [Crowd.gather, List.length_replicate] at short
    exact ⟨calls w - returnsOf past w, by omega, by simp [rest, Crowd.gather]⟩
  induction passage with
  | start => exact of_meeting .start (meeting_start kind marker some_)
  | step before w inside moved ih =>
    exact of_meeting (.step before w inside moved) (ih.meeting_of_step inside moved)

namespace Attended

theorem returnsOf_le (attended : Attended participants calls past crowd) (inside : w < participants) :
    returnsOf past w ≤ releases past :=
  (attended.meeting.fits w inside).bounds.1

theorem releases_le (attended : Attended participants calls past crowd) (inside : w < participants) :
    releases past ≤ returnsOf past w + 1 :=
  (attended.meeting.fits w inside).bounds.2

/-- Everybody has arrived at all meetings that are released. -/
theorem releases_le_arrivalsOf (attended : Attended participants calls past crowd)
    (inside : w < participants) : releases past ≤ arrivalsOf past w := by
  rw [attended.counted w inside]
  exact (attended.meeting.fits w inside).le_counted

/-- While a meeting gathers, the arrivals are those of all meetings before and those at the present one. -/
theorem allArrivals_eq (attended : Attended participants calls past crowd)
    (callers : ∀ act ∈ past, act.caller < participants)
    (open_ : ∀ w < participants, (crowd.callers w).call.closing = false)
    (tally : crowd.barrier.arrivals =
      waiting participants crowd.barrier.marker fun w => (crowd.callers w).call) :
    allArrivals past = participants * releases past + crowd.barrier.arrivals := by
  have each : ∀ w ∈ Finset.range participants, arrivalsOf past w = releases past +
      if (crowd.callers w).call = .polling crowd.barrier.marker then 1 else 0 := by
    intro w member
    have inside := Finset.mem_range.1 member
    rw [attended.counted w inside]
    exact (attended.meeting.fits w inside).counted_eq (open_ w inside)
  rw [tally, waiting]
  calc allArrivals past
      = ∑ w ∈ Finset.range participants, arrivalsOf past w := (sum_tally callers).symm
    _ = ∑ w ∈ Finset.range participants, (releases past +
          if (crowd.callers w).call = .polling crowd.barrier.marker then 1 else 0) :=
        Finset.sum_congr rfl each
    _ = _ := by rw [Finset.sum_add_distrib, Finset.sum_const, Finset.card_range, smul_eq_mul]

/-- Whoever is about to arrive does so in the meeting that the arrivals before have led to, and it is the last
one exactly if it fills that meeting. -/
theorem arrives (attended : Attended participants calls past crowd)
    (callers : ∀ act ∈ past, act.caller < participants) (inside : w < participants)
    (now : (crowd.callers w).call = .arriving snapshot) (moved : crowd.step w = .progress next) :
    arrivalsOf past w = allArrivals past / participants ∧
      ((∃ snapshot, (next.callers w).call = .resetting snapshot) ↔ participants ∣ allArrivals past + 1) := by
  obtain ⟨open_, tally, short⟩ := attended.meeting.phase.of_away inside (.inr ⟨_, now⟩)
  have all := attended.allArrivals_eq callers open_ tally
  have caught := attended.meeting.fits w inside
  have counted := attended.counted w inside
  rw [now] at caught counted
  have own : arrivalsOf past w = releases past := counted.trans caught.1
  constructor
  · rw [own, all, Nat.mul_add_div (by omega), Nat.div_eq_of_lt short, Nat.add_zero]
  · have last : participants ∣ allArrivals past + 1 ↔ participants - 1 ≤ crowd.barrier.arrivals := by
      rw [all, Nat.add_assoc, Nat.dvd_add_right (Nat.dvd_mul_right _ _)]
      refine ⟨fun divides => ?_, fun full => ?_⟩
      · have := Nat.le_of_dvd (Nat.succ_pos _) divides
        omega
      · rw [show crowd.barrier.arrivals + 1 = participants by omega]
    rw [last]
    obtain ⟨first, later, here, ⟨b, call, goes, rfl⟩ | ⟨b, returned, -⟩⟩ := Crowd.exists_of_progress moved
    · obtain ⟨rfl, -⟩ := attended.calls_eq inside here
      rw [now] at goes
      cases goes
      simp only [Function.update_self]
      by_cases full : first - 1 ≤ crowd.barrier.arrivals
      · simp [completes, full]
      · simp [completes, full]
    · rw [now] at returned
      cases returned

/-- If all make the same number of calls, somebody can go on until all have returned. -/
theorem exists_progress {rounds : Nat} (attended : Attended participants (fun _ => rounds) past crowd)
    (busy : ∃ w < participants, returnsOf past w < rounds) :
    ∃ w < participants, ∃ next, crowd.step w = .progress next := by
  obtain ⟨v, hv, free⟩ := attended.meeting.exists_free
  by_cases idle : (crowd.callers v).calls = []
  · -- whoever is done has been through all meetings, so whoever is not sees that the marker was moved
    obtain ⟨w, inside, early⟩ := busy
    obtain ⟨left, total, same⟩ := attended.left v hv
    obtain ⟨left', total', same'⟩ := attended.left w inside
    have none_left : left = 0 := by simpa [idle] using same
    have moved : returnsOf past w < releases past := by
      have := attended.returnsOf_le hv
      omega
    refine ⟨w, inside, Crowd.exists_progress ?_ fun now => ?_⟩
    · rw [same']
      simp only [ne_eq, List.replicate_eq_nil_iff]
      omega
    · exact (attended.meeting.marker_ne_iff inside now).2 moved rfl
  · exact ⟨v, hv, Crowd.exists_progress idle free⟩

end Attended

/-! ## what callers can rely on -/

/-- Callers that call a barrier for themselves, each as often as it likes, are not let go early.

Nobody has returned from more calls than anybody has arrived in.  The arrivals come in groups of as many as
there are callers: each belongs to its caller's call of the same number as the group, and the last one of a
group, and no other, goes on to release it.  The count of arrivals is never above the number of callers, and
it is that number exactly from the last arrival until this resets it.  Nobody returns from two calls more
than anybody else. -/
theorem no_early_return (kind : BarrierKind) (marker : UInt32) {participants : Nat}
    (some_ : 0 < participants) (calls : Nat → Nat) {past : List Act} {crowd : Crowd}
    (passage : Passage participants (.gather kind marker participants calls) past crowd) :
    (∀ w < participants, ∀ v < participants, returnsOf past w ≤ arrivalsOf past v) ∧
    (∀ w < participants, ∀ snapshot next, (crowd.callers w).call = .arriving snapshot →
      crowd.step w = .progress next → arrivalsOf past w = allArrivals past / participants ∧
        ((∃ snapshot, (next.callers w).call = .resetting snapshot) ↔
          participants ∣ allArrivals past + 1)) ∧
    crowd.barrier.arrivals ≤ participants ∧
    (crowd.barrier.arrivals = participants ↔
      ∃ w < participants, ∃ snapshot, (crowd.callers w).call = .resetting snapshot) ∧
    ∀ w < participants, ∀ v < participants, returnsOf past w ≤ returnsOf past v + 1 := by
  have attended := passage.attended some_
  refine ⟨fun w inside v inside' => ?_, fun w inside snapshot next now moved => ?_,
    attended.meeting.arrivals_le, attended.meeting.arrivals_eq_iff, fun w inside v inside' => ?_⟩
  · exact (attended.returnsOf_le inside).trans (attended.releases_le_arrivalsOf inside')
  · exact attended.arrives passage.caller_lt inside now moved
  · exact (attended.returnsOf_le inside).trans (attended.releases_le inside')

/-- A count of releases that wraps: one of two callers is back at the barrier before the other has seen that
the marker was moved. -/
theorem no_early_return_wrapped :
    0 < 2 ∧ ∃ past crowd, Passage 2 (.gather .stepCounter 0xFFFFFFFF 2 fun w => w + 1) past crowd ∧
      (crowd.callers 0).call = .polling 0xFFFFFFFF ∧ (crowd.callers 1).call = .arriving 0 ∧
      returnsOf past 1 = 1 ∧ returnsOf past 1 ≤ arrivalsOf past 0 ∧
      arrivalsOf past 1 = allArrivals past / 2 ∧ crowd.barrier.arrivals ≤ 2 := by
  have passage : Passage 2 (.gather .stepCounter 0xFFFFFFFF 2 fun w => w + 1) _ _ :=
    .follow .start [0, 0, 1, 1, 1, 1, 1] (by decide)
  have early := no_early_return .stepCounter 0xFFFFFFFF (by decide) (fun w => w + 1) passage
  exact ⟨by decide, _, _, passage, by decide +kernel, by decide +kernel, by decide +kernel,
    early.1 1 (by decide) 0 (by decide), (early.2.1 1 (by decide) 0 _ (by decide +kernel) rfl).1, early.2.2.1⟩

/-- A release is never lost on callers that call a barrier for themselves, each as often as the others.

Whoever is about to move the marker has returned from as many calls as the marker was moved before.  A poll
sees a marker other than its snapshot exactly if the marker was moved for its call, however much later that
may be.  Until all calls have returned, somebody can take a step that is no poll in vain. -/
theorem no_lost_release (kind : BarrierKind) (marker : UInt32) {participants : Nat}
    (some_ : 0 < participants) (rounds : Nat) {past : List Act} {crowd : Crowd}
    (passage : Passage participants (.gather kind marker participants fun _ => rounds) past crowd) :
    (∀ w < participants, ∀ snapshot, (crowd.callers w).call = .releasing snapshot →
      returnsOf past w = releases past) ∧
    (∀ w < participants, ∀ snapshot, (crowd.callers w).call = .polling snapshot →
      (crowd.barrier.marker ≠ snapshot ↔ returnsOf past w < releases past)) ∧
    ((∃ w < participants, returnsOf past w < rounds) →
      ∃ w < participants, ∃ next, crowd.step w = .progress next) := by
  have attended := passage.attended some_
  refine ⟨fun w inside snapshot now => ?_, fun w inside snapshot now => ?_, attended.exists_progress⟩
  · have fits := attended.meeting.fits w inside
    rw [now] at fits
    exact fits.1
  · exact attended.meeting.marker_ne_iff inside now

/-- A flag: one of two callers waits for the second release, while the other has yet to see the first. -/
theorem no_lost_release_behind :
    0 < 2 ∧ ∃ past crowd, Passage 2 (.gather .senseReversal 0 2 fun _ => 2) past crowd ∧
      (crowd.callers 0).call = .polling 0 ∧ (crowd.callers 1).call = .polling 0xFFFFFFFF ∧
      returnsOf past 0 < releases past ∧ crowd.barrier.marker ≠ 0 ∧
      ∃ w < 2, ∃ next, crowd.step w = .progress next := by
  have passage : Passage 2 (.gather .senseReversal 0 2 fun _ => 2) _ _ :=
    .follow .start [0, 0, 1, 1, 1, 1, 1, 1] (by decide)
  obtain ⟨-, sees, goes⟩ := no_lost_release .senseReversal 0 (by decide) 2 passage
  exact ⟨by decide, _, _, passage, by decide +kernel, by decide +kernel, by decide +kernel,
    (sees 0 (by decide) 0 (by decide +kernel)).2 (by decide +kernel), goes ⟨0, by decide, by decide +kernel⟩⟩

end SortNetwork.Barrier
