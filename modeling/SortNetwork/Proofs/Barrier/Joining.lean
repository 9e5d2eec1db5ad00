import Mathlib
import SortNetwork.Proofs.Barrier.Cycles

/-!
# SortNetwork.Proofs.Barrier.Joining

Callers of a barrier that counts its releases, some of whom take no part in a cycle and join in the next.

A run keeps to cycles of given sizes if the arrivals of a cycle come from different callers and are made for
as many participants as the cycle has (`KeepsTo`).  Nothing makes somebody who joins take its snapshot after
the release of the cycle before.  If it takes the snapshot earlier and is counted after the reset, then that
very release lets it return, although its own cycle has just begun (`joiner_returns_early`).

* `joiners_meet`: nobody returns early if whoever joins takes its snapshot after that release.
-/

namespace SortNetwork.Barrier

/-- The arrivals of each cycle are made for its size, and by different callers. -/
structure KeepsTo (sizes : Nat → Nat) (calls : Nat → List Nat) (past : List Act) : Prop where
  passed : ∀ i arrival c, (arrivalLog past)[i]? = some arrival → InCycle sizes c i →
    (calls arrival.caller)[arrival.number]? = some (sizes c)
  distinct : ∀ i j arrival other c, (arrivalLog past)[i]? = some arrival →
    (arrivalLog past)[j]? = some other → InCycle sizes c i → InCycle sizes c j →
      arrival.caller = other.caller → i = j

/-- Whoever arrives in a cycle took its snapshot when all cycles before were released, or was in the last of
these. -/
def JoinersWait (sizes : Nat → Nat) (past : List Act) : Prop :=
  ∀ i arrival c, (arrivalLog past)[i]? = some arrival → InCycle sizes c i →
    Prepared sizes (arrivalLog past) arrival.caller arrival.seen c

variable {sizes : Nat → Nat} {marker : UInt32} {calls : Nat → List Nat} {past : List Act} {act : Act}
  {crowd : Crowd} {n : Nat}

/-! ## runs that are known step by step -/

section
variable (cycle : Nat → Nat) (within : ∀ i < (arrivalLog past).length, InCycle sizes (cycle i) i)
include within

theorem eq_cycle {i c : Nat} {arrival : Arrival} (noted : (arrivalLog past)[i]? = some arrival)
    (here : InCycle sizes c i) : c = cycle i := by
  obtain ⟨inside, -⟩ := List.getElem?_eq_some_iff.1 noted
  exact here.eq (within i inside)

/-- A run keeps to cycles if it is known of each arrival which one it belongs to. -/
theorem keepsTo_of_cycle
    (passed : ∀ i < (arrivalLog past).length, ∀ arrival ∈ (arrivalLog past)[i]?,
      (calls arrival.caller)[arrival.number]? = some (sizes (cycle i)))
    (distinct : ∀ i < (arrivalLog past).length, ∀ j < (arrivalLog past).length, cycle i = cycle j →
      (arrivalLog past)[i]?.map Arrival.caller = (arrivalLog past)[j]?.map Arrival.caller → i = j) :
    KeepsTo sizes calls past := by
  refine ⟨fun i arrival c noted here => ?_, fun i j arrival other c noted noted' here there same => ?_⟩
  · obtain ⟨inside, -⟩ := List.getElem?_eq_some_iff.1 noted
    rw [eq_cycle cycle within noted here]
    exact passed i inside arrival noted
  · obtain ⟨inside, -⟩ := List.getElem?_eq_some_iff.1 noted
    obtain ⟨inside', -⟩ := List.getElem?_eq_some_iff.1 noted'
    refine distinct i inside j inside' ?_ (by rw [noted, noted', Option.map_some, Option.map_some, same])
    rw [← eq_cycle cycle within noted here, ← eq_cycle cycle within noted' there]

theorem joinersWait_of_cycle
    (prepared : ∀ i < (arrivalLog past).length, ∀ arrival ∈ (arrivalLog past)[i]?,
      cycle i ≤ arrival.seen ∨ ∃ j < (arrivalLog past).length, cycle j + 1 = cycle i ∧
        (arrivalLog past)[j]?.map Arrival.caller = some arrival.caller) :
    JoinersWait sizes past := by
  intro i arrival c noted here
  obtain ⟨inside, -⟩ := List.getElem?_eq_some_iff.1 noted
  rw [eq_cycle cycle within noted here]
  rcases prepared i inside arrival noted with seen | ⟨j, inside', before, own⟩
  · exact .inl seen
  · obtain ⟨earlier, noted', own⟩ := Option.map_eq_some_iff.1 own
    exact .inr ⟨cycle j, j, earlier, before, noted', within j inside', own⟩

end

/-- A cycle of two and then cycles of three. -/
def twoThenThree (c : Nat) : Nat := if c = 0 then 2 else 3

/-- The calls of two callers that are in both cycles, and of a third that joins in the second. -/
def thirdJoins (w : Nat) : List Nat := if w = 2 then [3] else [2, 3]

/-- The cycle of each of the first five arrivals. -/
def firstOrSecond (i : Nat) : Nat := if i < 2 then 0 else 1

/-! ## joining -/

theorem getElem?_arrivalLog_snoc {i : Nat} (inside : i < (arrivalLog past).length) :
    (arrivalLog (past ++ [act]))[i]? = (arrivalLog past)[i]? := by
  rw [arrivalLog_snoc, List.getElem?_append_left inside]

theorem getElem?_arrivalLog_snoc_of_some {i : Nat} {arrival : Arrival}
    (noted : (arrivalLog past)[i]? = some arrival) : (arrivalLog (past ++ [act]))[i]? = some arrival := by
  obtain ⟨inside, -⟩ := List.getElem?_eq_some_iff.1 noted
  rw [getElem?_arrivalLog_snoc inside, noted]

/-- A run that keeps to cycles did so before its last step. -/
theorem KeepsTo.of_snoc (keeps : KeepsTo sizes calls (past ++ [act])) : KeepsTo sizes calls past where
  passed i arrival c noted := keeps.passed i arrival c (getElem?_arrivalLog_snoc_of_some noted)
  distinct i j arrival other c noted noted' :=
    keeps.distinct i j arrival other c (getElem?_arrivalLog_snoc_of_some noted)
      (getElem?_arrivalLog_snoc_of_some noted')

/-- Nobody needs to have arrived later than the one that it prepares. -/
theorem Prepared.of_snoc {w seen c i : Nat} (prepared : Prepared sizes (arrivalLog (past ++ [act])) w seen c)
    (here : InCycle sizes c i) (upTo : i ≤ (arrivalLog past).length) :
    Prepared sizes (arrivalLog past) w seen c := by
  rcases prepared with early | ⟨d, j, earlier, rfl, noted, there, own⟩
  · exact .inl early
  · have before : j < (arrivalLog past).length := there.2.trans_le (here.1.trans upTo)
    rw [getElem?_arrivalLog_snoc before] at noted
    exact .inr ⟨d, j, earlier, rfl, noted, there, own⟩

theorem JoinersWait.of_snoc (wait : JoinersWait sizes (past ++ [act])) : JoinersWait sizes past := by
  intro i arrival c noted here
  obtain ⟨inside, -⟩ := List.getElem?_eq_some_iff.1 noted
  exact (wait i arrival c (getElem?_arrivalLog_snoc_of_some noted) here).of_snoc here inside.le

/-- If all who join wait for the release, then the calls of a run that keeps to cycles meet in these. -/
theorem Passage.cycles (passage : Passage n (.summon .stepCounter marker calls) past crowd)
    (some_ : ∀ c, 0 < sizes c) (keeps : KeepsTo sizes calls past) (wait : JoinersWait sizes past) :
    Cycles sizes marker past crowd := by
  induction passage with
  | start => exact cycles_start marker some_
  | @step past crowd _ before w _ moved ih =>
    refine (ih keeps.of_snoc wait.of_snoc).step before some_ moved fun snapshot now c here => ?_
    have noted : (arrivalLog (past ++ [⟨w, (crowd.callers w).call⟩]))[(arrivalLog past).length]? =
        some ⟨w, returnsOf past w, seen past w⟩ := by
      rw [arrivalLog_snoc, now, ← before.arrivalsOf_of_arriving now]
      exact List.getElem?_concat_length
    exact ⟨keeps.passed _ _ c noted here, (wait _ _ c noted here).of_snoc here le_rfl⟩

/-- Callers of a barrier that counts its releases meet in cycles of any sizes, where some may leave after a
cycle and others join in the next, if whoever joins takes its snapshot after the release of the cycle before:
then nobody returns before all have arrived in its cycle.  Without this condition that is not so. -/
theorem joiners_meet (some_ : ∀ c, 0 < sizes c)
    (passage : Passage n (.summon .stepCounter marker calls) past crowd) (keeps : KeepsTo sizes calls past)
    (wait : JoinersWait sizes past) : NobodyEarly sizes past :=
  (passage.cycles some_ keeps wait).nobodyEarly

/-- The third caller makes its call when the first cycle is released, and all return from the second. -/
theorem joiners_meet_third : (∀ c, 0 < twoThenThree c) ∧
    ∃ past crowd, Passage 3 (.summon .stepCounter 0 thirdJoins) past crowd ∧
      KeepsTo twoThenThree thirdJoins past ∧ JoinersWait twoThenThree past ∧ NobodyEarly twoThenThree past ∧
      ∀ w < 3, (crowd.callers w).calls = [] := by
  have some_ : ∀ c, 0 < twoThenThree c := fun c => by
    unfold twoThenThree
    split <;> decide
  let run := Crowd.follow [0, 0, 1, 1, 1, 1, 2, 2, 0, 0, 0, 1, 1, 1, 1, 0, 2] []
    (.summon .stepCounter 0 thirdJoins)
  have passage : Passage 3 (.summon .stepCounter 0 thirdJoins) run.1 run.2 := .follow .start _ (by decide)
  have within : ∀ i < (arrivalLog run.1).length, InCycle twoThenThree (firstOrSecond i) i := by
    decide +kernel
  have keeps : KeepsTo twoThenThree thirdJoins run.1 :=
    keepsTo_of_cycle _ within (by decide +kernel) (by decide +kernel)
  have wait : JoinersWait twoThenThree run.1 := joinersWait_of_cycle _ within (by decide +kernel)
  exact ⟨some_, _, _, passage, keeps, wait, joiners_meet some_ passage keeps wait, by decide +kernel⟩

/-- The third caller takes its snapshot before the first cycle is released, is counted as the first of three
in the second, and returns at once.  The run can be continued until all calls have returned, and keeps to
cycles all the time. -/
theorem joiner_returns_early : ∃ past crowd whole last,
    Passage 3 (.summon .stepCounter 0 thirdJoins) past crowd ∧ KeepsTo twoThenThree thirdJoins past ∧
      returnsOf past 2 = 1 ∧ allArrivals past = 3 ∧ ¬NobodyEarly twoThenThree past ∧
      past <+: whole ∧ Passage 3 (.summon .stepCounter 0 thirdJoins) whole last ∧
      KeepsTo twoThenThree thirdJoins whole ∧ ∀ w < 3, (last.callers w).calls = [] := by
  let run := Crowd.follow [0, 0, 1, 1, 2, 1, 2, 1, 2] [] (.summon .stepCounter 0 thirdJoins)
  have passage : Passage 3 (.summon .stepCounter 0 thirdJoins) run.1 run.2 := .follow .start _ (by decide)
  have early : ¬NobodyEarly twoThenThree run.1 := fun nobody =>
    absurd (nobody 2 ⟨2, 0, 0⟩ 1 (by decide +kernel) (by decide +kernel) (by decide +kernel))
      (by decide +kernel)
  have keeps : KeepsTo twoThenThree thirdJoins run.1 :=
    keepsTo_of_cycle firstOrSecond (by decide +kernel) (by decide +kernel) (by decide +kernel)
  let rest := Crowd.follow [0, 0, 0, 1, 1, 1, 1, 0] run.1 run.2
  have whole : Passage 3 (.summon .stepCounter 0 thirdJoins) rest.1 rest.2 := passage.follow _ (by decide)
  have keeps_all : KeepsTo twoThenThree thirdJoins rest.1 :=
    keepsTo_of_cycle firstOrSecond (by decide +kernel) (by decide +kernel) (by decide +kernel)
  exact ⟨_, _, _, _, passage, keeps, by decide +kernel, by decide +kernel, early, by decide +kernel, whole,
    keeps_all, by decide +kernel⟩

end SortNetwork.Barrier
