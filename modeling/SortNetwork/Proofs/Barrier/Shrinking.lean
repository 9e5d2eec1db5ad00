import Mathlib
import SortNetwork.Proofs.Barrier.Cycles

/-!
# SortNetwork.Proofs.Barrier.Shrinking

Callers of a barrier that counts its releases, fewer of which take part from cycle to cycle.

The callers that take part in cycle `c` are those of a set, and each makes its call number `c` for as many
participants as the set has.  Then the arrival of such a call belongs to cycle `c` (`Shrinking`), since a
cycle is complete only when everybody of its set has arrived in it (`Shrinking.exists_arrival_of_complete`).
So the calls meet in the cycles of these sizes (`Cycles`), however many cycles those that have dropped out are
behind.

* `shrinking_meets`: nobody returns before its cycle is complete, and every poll sees that it was released.
-/

namespace SortNetwork.Barrier

/-- Callers that make calls for the sizes of sets in turn, caller `w` for those of the first `counts w`. -/
def Crowd.dwindle (marker : UInt32) (sets : Nat → Finset Nat) (counts : Nat → Nat) : Crowd :=
  .summon .stepCounter marker fun w => (List.range (counts w)).map fun c => (sets c).card

/-- The number of members of each set. -/
def cards (sets : Nat → Finset Nat) (c : Nat) : Nat := (sets c).card

/-- The calls meet in cycles, and the arrival of call number `c` belongs to cycle `c`. -/
structure Shrinking (sets : Nat → Finset Nat) (counts : Nat → Nat) (marker : UInt32) (past : List Act)
    (crowd : Crowd) : Prop where
  cycles : Cycles (cards sets) marker past crowd
  numbered : ∀ i arrival c, (arrivalLog past)[i]? = some arrival → InCycle (cards sets) c i →
    arrival.number = c ∧ c < counts arrival.caller

variable {sets : Nat → Finset Nat} {counts : Nat → Nat} {marker : UInt32} {past : List Act}
  {crowd next : Crowd} {n w v c : Nat}

/-- Whoever has calls to make has not returned from all of its calls. -/
theorem Passage.returnsOf_lt (passage : Passage n (.dwindle marker sets counts) past crowd)
    (busy : (crowd.callers w).calls ≠ []) : returnsOf past w < counts w := by
  have rest := (passage.calls_eq w).1
  by_contra done
  refine busy (rest.trans (List.drop_of_length_le ?_))
  simpa [Crowd.dwindle, Crowd.summon] using done

namespace Shrinking

/-- Every arrival belongs to a cycle, the one of the number of its call. -/
theorem inCycle (shrinking : Shrinking sets counts marker past crowd) {i : Nat} {arrival : Arrival}
    (noted : (arrivalLog past)[i]? = some arrival) : InCycle (cards sets) arrival.number i := by
  obtain ⟨inside, -⟩ := List.getElem?_eq_some_iff.1 noted
  obtain ⟨c, -, here⟩ := exists_inCycle (inside.trans_le shrinking.cycles.filling.bounds.2)
  exact (shrinking.numbered i arrival c noted here).1 ▸ here

/-- If as many have arrived in a cycle as its set has members, then everybody of the set has. -/
theorem exists_arrival_of_complete (shrinking : Shrinking sets counts marker past crowd)
    (member : ∀ w c, c < counts w → w ∈ sets c)
    (complete : begins (cards sets) (c + 1) ≤ (arrivalLog past).length) (inside : v ∈ sets c) :
    c < arrivalsOf past v := by
  have noted : ∀ i ∈ Finset.Ico (begins (cards sets) c) (begins (cards sets) (c + 1)),
      ∃ arrival, (arrivalLog past)[i]? = some arrival ∧ arrival.number = c ∧ arrival.caller ∈ sets c := by
    intro i within
    have here : InCycle (cards sets) c i := Finset.mem_Ico.1 within
    have noted := List.getElem?_eq_getElem (here.2.trans_le complete)
    obtain ⟨number, early⟩ := shrinking.numbered i _ c noted here
    exact ⟨_, noted, number, member _ c early⟩
  choose arrival stands number among using noted
  have apart : ∀ i j within within', (arrival i within).caller = (arrival j within').caller → i = j :=
    fun i j within within' same => eq_of_number_eq (stands i within) (stands j within') same
      ((number i within).trans (number j within').symm)
  have enough : (sets c).card ≤ (Finset.Ico (begins (cards sets) c) (begins (cards sets) (c + 1))).card := by
    rw [Nat.card_Ico, begins_succ, Nat.add_sub_cancel_left]
    rfl
  obtain ⟨i, within, same⟩ := Finset.surj_on_of_inj_on_of_card_le
    (fun i within => (arrival i within).caller) among apart enough v inside
  have made := number_lt (List.mem_of_getElem? (stands i within))
  rwa [number i within, ← same] at made

/-- Whoever is about to arrive does so in the cycle of the number of its call. -/
theorem due (shrinking : Shrinking sets counts marker past crowd)
    (member : ∀ w c, c < counts w → w ∈ sets c)
    (passage : Passage n (.dwindle marker sets counts) past crowd) {snapshot : UInt32}
    (now : (crowd.callers w).call = .arriving snapshot) (early : returnsOf past w < counts w)
    (here : InCycle (cards sets) c (arrivalLog past).length) :
    c = returnsOf past w ∧ Prepared (cards sets) (arrivalLog past) w (seen past w) c := by
  have level := passage.arrivalsOf_of_arriving now
  -- all cycles of a lower number that are complete have been arrived in, and this has not
  have at_most : c ≤ returnsOf past w := by
    by_contra later
    have complete := (begins_mono (cards sets) (show returnsOf past w + 1 ≤ c by omega)).trans here.1
    have := shrinking.exists_arrival_of_complete member complete (member w _ early)
    omega
  cases count : returnsOf past w with
  | zero => exact ⟨by omega, .inl (by omega)⟩
  | succ d =>
    obtain ⟨i, arrival, noted, own, number⟩ := exists_arrival (show d < arrivalsOf past w by omega)
    have there := shrinking.inCycle noted
    have away : ∀ c, ¬((crowd.callers w).call).Stands marker (releases past) (seen past w) c := by
      simp [now, Call.Stands]
    have released := (shrinking.cycles.of_away away noted own there).2
    rw [number] at there released
    have at_least : d + 1 ≤ c := by
      by_contra before
      have := begins_mono (cards sets) (show c + 1 ≤ releases past by omega)
      have := shrinking.cycles.filling.bounds.1
      have := here.2
      omega
    obtain rfl : c = d + 1 := by omega
    exact ⟨rfl, .inr ⟨d, i, arrival, rfl, noted, there, own⟩⟩

/-- A call that is counted stands as one that has arrived in the cycle of its number. -/
theorem stands (shrinking : Shrinking sets counts marker past crowd)
    (passage : Passage n (.dwindle marker sets counts) past crowd)
    (counted : (crowd.callers w).call.counted = true) :
    (crowd.callers w).call.Stands marker (releases past) (seen past w) (returnsOf past w) := by
  have level := passage.arrivalsOf_eq (fun _ => rfl) w
  rw [counted, Bool.toNat_true] at level
  obtain ⟨i, arrival, noted, rfl, number⟩ :=
    exists_arrival (show returnsOf past w < arrivalsOf past w by omega)
  have here := shrinking.inCycle noted
  rw [number] at here
  rcases shrinking.cycles.stands i arrival _ noted here with ⟨fewer, -⟩ | ⟨-, stands⟩
  · omega
  · exact stands

theorem step (shrinking : Shrinking sets counts marker past crowd) (some_ : ∀ c, (sets c).Nonempty)
    (member : ∀ w c, c < counts w → w ∈ sets c)
    (passage : Passage n (.dwindle marker sets counts) past crowd) (moved : crowd.step w = .progress next) :
    Shrinking sets counts marker (past ++ [⟨w, (crowd.callers w).call⟩]) next := by
  obtain ⟨participants, later, calls, -⟩ := Crowd.exists_of_progress moved
  have early := passage.returnsOf_lt (w := w) (by simp [calls])
  have due : ∀ snapshot, (crowd.callers w).call = .arriving snapshot → ∀ c,
      InCycle (cards sets) c (arrivalLog past).length →
        c = returnsOf past w ∧ Prepared (cards sets) (arrivalLog past) w (seen past w) c :=
    fun snapshot now c here => shrinking.due member passage now early here
  refine ⟨shrinking.cycles.step passage (fun c => Finset.card_pos.2 (some_ c)) moved
    fun snapshot now c here => ?_, fun i arrival c noted here => ?_⟩
  · obtain ⟨rfl, prepared⟩ := due snapshot now c here
    exact ⟨by simp [early, cards], prepared⟩
  · rw [arrivalLog_snoc] at noted
    split at noted
    · next arrives =>
      rcases getElem?_snoc_eq_some noted with old | ⟨rfl, rfl⟩
      · exact shrinking.numbered i arrival c old here
      · obtain ⟨snapshot, now⟩ : ∃ snapshot, (crowd.callers w).call = .arriving snapshot := by
          cases now : (crowd.callers w).call <;> simp [now, Call.arrives] at arrives ⊢
        obtain ⟨rfl, -⟩ := due snapshot now c here
        exact ⟨passage.arrivalsOf_of_arriving now, early⟩
    · rw [List.append_nil] at noted
      exact shrinking.numbered i arrival c noted here

end Shrinking

theorem Passage.shrinking (some_ : ∀ c, (sets c).Nonempty) (member : ∀ w c, c < counts w → w ∈ sets c)
    (passage : Passage n (.dwindle marker sets counts) past crowd) :
    Shrinking sets counts marker past crowd := by
  induction passage with
  | start =>
    exact ⟨cycles_start marker fun c => Finset.card_pos.2 (some_ c), by simp [arrivalLog]⟩
  | step before w _ moved ih => exact ih.step some_ member before moved

/-- Callers that shrink from cycle to cycle meet at a barrier that counts its releases.  The callers that take
part in cycle `c` are those of `sets c`, and each makes its call number `c` for as many participants as they
are; a caller may drop out after any cycle.  Once somebody has returned from a cycle, everybody of the cycle
has arrived in it.  Release number `c` is the one of cycle `c`, and from then on every poll of a call that
waits in this cycle sees that the marker is not its snapshot, as long as fewer than `2 ^ 32` releases have been
made since the snapshot was taken, however many cycles have passed.  The sets are not required to be nested. -/
theorem shrinking_meets (some_ : ∀ c, (sets c).Nonempty) (member : ∀ w c, c < counts w → w ∈ sets c)
    (passage : Passage n (.dwindle marker sets counts) past crowd) :
    (∀ w c, c < returnsOf past w → ∀ v ∈ sets c, c < arrivalsOf past v) ∧
      (∀ w snapshot, (crowd.callers w).call = .releasing snapshot → returnsOf past w = releases past) ∧
      ∀ w snapshot, (crowd.callers w).call = .polling snapshot →
        releases (sinceSnapshot past w) < 2 ^ 32 →
          (crowd.barrier.marker ≠ snapshot ↔ returnsOf past w < releases past) := by
  have shrinking := passage.shrinking some_ member
  refine ⟨fun w c returned v inside => ?_, fun w snapshot now => ?_, fun w snapshot now recent => ?_⟩
  · have level := passage.arrivalsOf_eq (fun _ => rfl) w
    obtain ⟨i, arrival, noted, rfl, rfl⟩ := exists_arrival (show c < arrivalsOf past w by omega)
    have here := shrinking.inCycle noted
    have complete := shrinking.cycles.nobodyEarly i arrival _ noted here returned
    rw [← length_arrivalLog] at complete
    exact shrinking.exists_arrival_of_complete member complete inside
  · have stands := shrinking.stands passage (w := w) (by simp [now, Call.counted])
    rwa [now] at stands
  · have stands := shrinking.stands passage (w := w) (by simp [now, Call.counted])
    rw [now] at stands
    obtain ⟨rfl, level⟩ := stands
    have sum := seen_add_releases past w
    rw [level] at sum
    rw [shrinking.cycles.marker_eq, ← sum, ← BarrierKind.iterate_increment, ← BarrierKind.iterate_increment,
      Nat.add_comm, Function.iterate_add_apply, BarrierKind.iterate_advance_ne_iff,
      BarrierKind.shows_stepCounter_iff recent]
    exact Nat.lt_add_left_iff_pos.symm

/-- Three callers of whom the first drops out: it has yet to see the first release when the others are through
the second cycle, and the count has wrapped meanwhile. -/
theorem shrinking_meets_behind : ∃ (sets : Nat → Finset Nat) (counts : Nat → Nat),
    (∀ c, (sets c).Nonempty) ∧ (∀ w c, c < counts w → w ∈ sets c) ∧
      ∃ past crowd, Passage 3 (.dwindle 0xFFFFFFFF sets counts) past crowd ∧
        (crowd.callers 0).call = .polling 0xFFFFFFFF ∧ returnsOf past 0 < releases past ∧
        crowd.barrier.marker ≠ 0xFFFFFFFF ∧ returnsOf past 2 = 2 ∧ ∀ v ∈ sets 1, 1 < arrivalsOf past v := by
  let sets : Nat → Finset Nat := fun c => if c = 0 then {0, 1, 2} else {1, 2}
  let counts : Nat → Nat := fun w => if w = 0 then 1 else if w < 3 then 2 else 0
  have some_ : ∀ c, (sets c).Nonempty := fun c => by
    by_cases first : c = 0 <;> simp [sets, first]
  have member : ∀ w c, c < counts w → w ∈ sets c := fun w c early => by
    by_cases first : c = 0 <;> simp [sets, counts, first] at early ⊢ <;> grind
  have passage : Passage 3 (.dwindle 0xFFFFFFFF sets counts) _ _ :=
    .follow .start [0, 0, 1, 1, 2, 2, 2, 2, 1, 1, 1, 2, 2, 2, 2] (by decide)
  obtain ⟨all, -, sees⟩ := shrinking_meets some_ member passage
  exact ⟨sets, counts, some_, member, _, _, passage, by decide +kernel, by decide +kernel,
    (sees 0 _ (by decide +kernel) (by decide +kernel)).2 (by decide +kernel), by decide +kernel,
    all 2 1 (by decide +kernel)⟩

end SortNetwork.Barrier
