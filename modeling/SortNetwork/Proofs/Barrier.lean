import Mathlib
import SortNetwork.Barrier
import SortNetwork.Proofs.Lists

/-!
# SortNetwork.Proofs.Barrier

Participants that meet at a barrier, time and again, in any order of their steps.

A release moves the marker, and what matters of the marker is only whether it is another one than before
(`BarrierKind.iterate_advance_ne_iff`).

`Meeting` relates the barrier to what each participant is doing and to how many meetings each has been
through. Everybody has been through as many meetings as have been released, but for those that still poll
the marker of the last one.  The invariant is kept by every step of a call (`Meeting.moved`,
`Meeting.left`), for both kinds of barrier, and somebody can always go on (`Meeting.exists_free`).
-/

namespace SortNetwork

namespace BarrierKind

/-- The marker that a release leaves. -/
def advance : BarrierKind → UInt32 → UInt32
  | .senseReversal, marker => ~~~marker
  | .stepCounter, marker => marker + 1

/-- Whether a marker that was moved so often is another one than before. -/
def Shows : BarrierKind → Nat → Prop
  | .senseReversal, moves => Odd moves
  | .stepCounter, moves => ¬2 ^ 32 ∣ moves

instance : (kind : BarrierKind) → DecidablePred kind.Shows
  | .senseReversal, moves => inferInstanceAs (Decidable (Odd moves))
  | .stepCounter, moves => inferInstanceAs (Decidable (¬2 ^ 32 ∣ moves))

/-- A count of releases shows every move, up to the time it comes round. -/
theorem shows_stepCounter_iff {moves : Nat} (few : moves < 2 ^ 32) : stepCounter.Shows moves ↔ 0 < moves := by
  change ¬2 ^ 32 ∣ moves ↔ 0 < moves
  rw [Nat.dvd_iff_mod_eq_zero, Nat.mod_eq_of_lt few, Nat.pos_iff_ne_zero]

theorem iterate_complement (moves : Nat) (marker : UInt32) :
    (senseReversal.advance)^[moves] marker = if Odd moves then ~~~marker else marker := by
  induction moves with
  | zero => simp
  | succ moves ih =>
    rw [Function.iterate_succ_apply', ih]
    by_cases odd : Odd moves
    · simp [odd, advance, Nat.odd_add_one]
    · simp [odd, advance, Nat.odd_add_one]

theorem iterate_increment (moves : Nat) (marker : UInt32) :
    (stepCounter.advance)^[moves] marker = marker + UInt32.ofNat moves := by
  induction moves with
  | zero => simp
  | succ moves ih =>
    rw [Function.iterate_succ_apply', ih, advance, UInt32.add_assoc]
    congr 1
    exact (UInt32.ofNat_add ..).symm

/-- A poll sees a marker that was moved, unless the moves have brought it back. -/
theorem iterate_advance_ne_iff (kind : BarrierKind) (moves : Nat) (marker : UInt32) :
    kind.advance^[moves] marker ≠ marker ↔ kind.Shows moves := by
  cases kind with
  | senseReversal =>
    rw [iterate_complement, Shows]
    have other : ~~~marker ≠ marker := by
      intro same
      have := congrArg UInt32.toBitVec same
      simp at this
    by_cases odd : Odd moves <;> simp [odd, other]
  | stepCounter =>
    rw [iterate_increment, Shows, not_iff_not]
    constructor
    · intro same
      have none : UInt32.ofNat moves = 0 := by simpa using same
      have := congrArg UInt32.toNat none
      simpa [Nat.dvd_iff_mod_eq_zero] using this
    · intro multiple
      have none : UInt32.ofNat moves = 0 := by
        apply UInt32.toNat_inj.1
        simpa [Nat.dvd_iff_mod_eq_zero] using multiple
      rw [none, UInt32.add_zero]

end BarrierKind

namespace Barrier

/-- How a participant stands when `released` meetings have been released, it has been through `done` of
them and the marker is `marker`. -/
def Call.Fits (marker : UInt32) (released done : Nat) : Call → Prop
  | .entering => done = released
  | .arriving snapshot | .resetting snapshot | .releasing snapshot => done = released ∧ snapshot = marker
  | .polling snapshot => done = released ∧ snapshot = marker ∨ done + 1 = released ∧ snapshot ≠ marker

/-- Whether a participant is the one that completes a meeting. -/
def Call.closing : Call → Bool
  | .resetting _ | .releasing _ => true
  | _ => false

/-- Whether the next step moves the marker. -/
def Call.releases : Call → Bool
  | .releasing _ => true
  | _ => false

/-- How many participants wait for the marker to move. -/
def waiting (participants : Nat) (marker : UInt32) (call : Nat → Call) : Nat :=
  ∑ w ∈ Finset.range participants, if call w = .polling marker then 1 else 0

/-- All participants but one wait for the marker to move. -/
def OthersWait (participants : Nat) (marker : UInt32) (call : Nat → Call) (w : Nat) : Prop :=
  ∀ u < participants, u ≠ w → call u = .polling marker

/-- How far the present meeting has come. -/
inductive Phase (participants : Nat) (b : Barrier) (call : Nat → Call) : Prop where
  /-- some have not arrived -/
  | gathering (open_ : ∀ w < participants, (call w).closing = false)
      (tally : b.arrivals = waiting participants b.marker call) (short : b.arrivals < participants)
  /-- all have arrived, and the last one is about to reset the count -/
  | complete (w : Nat) (inside : w < participants) (last : call w = .resetting b.marker)
      (others : OthersWait participants b.marker call w) (full : b.arrivals = participants)
  /-- the count is reset, and the last one is about to move the marker -/
  | ending (w : Nat) (inside : w < participants) (last : call w = .releasing b.marker)
      (others : OthersWait participants b.marker call w) (reset : b.arrivals = 0)

/-- Every participant stands as it should, and so does the count of arrivals. -/
structure Meeting (participants : Nat) (b : Barrier) (call : Nat → Call) (done : Nat → Nat)
    (released : Nat) :
    Prop where
  fits : ∀ w < participants, (call w).Fits b.marker released (done w)
  phase : Phase participants b call

variable {participants w released : Nat} {b b' : Barrier} {call : Nat → Call} {done : Nat → Nat}
  {next : Call}
  {snapshot : UInt32}

theorem Call.Fits.bounds {c : Call} {d : Nat} (fits : c.Fits b.marker released d) :
    d ≤ released ∧ released ≤ d + 1 := by
  cases c <;> simp only [Call.Fits] at fits <;> omega

/-- No step leads a call back to where it began. -/
theorem ne_entering_of_moved {c : Call} (moved : b.step participants c = .moved b' next) :
    next ≠ .entering := by
  cases c with
  | arriving snapshot =>
    cases moved
    split <;> simp
  | polling snapshot =>
    simp only [Barrier.step] at moved
    split at moved <;> cases moved
  | releasing snapshot => cases moved
  | _ =>
    cases moved
    simp

theorem release_marker (b : Barrier) : (b.release b.marker).marker = b.kind.advance b.marker := by
  unfold release
  cases b.kind <;> rfl

/-- A release moves the marker, whatever the kind of the barrier. -/
theorem marker_release_ne (b : Barrier) : (b.release b.marker).marker ≠ b.marker := by
  have moves : b.kind.Shows 1 := by cases b.kind <;> decide
  rw [release_marker]
  exact (b.kind.iterate_advance_ne_iff 1 b.marker).2 moves

theorem waiting_update (inside : w < participants) (marker : UInt32) (call : Nat → Call) (c : Call) :
    waiting participants marker (Function.update call w c) + (if call w = .polling marker then 1 else 0) =
      waiting participants marker call + if c = .polling marker then 1 else 0 :=
  sum_update inside (fun c : Call => if c = .polling marker then 1 else 0) call c

/-- If all but one have arrived, those wait. -/
theorem othersWait_of_le (inside : w < participants) {marker : UInt32} (busy : call w ≠ .polling marker)
    (all : participants - 1 ≤ waiting participants marker call) :
    OthersWait participants marker call w := by
  intro u hu other
  by_contra away
  let waiters := (Finset.range participants).filter fun v => call v = .polling marker
  have card : waiting participants marker call = waiters.card := (Finset.card_filter _ _).symm
  have fewer : waiters ⊆ ((Finset.range participants).erase w).erase u := by
    intro v member
    obtain ⟨hv, waits⟩ := Finset.mem_filter.1 member
    refine Finset.mem_erase.2 ⟨?_, Finset.mem_erase.2 ⟨?_, hv⟩⟩
    · rintro rfl
      exact away waits
    · rintro rfl
      exact busy waits
  have := Finset.card_le_card fewer
  rw [Finset.card_erase_of_mem (by simp [hu, other]), Finset.card_erase_of_mem (by simp [inside]),
    Finset.card_range] at this
  omega

namespace Phase

/-- As long as somebody has not arrived, the meeting is gathering. -/
theorem of_away (phase : Phase participants b call) (inside : w < participants)
    (away : call w = .entering ∨ ∃ snapshot, call w = .arriving snapshot) :
    (∀ u < participants, (call u).closing = false) ∧ b.arrivals = waiting participants b.marker call ∧
      b.arrivals < participants := by
  cases phase with
  | gathering open_ tally short => exact ⟨open_, tally, short⟩
  | complete v hv last others _ =>
    by_cases same : w = v
    · subst same
      simp [last] at away
    · simp [others w inside same] at away
  | ending v hv last others _ =>
    by_cases same : w = v
    · subst same
      simp [last] at away
    · simp [others w inside same] at away

theorem of_resetting (phase : Phase participants b call) (inside : w < participants)
    (last : call w = .resetting snapshot) : OthersWait participants b.marker call w := by
  cases phase with
  | gathering open_ _ _ => simpa [last, Call.closing] using open_ w inside
  | complete v hv _ others _ =>
    by_cases same : w = v
    · exact same ▸ others
    · simp [others w inside same] at last
  | ending v hv last' others _ =>
    by_cases same : w = v
    · subst same
      simp [last'] at last
    · simp [others w inside same] at last

theorem of_releasing (phase : Phase participants b call) (inside : w < participants)
    (last : call w = .releasing snapshot) : OthersWait participants b.marker call w ∧ b.arrivals = 0 := by
  cases phase with
  | gathering open_ _ _ => simpa [last, Call.closing] using open_ w inside
  | complete v hv last' others _ =>
    by_cases same : w = v
    · subst same
      simp [last'] at last
    · simp [others w inside same] at last
  | ending v hv _ others reset =>
    by_cases same : w = v
    · exact ⟨same ▸ others, reset⟩
    · simp [others w inside same] at last

end Phase

namespace Meeting

/-- Going on with a call keeps the meeting, and releases nothing. -/
theorem moved (meeting : Meeting participants b call done released) (inside : w < participants)
    (step : b.step participants (call w) = .moved b' next) :
    Meeting participants b' (Function.update call w next) done released ∧ b'.marker = b.marker := by
  have here := meeting.fits w inside
  have fits : next.Fits b.marker released (done w) → b'.marker = b.marker →
      ∀ u < participants, (Function.update call w next u).Fits b'.marker released (done u) := by
    intro own marker
    rw [marker]
    exact (Function.forall_update_iff call fun u c => u < participants →
      c.Fits b.marker released (done u)).2
      ⟨fun _ => own, fun u _ => meeting.fits u⟩
  have others : ∀ {marker}, OthersWait participants marker call w →
      OthersWait participants marker (Function.update call w next) w := by
    intro marker wait u hu other
    rw [Function.update_of_ne other]
    exact wait u hu other
  cases now : call w with
  | entering =>
    rw [now] at here step
    cases step
    obtain ⟨open_, tally, short⟩ := meeting.phase.of_away inside (.inl now)
    refine ⟨⟨fits ⟨here, rfl⟩ rfl, .gathering ?_ ?_ short⟩, rfl⟩
    · exact (Function.forall_update_iff call fun u c => u < participants → c.closing = false).2
        ⟨fun _ => rfl, fun u _ => open_ u⟩
    · simpa [now, tally] using (waiting_update inside b.marker call (.arriving b.marker)).symm
  | arriving snapshot =>
    rw [now] at here step
    obtain ⟨caught, rfl⟩ := here
    cases step
    obtain ⟨open_, tally, short⟩ := meeting.phase.of_away inside (.inr ⟨_, now⟩)
    have busy : call w ≠ .polling b.marker := by simp [now]
    by_cases full : b.completes participants = true
    · have reached : participants - 1 ≤ b.arrivals := by simpa [completes] using full
      have all : participants - 1 ≤ waiting participants b.marker call := tally ▸ reached
      rw [if_pos full] at fits others ⊢
      refine ⟨⟨fits ⟨caught, rfl⟩ rfl, ?_⟩, rfl⟩
      refine .complete w inside (Function.update_self ..) (others (othersWait_of_le inside busy all)) ?_
      simp only [arrive]
      omega
    · rw [if_neg full] at fits ⊢
      refine ⟨⟨fits (.inl ⟨caught, rfl⟩) rfl, .gathering ?_ ?_ ?_⟩, rfl⟩
      · exact (Function.forall_update_iff call fun u c => u < participants → c.closing = false).2
          ⟨fun _ => rfl, fun u _ => open_ u⟩
      · have := waiting_update inside b.marker call (.polling b.marker)
        simp only [now, if_true, reduceCtorEq, if_false] at this
        exact (congrArg (· + 1) tally).trans this.symm
      · have : ¬participants - 1 ≤ b.arrivals := by simpa [completes] using full
        simp only [arrive]
        omega
  | polling snapshot =>
    rw [now] at step
    simp only [Barrier.step] at step
    split at step <;> cases step
  | resetting snapshot =>
    rw [now] at here step
    obtain ⟨caught, rfl⟩ := here
    cases step
    have wait := others (meeting.phase.of_resetting inside now)
    exact ⟨⟨fits ⟨caught, rfl⟩ rfl, .ending w inside (Function.update_self ..) wait rfl⟩, rfl⟩
  | releasing snapshot =>
    rw [now] at step
    cases step

/-- Whoever finds that the marker has moved has been through all meetings that are released. -/
theorem caught_up (meeting : Meeting participants b call done released) (inside : w < participants)
    (now : call w = .polling snapshot) (moved : b.marker ≠ snapshot) :
    Meeting participants b (Function.update call w .entering) (Function.update done w (done w + 1))
      released := by
  have here := meeting.fits w inside
  rw [now] at here
  obtain ⟨-, same⟩ | ⟨caught, -⟩ := here
  · exact absurd same.symm moved
  refine ⟨fun u hu => ?_, ?_⟩
  · by_cases same : u = w
    · subst same
      simp only [Function.update_self]
      exact caught
    · simpa only [Function.update_of_ne same] using meeting.fits u hu
  · cases meeting.phase with
    | gathering open_ tally short =>
      refine .gathering ?_ ?_ short
      · exact (Function.forall_update_iff call fun u c => u < participants → c.closing = false).2
          ⟨fun _ => rfl, fun u _ => open_ u⟩
      · have elsewhere : ¬Call.polling snapshot = .polling b.marker := by simpa using Ne.symm moved
        simpa [now, tally, elsewhere] using (waiting_update inside b.marker call .entering).symm
    | complete v hv last others _ =>
      have other : w ≠ v := by
        rintro rfl
        simp [last] at now
      simp [others w inside other, moved] at now
    | ending v hv last others _ =>
      have other : w ≠ v := by
        rintro rfl
        simp [last] at now
      simp [others w inside other, moved] at now

/-- Moving the marker releases the meeting, for all others are waiting for that. -/
theorem released_of_releasing (meeting : Meeting participants b call done released)
    (inside : w < participants)
    (now : call w = .releasing snapshot) :
    Meeting participants (b.release snapshot) (Function.update call w .entering)
      (Function.update done w (done w + 1)) (released + 1) := by
  have here := meeting.fits w inside
  rw [now] at here
  obtain ⟨caught, rfl⟩ := here
  obtain ⟨others, reset⟩ := meeting.phase.of_releasing inside now
  have moves := marker_release_ne b
  have arrivals : (b.release b.marker).arrivals = 0 := by
    rw [← reset, release]
    cases b.kind <;> rfl
  refine ⟨fun u hu => ?_, .gathering ?_ ?_ ?_⟩
  · by_cases same : u = w
    · subst same
      simp only [Function.update_self]
      exact congrArg (· + 1) caught
    · simp only [Function.update_of_ne same]
      have before := meeting.fits u hu
      rw [others u hu same] at before ⊢
      rcases before with ⟨level, -⟩ | ⟨-, absurdity⟩
      · exact .inr ⟨by rw [level], moves.symm⟩
      · exact absurd rfl absurdity
  · intro u hu
    by_cases same : u = w
    · subst same
      rw [Function.update_self]
      rfl
    · rw [Function.update_of_ne same, others u hu same]
      rfl
  · rw [arrivals]
    refine (Finset.sum_eq_zero fun u member => if_neg ?_).symm
    by_cases same : u = w
    · subst same
      simp
    · rw [Function.update_of_ne same, others u (Finset.mem_range.1 member) same]
      simpa using moves.symm
  · rw [arrivals]
    omega

/-- Whoever returns from a call has been through one meeting more, and the meeting is released by whoever
moves the marker. -/
theorem left (meeting : Meeting participants b call done released) (inside : w < participants)
    (step : b.step participants (call w) = .left b') :
    Meeting participants b' (Function.update call w .entering) (Function.update done w (done w + 1))
      (released + (call w).releases.toNat) := by
  cases now : call w with
  | polling snapshot =>
    rw [now] at step
    simp only [Barrier.step] at step
    split at step
    · cases step
    · next moved =>
      cases step
      exact meeting.caught_up inside now moved
  | releasing snapshot =>
    rw [now] at step
    cases step
    exact meeting.released_of_releasing inside now
  | _ =>
    rw [now] at step
    cases step

/-- The marker differs from the snapshot of a poll exactly if the meeting of the call is released. -/
theorem marker_ne_iff (meeting : Meeting participants b call done released) (inside : w < participants)
    (now : call w = .polling snapshot) : b.marker ≠ snapshot ↔ done w < released := by
  have here := meeting.fits w inside
  rw [now] at here
  obtain ⟨level, rfl⟩ | ⟨behind, moved⟩ := here
  · simp [level]
  · exact ⟨fun _ => by omega, fun _ => moved.symm⟩

/-- As many have arrived as take part exactly while the last one is about to reset the count. -/
theorem arrivals_eq_iff (meeting : Meeting participants b call done released) :
    b.arrivals = participants ↔ ∃ w < participants, ∃ snapshot, call w = .resetting snapshot := by
  constructor
  · intro all
    cases meeting.phase with
    | gathering _ _ short => omega
    | complete w inside last _ _ => exact ⟨w, inside, _, last⟩
    | ending w inside _ _ reset => omega
  · rintro ⟨w, inside, snapshot, last⟩
    cases meeting.phase with
    | gathering open_ _ _ => simpa [last, Call.closing] using open_ w inside
    | complete _ _ _ _ full => exact full
    | ending v _ last' others _ =>
      by_cases same : w = v
      · subst same
        simp [last'] at last
      · simp [others w inside same] at last

theorem arrivals_le (meeting : Meeting participants b call done released) : b.arrivals ≤ participants := by
  cases meeting.phase with
  | gathering _ _ short => exact short.le
  | complete _ _ _ _ full => exact full.le
  | ending _ _ _ _ reset => exact reset.trans_le (Nat.zero_le _)

/-- Somebody does not wait for the marker to move. -/
theorem exists_free (meeting : Meeting participants b call done released) :
    ∃ w < participants, call w ≠ .polling b.marker := by
  cases meeting.phase with
  | gathering open_ tally short =>
    by_contra all
    push Not at all
    have full : waiting participants b.marker call = participants := by
      rw [waiting, Finset.sum_congr rfl fun w member => if_pos (all w (Finset.mem_range.1 member))]
      simp
    omega
  | complete w inside last others _ => exact ⟨w, inside, by simp [last]⟩
  | ending w inside last others _ => exact ⟨w, inside, by simp [last]⟩

end Meeting

/-- Before anybody has come, the barrier is ready for any number of participants, whatever its marker. -/
theorem meeting_start (kind : BarrierKind) (marker : UInt32) (some_ : 0 < participants) :
    Meeting participants { kind, marker } (fun _ => .entering) (fun _ => 0) 0 :=
  ⟨fun _ _ => rfl, .gathering (fun _ _ => rfl) (by simp [waiting]) some_⟩

end Barrier

end SortNetwork
