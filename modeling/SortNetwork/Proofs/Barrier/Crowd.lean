import Mathlib
import SortNetwork.Interleaving
import SortNetwork.Proofs.Barrier
import SortNetwork.Proofs.Lists

/-!
# SortNetwork.Proofs.Barrier.Crowd

Callers that do nothing but call one barrier, again and again, in any order of their steps.

A caller makes its calls one after the other, each for a number of participants of its own.
`Passage n start past crowd` says that some order of the steps of `n` callers leads from `start` to `crowd`,
and that `past` lists these steps, each with its caller and with how far the call had come.  Polls in vain
change nothing and are left out.  From the past one can tell who has arrived and returned how often
(`arrivalsOf`, `returnsOf`), and how often the marker was moved (`releases`).

* `exists_passage_iff`: the crowds that passages lead to are the reachable ones.
* `sum_tally`: what the callers have done one by one comes to what has been done.
* `Passage.arrivalsOf_eq`, `Passage.calls_eq`: whose call is counted, and which calls a caller has before it.
-/

namespace SortNetwork.Barrier

/-- Somebody who calls the barrier: how far its call has come, and for how many participants that call and
each of the later ones is made. -/
structure Caller where
  call : Call := .entering
  calls : List Nat

/-- The barrier and its callers. -/
structure Crowd where
  barrier : Barrier
  callers : Nat → Caller

/-- A step that was taken: by whom, and how far the call had come. -/
structure Act where
  caller : Nat
  call : Call
  deriving DecidableEq, Repr

namespace Crowd

/-- Callers that all make calls for `participants`, caller `w` as many as `calls w`. -/
def gather (kind : BarrierKind) (marker : UInt32) (participants : Nat) (calls : Nat → Nat) : Crowd where
  barrier := { kind, marker }
  callers w := { calls := List.replicate (calls w) participants }

/-- Goes on with the call of a caller, or begins the next one. -/
def step (w : Nat) (crowd : Crowd) : Outcome Crowd :=
  match (crowd.callers w).calls with
  | [] => .finished
  | participants :: later =>
    match crowd.barrier.step participants (crowd.callers w).call with
    | .moved barrier call =>
      .progress ⟨barrier, Function.update crowd.callers w ⟨call, participants :: later⟩⟩
    | .unchanged => .waiting crowd
    | .left barrier => .progress ⟨barrier, Function.update crowd.callers w ⟨.entering, later⟩⟩

/-- The callers as a system. -/
def system (callers : Nat) : System Crowd := ⟨callers, step⟩

/-- Lets callers act in the given order, and adds what they do to the past.  A poll in vain is passed over. -/
def follow : (order : List Nat) → List Act → Crowd → List Act × Crowd
  | [], past, crowd => (past, crowd)
  | w :: order, past, crowd =>
    match crowd.step w with
    | .progress next => follow order (past ++ [⟨w, (crowd.callers w).call⟩]) next
    | _ => follow order past crowd

end Crowd

/-- Steps of the callers in any order, and what they did. -/
inductive Passage (callers : Nat) (start : Crowd) : List Act → Crowd → Prop where
  | start : Passage callers start [] start
  | step {past : List Act} {crowd next : Crowd} (before : Passage callers start past crowd) (w : Nat)
      (inside : w < callers) (moved : crowd.step w = .progress next) :
      Passage callers start (past ++ [⟨w, (crowd.callers w).call⟩]) next

/-! ## what has been done -/

namespace Call

/-- Whether the next step counts the call among the arrivals. -/
def arrives : Call → Bool
  | .arriving _ => true
  | _ => false

/-- Whether the next step, unless it is a poll in vain, is the last one. -/
def returns : Call → Bool
  | .polling _ | .releasing _ => true
  | _ => false

/-- Whether the call has been counted among the arrivals. -/
def counted : Call → Bool
  | .polling _ | .resetting _ | .releasing _ => true
  | _ => false

end Call

/-- How many steps of a kind a caller has taken. -/
def tally (kind : Call → Bool) (past : List Act) (w : Nat) : Nat :=
  past.countP fun act => act.caller == w && kind act.call

/-- How often a caller has been counted. -/
def arrivalsOf : List Act → Nat → Nat := tally Call.arrives

/-- How many calls of a caller have returned. -/
def returnsOf : List Act → Nat → Nat := tally Call.returns

/-- How often anybody has been counted. -/
def allArrivals (past : List Act) : Nat := past.countP fun act => act.call.arrives

/-- How often the marker has been moved. -/
def releases (past : List Act) : Nat := past.countP fun act => act.call.releases

variable {b b' : Barrier} {call next : Call} {participants n w : Nat} {start crowd after : Crowd}
  {past : List Act} {kind : Call → Bool}

theorem tally_snoc : tally kind (past ++ [⟨w, call⟩]) =
    Function.update (tally kind past) w (tally kind past w + (kind call).toNat) := by
  funext u
  by_cases same : u = w
  · subst same
    rw [Function.update_self]
    cases of_kind : kind call <;> simp [tally, of_kind]
  · rw [Function.update_of_ne same]
    simp [tally, Ne.symm same]

/-- A step of another kind is not counted. -/
theorem tally_snoc_of_not (other : kind call = false) :
    tally kind (past ++ [⟨w, call⟩]) = tally kind past := by
  rw [tally_snoc, other]
  exact Function.update_eq_self w _

theorem arrivalsOf_snoc : arrivalsOf (past ++ [⟨w, call⟩]) =
    Function.update (arrivalsOf past) w (arrivalsOf past w + call.arrives.toNat) :=
  tally_snoc

theorem returnsOf_snoc : returnsOf (past ++ [⟨w, call⟩]) =
    Function.update (returnsOf past) w (returnsOf past w + call.returns.toNat) :=
  tally_snoc

theorem releases_snoc : releases (past ++ [⟨w, call⟩]) = releases past + call.releases.toNat := by
  cases moves : call.releases <;> simp [releases, moves]

/-- What the callers have done one by one comes to what has been done. -/
theorem sum_tally (inside : ∀ act ∈ past, act.caller < n) :
    ∑ w ∈ Finset.range n, tally kind past w = past.countP fun act => kind act.call := by
  induction past using List.reverseRecOn with
  | nil => simp [tally]
  | append_singleton past act ih =>
    have earlier := ih fun other member => inside other (by simp [member])
    have here := sum_update (inside act (by simp)) id (tally kind past)
      (tally kind past act.caller + (kind act.call).toNat)
    have last : [act].countP (fun act => kind act.call) = (kind act.call).toNat := by
      cases of_kind : kind act.call <;> simp [of_kind]
    rw [tally_snoc, List.countP_append, ← earlier, last]
    simp only [id_eq] at here
    omega

/-! ## steps -/

/-- Going on with a call counts it if it arrives. -/
theorem counted_of_moved (moved : b.step participants call = .moved b' next) :
    call.returns = false ∧ call.releases = false ∧
      next.counted.toNat = call.counted.toNat + call.arrives.toNat := by
  cases call with
  | arriving snapshot =>
    cases moved
    split <;> exact ⟨rfl, rfl, rfl⟩
  | polling snapshot =>
    simp only [Barrier.step] at moved
    split at moved <;> cases moved
  | releasing snapshot => cases moved
  | _ =>
    cases moved
    exact ⟨rfl, rfl, rfl⟩

/-- A call that returns has been counted before. -/
theorem counted_of_left (left : b.step participants call = .left b') :
    call.returns = true ∧ call.arrives = false ∧ call.counted = true := by
  cases call with
  | polling snapshot => exact ⟨rfl, rfl, rfl⟩
  | releasing snapshot => exact ⟨rfl, rfl, rfl⟩
  | _ => cases left

/-- What a step does: it goes on with the call, or the call returns. -/
theorem Crowd.exists_of_progress (moved : crowd.step w = .progress after) :
    ∃ participants later, (crowd.callers w).calls = participants :: later ∧
      ((∃ b next, crowd.barrier.step participants (crowd.callers w).call = .moved b next ∧
          after = ⟨b, Function.update crowd.callers w ⟨next, participants :: later⟩⟩) ∨
        ∃ b, crowd.barrier.step participants (crowd.callers w).call = .left b ∧
          after = ⟨b, Function.update crowd.callers w ⟨.entering, later⟩⟩) := by
  unfold Crowd.step at moved
  split at moved
  · cases moved
  · next participants later calls =>
    refine ⟨participants, later, calls, ?_⟩
    split at moved
    · next b next goes =>
      cases moved
      exact .inl ⟨b, next, goes, rfl⟩
    · cases moved
    · next b left =>
      cases moved
      exact .inr ⟨b, left, rfl⟩

/-- A caller that has calls to make takes a step, unless it polls an unchanged marker. -/
theorem Crowd.exists_progress (busy : (crowd.callers w).calls ≠ [])
    (free : (crowd.callers w).call ≠ .polling crowd.barrier.marker) :
    ∃ next, crowd.step w = .progress next := by
  obtain ⟨participants, later, calls⟩ := List.exists_cons_of_ne_nil busy
  simp only [Crowd.step, calls]
  cases turn : crowd.barrier.step participants (crowd.callers w).call with
  | moved b next => exact ⟨_, rfl⟩
  | left b => exact ⟨_, rfl⟩
  | unchanged =>
    cases now : (crowd.callers w).call with
    | polling snapshot =>
      rw [now] at turn free
      simp only [Barrier.step] at turn
      split at turn
      · next same => exact absurd (congrArg Call.polling same.symm) free
      · cases turn
    | _ =>
      rw [now] at turn
      cases turn

namespace Passage

/-- Only callers act. -/
theorem caller_lt (passage : Passage n start past crowd) : ∀ act ∈ past, act.caller < n := by
  induction passage with
  | start => simp
  | step _ w inside _ ih =>
    intro act member
    rcases List.mem_append.1 member with earlier | here
    · exact ih act earlier
    · rw [List.mem_singleton.1 here]
      exact inside

/-- A caller has arrived once for each call that has returned, and once more if its call is counted. -/
theorem arrivalsOf_eq (passage : Passage n start past crowd)
    (idle : ∀ w, (start.callers w).call = .entering) (w : Nat) :
    arrivalsOf past w = returnsOf past w + (crowd.callers w).call.counted.toNat := by
  induction passage generalizing w with
  | start => simp [arrivalsOf, returnsOf, tally, idle, Call.counted]
  | step _ v _ moved ih =>
    rw [arrivalsOf_snoc, returnsOf_snoc]
    obtain ⟨_, _, _, ⟨b, next, goes, rfl⟩ | ⟨b, left, rfl⟩⟩ := Crowd.exists_of_progress moved
    · obtain ⟨stays, -, counted⟩ := counted_of_moved goes
      by_cases same : w = v
      · subst same
        have before := ih w
        simp only [Function.update_self, stays] at before ⊢
        rw [before, counted]
        simp [Nat.add_assoc]
      · simpa only [Function.update_of_ne same] using ih w
    · obtain ⟨returns, away, counted⟩ := counted_of_left left
      by_cases same : w = v
      · subst same
        have before := ih w
        simp only [Function.update_self, returns, away, counted] at before ⊢
        simpa [Call.counted] using before
      · simpa only [Function.update_of_ne same] using ih w

/-- The calls that a caller has before it are those that have not returned. -/
theorem calls_eq (passage : Passage n start past crowd) (w : Nat) :
    (crowd.callers w).calls = (start.callers w).calls.drop (returnsOf past w) ∧
      returnsOf past w ≤ (start.callers w).calls.length := by
  induction passage with
  | start => simp [returnsOf, tally]
  | @step past _ _ _ v _ moved ih =>
    rw [returnsOf_snoc]
    obtain ⟨first, later, here, ⟨b, next, goes, rfl⟩ | ⟨b, left, rfl⟩⟩ := Crowd.exists_of_progress moved
    · obtain ⟨stays, -⟩ := counted_of_moved goes
      rw [stays, Bool.toNat_false, Nat.add_zero, Function.update_eq_self]
      by_cases same : w = v
      · subst same
        simpa [here] using ih
      · simpa only [Function.update_of_ne same] using ih
    · obtain ⟨returns, -⟩ := counted_of_left left
      by_cases same : w = v
      · subst same
        obtain ⟨rest, short⟩ := ih
        rw [here] at rest
        have longer : returnsOf past w < (start.callers w).calls.length := by
          by_contra done
          rw [List.drop_of_length_le (by omega)] at rest
          cases rest
        simp only [Function.update_self, returns, Bool.toNat_true]
        refine ⟨?_, longer⟩
        rw [← List.drop_drop, ← rest]
        rfl
      · simpa only [Function.update_of_ne same] using ih

/-- Following an order of steps continues a passage. -/
theorem follow (passage : Passage n start past crowd) (order : List Nat) (inside : ∀ w ∈ order, w < n) :
    Passage n start (Crowd.follow order past crowd).1 (Crowd.follow order past crowd).2 := by
  induction order generalizing past crowd with
  | nil => exact passage
  | cons w order ih =>
    have later : ∀ v ∈ order, v < n := fun v member => inside v (by simp [member])
    unfold Crowd.follow
    split
    · next moved => exact ih (.step passage w (inside w (by simp)) moved) later
    · exact ih passage later

end Passage

/-- A poll in vain changes nothing. -/
theorem Crowd.eq_of_waiting (polled : crowd.step w = .waiting after) : after = crowd := by
  unfold Crowd.step at polled
  split at polled
  · cases polled
  · split at polled <;> cases polled
    rfl

/-- The crowds that passages lead to are the reachable ones. -/
theorem exists_passage_iff :
    (∃ past, Passage n start past crowd) ↔ (Crowd.system n).Reachable start crowd := by
  constructor
  · rintro ⟨past, passage⟩
    induction passage with
    | start => exact .start
    | step _ w inside moved ih => exact .step ih (.progress w inside moved)
  · intro reached
    induction reached with
    | start => exact ⟨[], .start⟩
    | step _ move ih =>
      obtain ⟨past, passage⟩ := ih
      cases move with
      | progress w inside moved => exact ⟨_, .step passage w inside moved⟩
      | waiting w inside polled => exact ⟨past, Crowd.eq_of_waiting polled ▸ passage⟩

end SortNetwork.Barrier
