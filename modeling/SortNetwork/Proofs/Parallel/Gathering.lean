import Mathlib
import SortNetwork.Proofs.Barrier
import SortNetwork.Proofs.Parallel.History
import SortNetwork.Proofs.Parallel.Orderly

/-!
# SortNetwork.Proofs.Parallel.Gathering

Workers that meet at a barrier.

Each worker has the same number of meetings before it, and takes part in the barrier with the first call
in its code (`Gathered`).  A worker lags at most one meeting behind those that were released
(`Gathered.le_met`), and one that has no call open lags behind none (`Gathered.met_eq`).  The calls that a
worker has made and those it still has to make are always as many (`History.count_meet`).
-/

namespace SortNetwork.Parallel

open Barrier (Call Meeting)

/-! ## calls and meetings -/

/-- Weighs the meetings that are left. -/
def meetings : Instruction → Nat
  | .barrier _ => 1
  | _ => 0

/-- The call to the barrier that a worker is in, or will make next. -/
def callOf : List Instruction → Call
  | [] => .entering
  | .barrier call :: _ => call
  | _ :: rest => callOf rest

/-- No call has begun. -/
def Fresh (code : List Instruction) : Prop := ∀ call, .barrier call ∈ code → call = .entering

/-- No call has begun but perhaps the first. -/
def InTurn : List Instruction → Prop
  | [] => True
  | .barrier _ :: rest => Fresh rest
  | _ :: rest => InTurn rest

variable {code more : List Instruction} {w : Nat}

theorem meetings_of_incidental (incidental : ∀ x ∈ more, x.incidental = true) :
    total meetings more = 0 := by
  induction more with
  | nil => rfl
  | cons x more ih =>
    rw [total_cons, ih fun y h => incidental y (by simp [h])]
    have := incidental x (by simp)
    cases x <;> first | rfl | cases this

theorem callOf_append (incidental : ∀ x ∈ more, x.incidental = true) :
    callOf (more ++ code) = callOf code := by
  induction more with
  | nil => rfl
  | cons x more ih =>
    have later := ih fun y h => incidental y (by simp [h])
    have := incidental x (by simp)
    cases x <;> first | exact later | cases this

theorem InTurn.append (inTurn : InTurn code) (incidental : ∀ x ∈ more, x.incidental = true) :
    InTurn (more ++ code) := by
  induction more with
  | nil => exact inTurn
  | cons x more ih =>
    have later := ih fun y h => incidental y (by simp [h])
    have := incidental x (by simp)
    cases x <;> first | exact later | cases this

theorem Fresh.callOf_eq (fresh : Fresh code) : callOf code = .entering := by
  induction code with
  | nil => rfl
  | cons x code ih =>
    have later := ih fun call member => fresh call (by simp [member])
    cases x with
    | barrier call => exact fresh call (by simp)
    | _ => exact later

theorem Fresh.inTurn (fresh : Fresh code) : InTurn code := by
  induction code with
  | nil => trivial
  | cons x code ih =>
    have later : Fresh code := fun call member => fresh call (by simp [member])
    cases x with
    | barrier call => exact later
    | _ => exact ih later

/-- Code with no call begun calls the barrier once for each meeting. -/
theorem Fresh.count_meet (fresh : Fresh code) : code.count .meet = total meetings code := by
  induction code with
  | nil => rfl
  | cons x code ih =>
    rw [List.count_cons, total_cons, ih fun call member => fresh call (by simp [member]), Nat.add_comm]
    cases x with
    | barrier call =>
      rw [fresh call (by simp)]
      rfl
    | _ => rfl

/-- Whoever has a call open has a meeting left. -/
theorem meetings_pos_of_callOf (open_ : callOf code ≠ .entering) : 0 < total meetings code := by
  induction code with
  | nil => exact absurd rfl open_
  | cons x code ih =>
    rw [total_cons]
    cases x with
    | barrier call => exact Nat.lt_add_right _ Nat.one_pos
    | _ => exact Nat.add_pos_right _ (ih open_)

namespace Outline

/-- How many meetings a worker has been through, of `rounds`. -/
def met (rounds : Nat) (o : Outline) (w : Nat) : Nat := rounds - total meetings (o.code w)

/-- The workers meet at the barrier, `rounds` times each, and `released` meetings have been released. -/
structure Gathered (threads rounds released : Nat) (o : Outline) : Prop where
  inTurn : ∀ w, InTurn (o.code w)
  within : ∀ w < threads, total meetings (o.code w) ≤ rounds
  meeting : Meeting threads o.barrier (fun w => callOf (o.code w)) (o.met rounds) released

namespace Gathered

variable {threads rounds released w : Nat} {o o' : Outline} {instruction : Instruction}

theorem met_add (gathered : o.Gathered threads rounds released) (inside : w < threads) :
    o.met rounds w + total meetings (o.code w) = rounds :=
  Nat.sub_add_cancel (gathered.within w inside)

theorem met_le (gathered : o.Gathered threads rounds released) (inside : w < threads) :
    o.met rounds w ≤ released :=
  (gathered.meeting.fits w inside).bounds.1

theorem le_met (gathered : o.Gathered threads rounds released) (inside : w < threads) :
    released ≤ o.met rounds w + 1 :=
  (gathered.meeting.fits w inside).bounds.2

/-- A worker outside all calls has been through all meetings that are released. -/
theorem met_eq (gathered : o.Gathered threads rounds released) (inside : w < threads)
    (outside : callOf (o.code w) = .entering) : o.met rounds w = released := by
  have fits := gathered.meeting.fits w inside
  rw [outside] at fits
  exact fits

theorem callOf_update (o : Outline) (w : Nat) (code : List Instruction) :
    (fun u => callOf (Function.update o.code w code u)) =
      Function.update (fun u => callOf (o.code u)) w (callOf code) :=
  Function.comp_update callOf o.code w code

theorem met_update (effect : Outline) (w : Nat) (code : List Instruction) :
    ({ effect with code := Function.update o.code w code } : Outline).met rounds =
      Function.update (o.met rounds) w (rounds - total meetings code) :=
  Function.comp_update (fun code => rounds - total meetings code) o.code w code

/-- The code of a worker changed in front of its first call, or behind it. -/
theorem update (gathered : o.Gathered threads rounds released) (effect : Outline)
    {code : List Instruction}
    (inTurn : InTurn code) (call : callOf code = callOf (o.code w))
    (left : total meetings code = total meetings (o.code w)) (barrier : effect.barrier = o.barrier) :
    ({ effect with code := Function.update o.code w code } : Outline).Gathered
      threads rounds released := by
  refine ⟨?_, ?_, ?_⟩
  · exact (Function.forall_update_iff _ fun _ code => InTurn code).2
      ⟨inTurn, fun u _ => gathered.inTurn u⟩
  · refine (Function.forall_update_iff o.code fun u code => u < threads → total meetings code ≤ rounds).2
      ⟨fun inside => ?_, fun u _ => gathered.within u⟩
    rw [left]
    exact gathered.within w inside
  · have meeting := gathered.meeting
    rw [met_update, callOf_update, call, left]
    simp only [barrier]
    have same : Function.update (fun u => callOf (o.code u)) w (callOf (o.code w)) =
      fun u => callOf (o.code u) :=
      Function.update_eq_self w _
    have same' : Function.update (o.met rounds) w (rounds - total meetings (o.code w)) = o.met rounds :=
      Function.update_eq_self w _
    rw [same, same']
    exact meeting

/-- A step of a worker keeps the meetings, and may release one. -/
theorem of_move {counting : Bool} (gathered : o.Gathered threads rounds released) (inside : w < threads)
    (move : o.Move threads counting w instruction o') :
    ∃ released', released ≤ released' ∧ o'.Gathered threads rounds released' := by
  obtain ⟨rest, more, effect, code, fires, rfl⟩ := move
  have inTurn := gathered.inTurn w
  have within := gathered.within w inside
  have incidental := fires.incidental
  have plain : (∀ call, instruction ≠ .barrier call) → effect.barrier = o.barrier →
      ∃ released', released ≤ released' ∧
        ({ effect with code := Function.update o.code w (more ++ rest) } : Outline).Gathered
          threads rounds released' := by
    intro noCall barrier
    have incidental := incidental.resolve_left fun ⟨call, _, isCall, _⟩ => noCall call isCall
    rw [code] at inTurn
    have before :
        InTurn rest ∧ callOf (instruction :: rest) = callOf rest ∧ meetings instruction = 0 := by
      cases instruction with
      | barrier call => exact absurd rfl (noCall call)
      | _ => exact ⟨inTurn, rfl, rfl⟩
    obtain ⟨inTurn, call, weightless⟩ := before
    refine ⟨released, le_refl _, gathered.update effect (inTurn.append incidental) ?_ ?_ barrier⟩
    · rw [callOf_append incidental, code, call]
    · rw [total_append, meetings_of_incidental incidental, code, total_cons, weightless]
  cases fires with
  | barrier call next b moved =>
    rw [code] at inTurn within
    have step : o.barrier.step threads (callOf (o.code w)) = .moved b next := by
      rw [code]
      exact moved
    obtain ⟨meeting, -⟩ := gathered.meeting.moved inside step
    refine ⟨released, le_refl _, ?_, ?_, ?_⟩
    · exact (Function.forall_update_iff _ fun _ code => InTurn code).2
        ⟨inTurn, fun u _ => gathered.inTurn u⟩
    · exact (Function.forall_update_iff o.code fun u code => u < threads → total meetings code ≤ rounds).2
        ⟨fun _ => within, fun u _ => gathered.within u⟩
    · rw [met_update, callOf_update]
      have same : Function.update (o.met rounds) w (rounds - total meetings ([.barrier next] ++ rest)) =
        o.met rounds := by
        rw [Function.update_eq_self_iff, met, code]
        rfl
      rw [same]
      exact meeting
  | left call b returned =>
    rw [code] at inTurn within
    have step : o.barrier.step threads (callOf (o.code w)) = .left b := by
      rw [code]
      exact returned
    have meeting := gathered.meeting.left inside step
    refine ⟨released + (callOf (o.code w)).releases.toNat, Nat.le_add_right _ _, ?_, ?_, ?_⟩
    · exact (Function.forall_update_iff _ fun _ code => InTurn code).2
        ⟨inTurn.inTurn, fun u _ => gathered.inTurn u⟩
    · refine (Function.forall_update_iff o.code fun u code => u < threads →
        total meetings code ≤ rounds).2
        ⟨fun _ => ?_, fun u _ => gathered.within u⟩
      rw [total_cons] at within
      exact (Nat.le_add_left _ _).trans within
    · have next : rounds - total meetings ([] ++ rest) = o.met rounds w + 1 := by
        rw [met, code, total_cons, meetings] at *
        rw [List.nil_append]
        omega
      rw [met_update, callOf_update, next, List.nil_append, inTurn.callOf_eq]
      exact meeting
  | _ => exact plain (by simp) rfl

theorem of_idle (gathered : o.Gathered threads rounds released) (helps : o.Helps threads)
    (idle : o.Idle w o') :
    o'.Gathered threads rounds released := by
  obtain ⟨_, _, _, _, rfl⟩ := idle
  have incidental := helps.incidental (w := w)
  refine gathered.update o ((gathered.inTurn w).append incidental) (callOf_append incidental) ?_ rfl
  rw [total_append, meetings_of_incidental incidental, Nat.zero_add]

end Gathered

/-! ## calls made -/

theorem count_meet_of_incidental (incidental : ∀ x ∈ more, x.incidental = true) :
    more.count .meet = 0 := by
  refine List.count_eq_zero.2 fun member => ?_
  cases incidental _ member

/-- Performing an instruction adds no call to the barrier. -/
theorem Fires.count_meet {threads : Nat} {counting : Bool} {o effect : Outline} {instruction : Instruction}
    (fires : o.Fires threads counting w instruction more effect) : more.count .meet = 0 := by
  have incidental := fires.incidental
  cases fires with
  | barrier call next b moved =>
    exact List.count_eq_zero.2 (by simpa [eq_comm] using Barrier.ne_entering_of_moved moved)
  | _ => exact count_meet_of_incidental (incidental.resolve_left (by simp))

end Outline

/-- The calls that a worker has made, and those that it has before it, are as many as it had at first. -/
theorem History.count_meet {α : Type} {m : Machine α} {start s : State α} {past : List Deed}
    (history : History m start past s) (helps : start.outline.Helps m.threads) (w : Nat) :
    past.count ⟨w, .meet⟩ + (s.outline.code w).count .meet = (start.outline.code w).count .meet := by
  refine (history.invariant (P := fun past o => o.Helps m.threads ∧
    past.count ⟨w, .meet⟩ + (o.code w).count .meet = (start.outline.code w).count .meet)
    ⟨helps, Nat.zero_add _⟩ ?_ ?_).2
  · rintro past v instruction o o' ⟨helps, kept⟩ - move
    refine ⟨Outline.Orderly.helps_of_move helps move, ?_⟩
    obtain ⟨rest, more, effect, code, fires, rfl⟩ := move
    rw [List.count_append, List.count_singleton, ← kept, Nat.add_assoc]
    congr 1
    dsimp only
    by_cases same : w = v
    · subst same
      rw [Function.update_self, List.count_append, fires.count_meet, code, List.count_cons]
      simp [Nat.add_comm]
    · rw [Function.update_of_ne same]
      simp [Ne.symm same]
  · rintro past v o o' ⟨helps, kept⟩ - ⟨_, _, _, _, rfl⟩
    refine ⟨helps, ?_⟩
    dsimp only
    by_cases same : w = v
    · subst same
      rw [Function.update_self, List.count_append, Outline.count_meet_of_incidental helps.incidental,
        Nat.zero_add]
      exact kept
    · rw [Function.update_of_ne same]
      exact kept

end SortNetwork.Parallel
