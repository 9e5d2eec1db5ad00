import Mathlib
import SortNetwork.Proofs.Parallel.Execution

/-!
# SortNetwork.Proofs.Parallel.History

Runs of a machine with all that its workers did.

`History m start past s` says that some order of steps leads from `start` to `s`, and that `past` lists the
steps that made progress, each with its worker.  The tasks performed are part of that, so a history is
an execution (`History.execution`); every reachable state has one.  The history of a given order of steps
can be computed (`Machine.follow`).
-/

namespace SortNetwork.Parallel

variable {α : Type}

/-- A step that made progress: who took it and which instruction was performed. -/
structure Deed where
  worker : Nat
  instruction : Instruction
  deriving DecidableEq, Repr

/-- The tasks that were performed, in order. -/
def performedIn (past : List Deed) : List SegmentTask :=
  past.flatMap fun deed => deed.instruction.performed

/-- Steps of any workers in any order, and those of them that made progress. -/
inductive History (m : Machine α) (start : State α) : List Deed → State α → Prop where
  | start : History m start [] start
  | progress {past : List Deed} {s next : State α} (before : History m start past s) (w : Nat)
      (inside : w < m.threads) {instruction : Instruction} {rest : List Instruction}
      (code : s.outline.code w = instruction :: rest) (moved : m.step w s = .progress next) :
      History m start (past ++ [⟨w, instruction⟩]) next
  | waiting {past : List Deed} {s next : State α} (before : History m start past s) (w : Nat)
      (inside : w < m.threads) (polled : m.step w s = .waiting next) : History m start past next

/-- Lets workers act in the given order, and adds what they do to the past.  A worker that cannot go on is
passed over. -/
def Machine.follow (m : Machine α) : (order : List Nat) → List Deed → State α → List Deed × State α
  | [], past, s => (past, s)
  | w :: order, past, s =>
    match m.step w s, s.outline.code w with
    | .progress next, instruction :: _ => m.follow order (past ++ [⟨w, instruction⟩]) next
    | .waiting next, _ => m.follow order past next
    | _, _ => m.follow order past s

variable {m : Machine α} {start s : State α} {past : List Deed} {deed : Deed} {task : SegmentTask}

@[simp] theorem performedIn_nil : performedIn [] = [] := rfl

theorem performedIn_snoc : performedIn (past ++ [deed]) = performedIn past ++ deed.instruction.performed := by
  simp [performedIn]

theorem mem_performedIn_iff : task ∈ performedIn past ↔ ∃ w, ⟨w, .perform task⟩ ∈ past := by
  have gives : ∀ instruction : Instruction, task ∈ instruction.performed ↔ instruction = .perform task := by
    intro instruction
    cases instruction <;> simp [Instruction.performed, eq_comm]
  simp only [performedIn, List.mem_flatMap, gives]
  constructor
  · rintro ⟨⟨w, _⟩, member, rfl⟩
    exact ⟨w, member⟩
  · rintro ⟨w, member⟩
    exact ⟨_, member, rfl⟩

namespace History

/-- The tasks that a history performs are those of an execution. -/
theorem execution (history : History m start past s) : Execution m start (performedIn past) s := by
  induction history with
  | start => exact .start
  | progress _ w inside code moved ih =>
    rw [performedIn_snoc, ← State.performing_of_code code]
    exact .progress ih w inside moved
  | waiting _ w inside polled ih => exact .waiting ih w inside polled

/-- Following an order of steps continues a history. -/
theorem follow (history : History m start past s) (order : List Nat) (inside : ∀ w ∈ order, w < m.threads) :
    History m start (m.follow order past s).1 (m.follow order past s).2 := by
  induction order generalizing past s with
  | nil => exact history
  | cons w order ih =>
    have here := inside w (by simp)
    have later : ∀ v ∈ order, v < m.threads := fun v member => inside v (by simp [member])
    unfold Machine.follow
    split
    · next moved code => exact ih (.progress history w here code moved) later
    · next polled => exact ih (.waiting history w here polled) later
    · exact ih history later

/-- What holds of the first outline, and is kept by every move and by every poll in vain, holds of all. -/
theorem invariant {P : List Deed → Outline → Prop} (history : History m start past s)
    (holds : P [] start.outline)
    (moves : ∀ {past w instruction o o'}, P past o → w < m.threads →
      o.Move m.threads m.counting w instruction o' → P (past ++ [⟨w, instruction⟩]) o')
    (idles : ∀ {past w o o'}, P past o → w < m.threads → o.Idle w o' → P past o') : P past s.outline := by
  induction history with
  | start => exact holds
  | progress _ w inside code moved ih =>
    obtain ⟨instruction, move, -, -⟩ := Machine.move_of_progress (n := 0) moved
    have kept := moves ih inside move
    obtain ⟨_, _, _, code', -, -⟩ := move
    obtain ⟨rfl, -⟩ := List.cons.inj (code.symm.trans code')
    exact kept
  | waiting _ w inside polled ih => exact idles ih inside (Machine.idle_of_waiting (n := 0) polled).1

end History

/-- A step that adds to the past makes progress. -/
theorem Machine.step_of_follow {w : Nat} (more : (m.follow [w] past s).1 ≠ past) :
    m.step w s = .progress (m.follow [w] past s).2 := by
  unfold Machine.follow at more ⊢
  split at more
  · next moved code => simpa only [Machine.follow] using moved
  · exact absurd rfl more
  · exact absurd rfl more

/-- The states that histories end in are the reachable ones. -/
theorem exists_history_iff : (∃ past, History m start past s) ↔ m.system.Reachable start s := by
  constructor
  · rintro ⟨past, history⟩
    exact exists_execution_iff.1 ⟨_, history.execution⟩
  · intro reached
    induction reached with
    | start => exact ⟨[], .start⟩
    | step _ move ih =>
      obtain ⟨past, history⟩ := ih
      cases move with
      | progress w inside moved =>
        obtain ⟨instruction, ⟨_, _, _, code, -, -⟩, -, -⟩ := Machine.move_of_progress (n := 0) moved
        exact ⟨_, .progress history w inside code moved⟩
      | waiting w inside polled => exact ⟨_, .waiting history w inside polled⟩

end SortNetwork.Parallel
