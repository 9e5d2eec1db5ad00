import Mathlib
import SortNetwork.Proofs.Parallel.Counting
import SortNetwork.Proofs.Parallel.Progress

/-!
# SortNetwork.Proofs.Parallel.Looking

Workers that can do more than look into queues.

Each look into a queue is a step that makes progress, but a look in vain (`Machine.LooksInVain`) gets no
task done.  A worker goes on (`Machine.GoesOn`) if nothing but looks in vain of its own stands between it
and some other step.  A worker's code ends with something else than a look (`Concludes`), so a worker that is
not done has looks before it only up to some other instruction, and it goes on unless it has to wait
there.  If all wait for segments, one of them finds its segment ready (`Steady.exists_goesOn`).
-/

namespace SortNetwork.Parallel

variable {α : Type} {m : Machine α} {threads w k : Nat} {s next : State α}

/-! ## looks in vain -/

/-- Worker `w` looks into a queue, or finds that it need not, and all that changes is what it has to do
next. -/
structure Machine.LooksInVain (m : Machine α) (w : Nat) (s next : State α) : Prop where
  moved : m.step w s = .progress next
  looks : ∃ look rest, s.outline.code w = look :: rest ∧ look.looks = true
  unchanged : next.store = s.store

/-- Worker `w` comes to a step that is more than a look in vain, with no other steps before it than looks
in vain of its own. -/
def Machine.GoesOn (m : Machine α) (w : Nat) (s : State α) : Prop :=
  ∃ reached next, Relation.ReflTransGen (m.LooksInVain w) s reached ∧
    m.step w reached = .progress next ∧ ¬m.LooksInVain w reached next

/-- A look in vain leaves the worker with nothing new but looks. -/
theorem Machine.LooksInVain.outline_eq (look : m.LooksInVain w s next) {x : Instruction}
    {rest : List Instruction} (code : s.outline.code w = x :: rest) :
    ∃ more, (∀ y ∈ more, y.looks = true) ∧
      next.outline = { s.outline with code := Function.update s.outline.code w (more ++ rest) } := by
  obtain ⟨instruction, ⟨rest', more, effect, code', fires, changed⟩, -, -⟩ :=
    Machine.move_of_progress (n := 0) look.moved
  obtain ⟨y, rest'', code'', isLook⟩ := look.looks
  obtain ⟨rfl, rfl⟩ := List.cons.inj (code.symm.trans code')
  obtain ⟨rfl, -⟩ := List.cons.inj (code.symm.trans code'')
  have queues : next.outline.queue = s.outline.queue := by
    simp only [State.outline, look.unchanged]
  rw [changed] at queues ⊢
  cases fires with
  | leave owner empty => exact ⟨[], by simp, rfl⟩
  | take owner task left found =>
    -- the queue would have lost a task
    have shorter := congrFun queues owner
    simp only [Function.update_self, found] at shorter
    exact absurd shorter (List.cons_ne_self task left).symm
  | help owner behind => exact ⟨[.drain owner], by simp [Instruction.looks], rfl⟩
  | pass owner level => exact ⟨[], by simp, rfl⟩
  | _ => cases isLook

/-- Whether a poll is in vain does not depend on what the workers have to do. -/
theorem Outline.Blocked.of_setCode {o : Outline} {code : Nat → List Instruction} {x : Instruction}
    (blocked : ({ o with code } : Outline).Blocked w x) : o.Blocked w x := by
  cases blocked with
  | await unready => exact .await unready
  | polling unchanged => exact .polling unchanged

/-- A worker that has nothing but looks before an instruction that it need not wait for goes on. -/
theorem Steady.goesOn {start : State α} {log : List SegmentTask} {size : Nat} {rest : List α}
    {cells : Nat → List α} (steady : Steady m start (2 ^ k)) (fits : 2 ^ k * size < Word.capacity)
    (small : 2 ^ k < Word.capacity) (holds : start.store.segments.Holds (2 ^ k) size rest cells)
    (execution : Execution m start log s) (inside : w < m.threads) {looks later : List Instruction}
    {x : Instruction} (code : s.outline.code w = looks ++ x :: later)
    (isLook : ∀ y ∈ looks, y.looks = true) (other : x.looks = false) (free : ¬s.outline.Blocked w x) :
    m.GoesOn w s := by
  -- every look leaves less work
  induction cost : s.cost using Nat.strong_induction_on generalizing s log looks with
  | _ cost ih =>
    cases looks with
    | nil =>
      obtain ⟨next, moved⟩ | ⟨-, blocked⟩ := steady.exists_step fits small holds execution inside code
      · refine ⟨s, next, .refl, moved, fun look => ?_⟩
        obtain ⟨y, more, here, isLook⟩ := look.looks
        obtain ⟨rfl, -⟩ := List.cons.inj (code.symm.trans here)
        cases other.symm.trans isLook
      · exact absurd blocked free
    | cons y looks =>
      obtain ⟨next, moved⟩ | ⟨-, blocked⟩ := steady.exists_step fits small holds execution inside code
      · by_cases look : m.LooksInVain w s next
        · obtain ⟨more, moreLooks, changed⟩ := look.outline_eq code
          have less := steady.cost_of_progress execution inside moved
          have code' : next.outline.code w = (more ++ looks) ++ x :: later := by
            rw [changed, List.append_assoc]
            exact Function.update_self ..
          have free' : ¬next.outline.Blocked w x := fun blocked => free (changed ▸ blocked).of_setCode
          have looks' : ∀ z ∈ more ++ looks, z.looks = true := by
            intro z member
            rcases List.mem_append.1 member with new | old
            · exact moreLooks z new
            · exact isLook z (List.mem_cons_of_mem _ old)
          obtain ⟨reached, last, looked, goes⟩ :=
            ih _ (cost ▸ less) (.progress execution w inside moved) code' looks' free' rfl
          exact ⟨reached, last, .head look looked, goes⟩
        · exact ⟨s, next, .refl, moved, look⟩
      · have here := isLook y (by simp)
        cases blocked <;> cases here

/-! ## code that does not end with a look -/

/-- The last thing to do, if there is anything, is no look into a queue. -/
def Concludes (code : List Instruction) : Prop := ∀ x ∈ code.getLast?, x.looks = false

section Concludes

variable {code more : List Instruction} {instruction : Instruction}

theorem concludes_nil : Concludes [] := by simp [Concludes]

theorem concludes_concat (other : instruction.looks = false) : Concludes (code ++ [instruction]) := by
  simp [Concludes, other]

theorem Concludes.append (concludes : Concludes code) (concludes' : Concludes more) :
    Concludes (code ++ more) := by
  simp only [Concludes, List.getLast?_append, Option.mem_def, Option.or_eq_some_iff]
  rintro x (last | ⟨-, last⟩)
  · exact concludes' x last
  · exact concludes x last

theorem Concludes.append_of_ne_nil (concludes : Concludes code) (undone : code ≠ []) :
    Concludes (more ++ code) := by
  intro x last
  rw [List.getLast?_append_of_ne_nil _ undone] at last
  exact concludes x last

theorem Concludes.tail (concludes : Concludes (instruction :: code)) : Concludes code := by
  intro x last
  refine concludes x ?_
  rw [List.getLast?_cons, Option.mem_def.1 last]
  rfl

theorem concludes_flatMap {β : Type} {f : β → List Instruction} (concludes : ∀ x, Concludes (f x))
    (xs : List β) : Concludes (xs.flatMap f) := by
  induction xs with
  | nil => exact concludes_nil
  | cons x xs ih => exact (concludes x).append ih

/-- Whatever is left to do ends as before. -/
theorem Concludes.of_fires {counting : Bool} {o effect : Outline}
    (concludes : Concludes (instruction :: code)) (fires : o.Fires threads counting w instruction more effect) :
    Concludes (more ++ code) := by
  by_cases last : code = []
  · subst last
    have other : instruction.looks = false := concludes _ rfl
    cases fires with
    | take | leave | help | pass => cases other
    | barrier call next b moved => exact show Concludes ([] ++ [.barrier next]) from concludes_concat rfl
    | _ => exact concludes_nil
  · exact concludes.tail.append_of_ne_nil last

/-- After looks, if there are any, comes something else. -/
theorem Concludes.exists_split (concludes : Concludes code) (undone : code ≠ []) :
    ∃ looks x later, code = looks ++ x :: later ∧ (∀ y ∈ looks, y.looks = true) ∧ x.looks = false := by
  induction code with
  | nil => exact absurd rfl undone
  | cons x code ih =>
    cases kind : x.looks with
    | false => exact ⟨[], x, code, rfl, by simp, kind⟩
    | true =>
      have more : code ≠ [] := by
        rintro rfl
        cases kind.symm.trans (concludes x rfl)
      obtain ⟨looks, y, later, rfl, isLook, other⟩ := ih concludes.tail more
      exact ⟨x :: looks, y, later, rfl, List.forall_mem_cons.2 ⟨kind, isLook⟩, other⟩

end Concludes

/-- If the workers' code does not end with a look, neither does what is left of it. -/
theorem Execution.concludes {start : State α} {log : List SegmentTask} (execution : Execution m start log s)
    (first : ∀ w, Concludes (start.outline.code w)) : ∀ w, Concludes (s.outline.code w) := by
  refine execution.invariant (P := fun _ o => ∀ w, Concludes (o.code w)) first ?_ ?_
  · rintro log w instruction o _ concludes - ⟨rest, more, effect, code, fires, rfl⟩
    refine (Function.forall_update_iff _ fun _ code => Concludes code).2 ⟨?_, fun u _ => concludes u⟩
    have here := concludes w
    rw [code] at here
    exact here.of_fires fires
  · rintro log w o _ concludes - ⟨instruction, rest, code, -, rfl⟩
    refine (Function.forall_update_iff _ fun _ code => Concludes code).2 ⟨?_, fun u _ => concludes u⟩
    exact (concludes w).append_of_ne_nil (by simp [code])

/-- Of workers that count, and do not end with a look, one goes on until all are done. -/
theorem Steady.exists_goesOn {start : State α} {log : List SegmentTask} {size : Nat} {rest : List α}
    {cells : Nat → List α} (steady : Steady m start (2 ^ k)) (fits : 2 ^ k * size < Word.capacity)
    (small : 2 ^ k < Word.capacity) (holds : start.store.segments.Holds (2 ^ k) size rest cells)
    (execution : Execution m start log s) (counted : s.outline.Counted (2 ^ k) m.threads log)
    (concludes : ∀ w, Concludes (s.outline.code w)) (busy : ∃ w < m.threads, s.outline.code w ≠ []) :
    ∃ w < m.threads, m.GoesOn w s := by
  by_cases waits : ∀ w < m.threads, s.outline.code w ≠ [] → ∃ i, s.outline.Waits w i
  · obtain ⟨w, inside, i, ⟨looks, later, code, isLook⟩, ready⟩ := counted.exists_ready small busy waits
    refine ⟨w, inside, steady.goesOn fits small holds execution inside code isLook rfl fun blocked => ?_⟩
    cases blocked with
    | await unready => exact unready ready
  · push Not at waits
    obtain ⟨w, inside, undone, waits⟩ := waits
    obtain ⟨looks, x, later, code, isLook, other⟩ := (concludes w).exists_split undone
    refine ⟨w, inside, steady.goesOn fits small holds execution inside code isLook other fun blocked => ?_⟩
    cases blocked with
    | await unready => exact waits _ ⟨looks, later, code, isLook⟩
    | polling unchanged =>
      have purposeful := counted.purposeful w
      rw [code] at purposeful
      exact purposeful.of_append_looks isLook

end SortNetwork.Parallel
