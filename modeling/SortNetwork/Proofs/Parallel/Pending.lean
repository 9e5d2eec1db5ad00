import Mathlib
import SortNetwork.Proofs.Lists
import SortNetwork.Proofs.Parallel.Execution

/-!
# SortNetwork.Proofs.Parallel.Pending

The work that is left in an outline.

Instructions and queued tasks are weighed, and a weight that a task keeps while it is queued and taken
changes only when an instruction is performed (`Ledger.weight_of_move`).  So no task gets lost: those
performed and those pending are together all tasks of the sort (`Orderly.all`).  Whoever queues a task
drains its own queue before it closes the stage, so when all workers are done the queues are empty as
well (`Orderly.queue_eq_nil`).
-/

namespace SortNetwork.Parallel

/-! ## the weight of all workers -/

section Weight

variable {β : Type} {threads w : Nat}

/-- What the lists of all workers weigh together. -/
def weight (threads : Nat) (f : β → Nat) (lists : Nat → List β) : Nat :=
  ∑ w ∈ Finset.range threads, total f (lists w)

theorem weight_update (inside : w < threads) (f : β → Nat) (lists : Nat → List β) (list : List β) :
    weight threads f (Function.update lists w list) + total f (lists w) =
      weight threads f lists + total f list :=
  sum_update inside (total f) lists list

end Weight

/-- Weights of instructions and of queued tasks such that queueing and taking a task changes nothing. -/
structure Ledger (counting : Bool) (f : Instruction → Nat) (g : SegmentTask → Nat) : Prop where
  push : ∀ task, f (.push task) = g task
  taken : ∀ task, total f (taskCode counting task) = g task
  drain : ∀ owner, f (.drain owner) = 0
  drainIfBehind : ∀ owner, f (.drainIfBehind owner) = 0
  barrier : ∀ call, f (.barrier call) = 0

/-- The weight that goes when an instruction is performed. -/
def spent (f : Instruction → Nat) : Instruction → Nat
  | .push _ => 0
  | instruction => f instruction

/-- Between polls, workers do no more than look into the queues of others. -/
def Outline.Helps (threads : Nat) (o : Outline) : Prop :=
  ∀ w, ∀ instruction ∈ o.between w, ∃ owner, owner < threads ∧ owner ≠ w ∧
    (instruction = .drain owner ∨ instruction = .drainIfBehind owner)

theorem Outline.Helps.looks {threads w : Nat} {o : Outline} (helps : o.Helps threads) :
    ∀ x ∈ o.between w, x.looks = true := by
  intro x member
  obtain ⟨owner, -, -, rfl | rfl⟩ := helps w x member <;> rfl

namespace Ledger

variable {threads n w : Nat} {counting : Bool} {o o' : Outline} {instruction : Instruction}
  {f : Instruction → Nat} {g : SegmentTask → Nat}

theorem weight_of_move (ledger : Ledger counting f g) (inside : w < threads)
    (within : instruction.Within n threads) (move : o.Move threads counting w instruction o') :
    weight threads f o'.code + weight threads g o'.queue + spent f instruction =
      weight threads f o.code + weight threads g o.queue := by
  obtain ⟨rest, more, effect, code, fires, rfl⟩ := move
  have codes := weight_update inside f o.code (more ++ rest)
  rw [code, total_append, total_cons] at codes
  cases fires with
  | push task =>
    have queues := weight_update inside g o.queue (o.queue w ++ [task])
    simp only [total_append, total_cons, total_nil, ledger.push, spent] at codes queues ⊢
    omega
  | take owner task left found =>
    have queues := weight_update within g o.queue left
    rw [found, total_cons] at queues
    simp only [total_append, total_cons, total_nil, ledger.drain, ledger.taken, spent] at codes ⊢
    omega
  | _ =>
    simp only [total_cons, total_nil, ledger.drain, ledger.drainIfBehind, ledger.barrier,
      spent] at codes ⊢
    omega

/-- Looks into queues weigh nothing. -/
theorem total_looks (ledger : Ledger counting f g) {looks : List Instruction}
    (isLook : ∀ x ∈ looks, x.looks = true) : total f looks = 0 := by
  induction looks with
  | nil => rfl
  | cons x looks ih =>
    rw [total_cons, ih fun y member => isLook y (by simp [member]), Nat.add_zero]
    have here := isLook x (by simp)
    cases x with
    | drain owner => exact ledger.drain owner
    | drainIfBehind owner => exact ledger.drainIfBehind owner
    | _ => cases here

theorem weight_of_idle (ledger : Ledger counting f g) (inside : w < threads) (helps : o.Helps threads)
    (idle : o.Idle w o') :
    weight threads f o'.code + weight threads g o'.queue =
      weight threads f o.code + weight threads g o.queue := by
  obtain ⟨_, _, _, _, rfl⟩ := idle
  have changed := weight_update inside f o.code (o.between w ++ o.code w)
  rw [total_append, ledger.total_looks helps.looks] at changed
  dsimp only
  omega

end Ledger

/-! ## tasks that are left -/

/-- The task that an instruction is about to perform or to queue, if any. -/
def Instruction.task? : Instruction → Option SegmentTask
  | .perform task | .push task => some task
  | _ => none

/-- The tasks that a worker is about to perform or to queue. -/
def planned (code : List Instruction) : List SegmentTask := code.filterMap Instruction.task?

@[simp] theorem planned_nil : planned [] = [] := rfl

theorem planned_append (code more : List Instruction) :
    planned (code ++ more) = planned code ++ planned more :=
  List.filterMap_append

/-- Instructions that give one task each. -/
theorem planned_map {f : SegmentTask → Instruction} (gives : ∀ task, (f task).task? = some task)
    (tasks : List SegmentTask) : planned (tasks.map f) = tasks := by
  rw [planned, List.filterMap_map,
    funext (show ∀ task, (Instruction.task? ∘ f) task = some task from gives),
    List.filterMap_some]

/-- Pieces of code one after the other. -/
theorem planned_flatMap {ι : Type} {f : ι → List Instruction} {g : ι → List SegmentTask}
    (gives : ∀ x, planned (f x) = g x) (xs : List ι) : planned (xs.flatMap f) = xs.flatMap g := by
  rw [planned, List.filterMap_flatMap]
  exact List.flatMap_congr fun x _ => gives x

/-- Pieces of code that give one task each. -/
theorem planned_flatMap_single {ι : Type} {f : ι → List Instruction} {g : ι → SegmentTask}
    (gives : ∀ x, planned (f x) = [g x]) (xs : List ι) : planned (xs.flatMap f) = xs.map g := by
  rw [planned_flatMap gives, List.map_eq_flatMap]

/-- Looks into queues give no tasks, as far as a worker can tell beforehand. -/
theorem planned_looks {looks : List Instruction} (isLook : ∀ x ∈ looks, x.looks = true) :
    planned looks = [] := by
  refine List.filterMap_eq_nil_iff.2 fun x member => ?_
  have here := isLook x member
  cases x <;> first | rfl | cases here

/-- All tasks that workers are about to perform or to queue, or that are queued. -/
def Outline.pending (threads : Nat) (o : Outline) : List SegmentTask :=
  (List.range threads).flatMap fun w => planned (o.code w) ++ o.queue w

section Pending

variable {threads n w : Nat} {counting : Bool} {o o' : Outline} {instruction : Instruction}
  {task : SegmentTask}

theorem mem_planned_iff {code : List Instruction} :
    task ∈ planned code ↔ .perform task ∈ code ∨ .push task ∈ code := by
  have given : ∀ instruction : Instruction, instruction.task? = some task ↔
      instruction = .perform task ∨ instruction = .push task := by
    intro instruction
    cases instruction <;> simp [Instruction.task?]
  simp only [planned, List.mem_filterMap, given]
  constructor
  · rintro ⟨_, member, rfl | rfl⟩
    · exact .inl member
    · exact .inr member
  · rintro (member | member)
    · exact ⟨_, member, .inl rfl⟩
    · exact ⟨_, member, .inr rfl⟩

theorem mem_pending_iff : task ∈ o.pending threads ↔
    ∃ w < threads, task ∈ planned (o.code w) ∨ task ∈ o.queue w := by
  simp only [Outline.pending, List.mem_flatMap, List.mem_range, List.mem_append]

/-- The task that a worker performs next is pending. -/
theorem mem_pending_of_code (inside : w < threads) {rest : List Instruction}
    (code : o.code w = instruction :: rest)
    (gives : instruction.task? = some task) : task ∈ o.pending threads := by
  refine mem_pending_iff.2 ⟨w, inside, .inl ?_⟩
  rw [code, planned, List.filterMap_cons, gives]
  exact List.mem_cons_self

/-- Weighs the occurrences of one task. -/
def isTask (task : SegmentTask) (instruction : Instruction) : Nat :=
  if instruction.task? = some task then 1 else 0

theorem ledger_isTask (counting : Bool) (task : SegmentTask) :
    Ledger counting (isTask task) (fun other => if other = task then 1 else 0) where
  push other := by simp [isTask, Instruction.task?]
  taken other := by
    have advances : ∀ ids : List Nat, total (isTask task) (ids.map .advance) = 0 := by
      intro ids
      induction ids with
      | nil => rfl
      | cons id ids ih => rw [List.map_cons, total_cons, ih]; rfl
    cases counting
    · simp [taskCode, isTask, Instruction.task?]
    · simp only [taskCode, if_true, total_cons, advances]
      simp [isTask, Instruction.task?]
  drain _ := rfl
  drainIfBehind _ := rfl
  barrier _ := rfl

theorem count_pending : (o.pending threads).count task =
      weight threads (isTask task) o.code +
        weight threads (fun other => if other = task then 1 else 0) o.queue := by
  have codes : ∀ code : List Instruction,
      (planned code).count task = total (isTask task) code := by
    intro code
    induction code with
    | nil => rfl
    | cons instruction code ih =>
      rw [planned, List.filterMap_cons, total_cons, ← ih, isTask, planned]
      cases instruction.task? with
      | none => simp
      | some other =>
        rw [List.count_cons, Nat.add_comm]
        simp
  have queues : ∀ queue : List SegmentTask,
      queue.count task = total (fun other => if other = task then 1 else 0) queue := by
    intro queue
    induction queue with
    | nil => rfl
    | cons other queue ih =>
      rw [List.count_cons, total_cons, ih, Nat.add_comm]
      simp
  rw [Outline.pending, List.count_flatMap, weight, weight, ← Finset.sum_add_distrib]
  change _ = ((List.range threads).map _).sum
  congr 1
  refine List.map_congr_left fun w _ => ?_
  rw [Function.comp_apply, List.count_append, codes, queues]

/-- A task leaves the pending ones exactly when it is performed. -/
theorem pending_of_move (inside : w < threads) (within : instruction.Within n threads)
    (move : o.Move threads counting w instruction o') :
    (instruction.performed ++ o'.pending threads).Perm (o.pending threads) := by
  rw [List.perm_iff_count]
  intro task
  have kept := (ledger_isTask counting task).weight_of_move inside within move
  rw [List.count_append, count_pending, count_pending, ← kept, Nat.add_comm]
  congr 1
  cases instruction <;>
    simp [Instruction.performed, spent, isTask, Instruction.task?, List.count_singleton]

theorem pending_of_idle (inside : w < threads) (helps : o.Helps threads) (idle : o.Idle w o') :
    (o'.pending threads).Perm (o.pending threads) := by
  rw [List.perm_iff_count]
  intro task
  rw [count_pending, count_pending, (ledger_isTask false task).weight_of_idle inside helps idle]

end Pending

/-! ## queues are drained by their owners -/

/-- Whether the instruction comes up on the way, when a worker takes tasks and looks for others. -/
def Instruction.incidental : Instruction → Bool
  | .perform _ | .advance _ | .drain _ | .drainIfBehind _ => true
  | _ => false

theorem Instruction.incidental_of_looks {x : Instruction} (look : x.looks = true) :
    x.incidental = true := by
  cases x <;> first | rfl | cases look

theorem incidental_taskCode {counting : Bool} {task : SegmentTask} {x : Instruction}
    (member : x ∈ taskCode counting task) : x.incidental = true := by
  unfold taskCode at member
  rcases List.mem_cons.1 member with rfl | member
  · rfl
  · split at member
    · obtain ⟨id, -, rfl⟩ := List.mem_map.1 member
      rfl
    · cases member

/-- Whatever a worker does next comes up on the way, unless it goes on with a call to the barrier. -/
theorem Outline.Fires.incidental {threads w : Nat} {counting : Bool} {o o' : Outline}
    {instruction : Instruction} {more : List Instruction}
    (fires : o.Fires threads counting w instruction more o') :
    (∃ call next, instruction = .barrier call ∧ more = [.barrier next]) ∨
      ∀ x ∈ more, x.incidental = true := by
  cases fires with
  | take owner task left found =>
    refine .inr fun x member => ?_
    rcases List.mem_append.1 member with taken | again
    · exact incidental_taskCode taken
    · rw [List.mem_singleton.1 again]
      rfl
  | barrier call next => exact .inl ⟨call, next, rfl, rfl⟩
  | _ => simp [Instruction.incidental]

/-- A task is in a queue only if it has been there or its owner has just queued it. -/
theorem Outline.Fires.mem_queue {threads w u : Nat} {counting : Bool} {o o' : Outline}
    {instruction : Instruction} {more : List Instruction} {task : SegmentTask}
    (fires : o.Fires threads counting w instruction more o')
    (queued : task ∈ o'.queue u) : task ∈ o.queue u ∨ u = w ∧ instruction = .push task := by
  cases fires with
  | push other =>
    by_cases same : u = w
    · subst same
      simp only [Function.update_self] at queued
      rcases List.mem_append.1 queued with earlier | here
      · exact .inl earlier
      · rw [List.mem_singleton.1 here]
        exact .inr ⟨rfl, rfl⟩
    · exact .inl (by simpa only [Function.update_of_ne same] using queued)
  | take owner other left found =>
    by_cases same : u = owner
    · subst same
      rw [found]
      exact .inl (List.mem_cons_of_mem _ (by simpa using queued))
    · exact .inl (by simpa only [Function.update_of_ne same] using queued)
  | _ => exact .inl queued

/-- A task leaves a queue only when the worker that takes it performs it next. -/
theorem Outline.Fires.mem_queue_or_taken {threads w u : Nat} {counting : Bool} {o o' : Outline}
    {instruction : Instruction} {more : List Instruction} {task : SegmentTask}
    (fires : o.Fires threads counting w instruction more o') (queued : task ∈ o.queue u) :
    task ∈ o'.queue u ∨ ∃ rest, more = .perform task :: rest := by
  cases fires with
  | push other =>
    refine .inl ?_
    by_cases same : u = w
    · subst same
      simp [queued]
    · simpa only [Function.update_of_ne same] using queued
  | take owner other left found =>
    by_cases same : u = owner
    · subst same
      rw [found] at queued
      rcases List.mem_cons.1 queued with rfl | later
      · exact .inr ⟨_, rfl⟩
      · exact .inl (by simpa using later)
    · exact .inl (by simpa only [Function.update_of_ne same] using queued)
  | _ => exact .inl queued

theorem Outline.Fires.between {threads w : Nat} {counting : Bool} {o o' : Outline}
    {instruction : Instruction} {more : List Instruction}
    (fires : o.Fires threads counting w instruction more o') :
    o'.between = o.between := by
  cases fires <;> rfl

theorem Outline.Helps.incidental {threads w : Nat} {o : Outline} (helps : o.Helps threads) :
    ∀ x ∈ o.between w, x.incidental = true := by
  intro x member
  obtain ⟨owner, -, -, rfl | rfl⟩ := helps w x member <;> rfl

/-- Whether the instruction is one with which a worker closes a stage. -/
def Instruction.closes : Instruction → Bool
  | .nextStage | .barrier _ => true
  | _ => false

/-- Worker `w` drains its own queue before it closes the stage. -/
def Drains (w : Nat) : List Instruction → Prop
  | [] => False
  | instruction :: rest => instruction = .drain w ∨ instruction.closes = false ∧ Drains w rest

/-- Whenever worker `w` queues a task, it drains its own queue before it closes the stage. -/
def Tidy (w : Nat) : List Instruction → Prop
  | [] => True
  | instruction :: rest => (∀ task, instruction = .push task → Drains w rest) ∧ Tidy w rest

section Tidy

variable {threads w : Nat} {counting : Bool} {o o' : Outline} {instruction : Instruction}
  {code : List Instruction}

theorem Drains.append {more : List Instruction} (drains : Drains w code)
    (incidental : ∀ x ∈ more, x.incidental = true) : Drains w (more ++ code) := by
  induction more with
  | nil => exact drains
  | cons x more ih =>
    have opens : x.closes = false := by
      have := incidental x (by simp)
      cases x <;> first | rfl | cases this
    exact .inr ⟨opens, ih fun y h => incidental y (by simp [h])⟩

theorem Tidy.append {more : List Instruction} (tidy : Tidy w code)
    (incidental : ∀ x ∈ more, x.incidental = true) : Tidy w (more ++ code) := by
  induction more with
  | nil => exact tidy
  | cons x more ih =>
    refine ⟨?_, ih fun y h => incidental y (by simp [h])⟩
    rintro task rfl
    cases incidental _ List.mem_cons_self

/-- Every worker queues tasks only where it still drains its queue, and drains it if it holds a task. -/
structure Outline.Tended (o : Outline) : Prop where
  tidy : ∀ w, Tidy w (o.code w)
  drains : ∀ w, o.queue w ≠ [] → Drains w (o.code w)

namespace Outline.Tended

theorem of_move (tended : o.Tended) (move : o.Move threads counting w instruction o') : o'.Tended := by
  obtain ⟨rest, more, effect, code, fires, rfl⟩ := move
  have tidy := tended.tidy w
  have drains := tended.drains w
  rw [code] at tidy drains
  have still : Tidy w (more ++ rest) := by
    rcases fires.incidental with ⟨call, next, -, rfl⟩ | incidental
    · exact ⟨by simp, tidy.2⟩
    · exact tidy.2.append incidental
  refine ⟨(Function.forall_update_iff _ Tidy).2 ⟨still, fun u _ => tended.tidy u⟩, ?_⟩
  intro u holds
  have before : u ≠ w ∨ (∀ task, instruction ≠ .push task) → o.queue u ≠ [] := by
    obtain ⟨task, queued⟩ := List.exists_mem_of_ne_nil _ holds
    rintro other
    rcases fires.mem_queue queued with earlier | ⟨same, push⟩
    · exact List.ne_nil_of_mem earlier
    · exact (other.resolve_left (absurd same) task push).elim
  by_cases same : u = w
  · subst same
    simp only [Function.update_self]
    have incidental := fires.incidental
    cases fires with
    | push task => exact tidy.1 task rfl
    | leave owner empty =>
      by_cases own : owner = u
      · subst own
        exact absurd empty holds
      · exact ((drains holds).resolve_left (by simpa using own)).2
    | take owner task left found =>
      rw [List.append_assoc]
      exact (show Drains u ([.drain owner] ++ rest) from drains (before (.inr (by simp)))).append
        fun x member => incidental_taskCode member
    | _ =>
      rcases drains holds with absurdity | ⟨opens, again⟩
      · cases absurdity
      · rcases incidental with ⟨_, _, isCall, -⟩ | incidental
        · cases isCall <;> cases opens
        · exact again.append incidental
  · simp only [Function.update_of_ne same]
    exact tended.drains u (before (.inl same))

theorem of_idle (tended : o.Tended) (helps : o.Helps threads) (idle : o.Idle w o') : o'.Tended := by
  obtain ⟨_, _, _, _, rfl⟩ := idle
  have incidental := helps.incidental (w := w)
  constructor
  · exact (Function.forall_update_iff _ Tidy).2
      ⟨(tended.tidy w).append incidental, fun u _ => tended.tidy u⟩
  · exact (Function.forall_update_iff _ fun u code => o.queue u ≠ [] → Drains u code).2
      ⟨fun holds => (tended.drains w holds).append incidental, fun u _ => tended.drains u⟩

end Outline.Tended

end Tidy

end SortNetwork.Parallel
