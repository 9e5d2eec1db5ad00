import Mathlib
import SortNetwork.Proofs.Parallel.Orderly

/-!
# SortNetwork.Proofs.Parallel.Counting

Workers that count the stages of single segments.

A segment's count lags behind the tasks that have touched it: whoever performs a task still has to
advance the counts of its segments, and does so at once (`Prompt`).  A worker performs or queues a task
only after it has seen the counts of its segments at the number of the task's stage (`Cautious`), and counts
never fall.  So when a task is performed its segments have been through all earlier stages, whatever else
the workers do, and no other invariant is needed for the result (`Counted.of_move`).

* `Counted.counts_eq_of_code`: a task is performed while the counts of its segments are at its own stage.
* `Counted.counts_le_of_waits`, `Counted.exists_ready`: no count goes past a worker that waits for it, and
  if all workers wait, one of them need not wait any longer.
-/

namespace SortNetwork.Parallel

/-! ## what is still to be counted -/

/-- Weighs the advances of a segment that an instruction leads to. -/
def advances (i : Nat) : Instruction → Nat
  | .advance id => if id = i then 1 else 0
  | .push task => task.touched.count i
  | _ => 0

/-- Weighs the tasks that touch a segment. -/
def touches (i : Nat) : Instruction → Nat
  | .perform task | .push task => task.touched.count i
  | _ => 0

variable {n i : Nat} {code more : List Instruction} {task : SegmentTask}

theorem total_advances_map (ids : List Nat) : total (advances i) (ids.map .advance) = ids.count i := by
  induction ids with
  | nil => rfl
  | cons id ids ih =>
    rw [List.map_cons, total_cons, ih, List.count_cons, Nat.add_comm]
    simp [advances]

theorem total_touches_map (ids : List Nat) : total (touches i) (ids.map .advance) = 0 := by
  induction ids with
  | nil => rfl
  | cons id ids ih => rw [List.map_cons, total_cons, ih]; rfl

theorem ledger_advances (i : Nat) : Ledger true (advances i) fun task => task.touched.count i where
  push _ := rfl
  taken task := by simp [taskCode, total_advances_map, advances]
  drain _ := rfl
  drainIfBehind _ := rfl
  barrier _ := rfl

theorem ledger_touches (i : Nat) : Ledger true (touches i) fun task => task.touched.count i where
  push _ := rfl
  taken task := by simp [taskCode, total_touches_map, touches]
  drain _ := rfl
  drainIfBehind _ := rfl
  barrier _ := rfl

/-- The segments that a worker counts before it does anything else. -/
def due : List Instruction → List Nat
  | .advance id :: rest => id :: due rest
  | _ => []

/-- The segments of a task are counted as soon as it has been performed, and no other segment is ever
counted. -/
def Prompt : List Instruction → Prop
  | [] => True
  | .advance _ :: rest => Prompt rest
  | .perform task :: rest => due rest = task.touched ∧ Prompt rest
  | _ :: rest => due rest = [] ∧ Prompt rest

theorem due_append (ids : List Nat) : due (ids.map .advance ++ code) = ids ++ due code := by
  induction ids with
  | nil => rfl
  | cons id ids ih => exact congrArg (id :: ·) ih

theorem Prompt.append (prompt : Prompt code) (ids : List Nat) : Prompt (ids.map .advance ++ code) := by
  induction ids with
  | nil => exact prompt
  | cons id ids ih => exact ih

/-- Looking into queues first changes nothing, if no segment is to be counted. -/
theorem Prompt.append_looks {looks : List Instruction} (prompt : Prompt code) (nothing : due code = [])
    (isLook : ∀ x ∈ looks, x.looks = true) : due (looks ++ code) = [] ∧ Prompt (looks ++ code) := by
  induction looks with
  | nil => exact ⟨nothing, prompt⟩
  | cons x looks ih =>
    have later := ih fun y member => isLook y (by simp [member])
    have here := isLook x (by simp)
    cases x <;> first | exact ⟨rfl, later⟩ | cases here

/-- What is counted beyond what is touched later on is due at once. -/
theorem Prompt.total_advances (prompt : Prompt code) (i : Nat) :
    total (advances i) code = (due code).count i + total (touches i) code := by
  induction code with
  | nil => rfl
  | cons x code ih =>
    cases x with
    | advance id =>
      have later := ih prompt
      simp only [total_cons, advances, touches, due, List.count_cons, beq_iff_eq]
      omega
    | perform task =>
      have later := ih prompt.2
      rw [prompt.1] at later
      simp only [total_cons, advances, touches, due, List.count_nil]
      omega
    | _ =>
      have later := ih prompt.2
      rw [prompt.1, List.count_nil, Nat.zero_add] at later
      simp only [total_cons, advances, touches, due, List.count_nil, later, Nat.zero_add]

theorem Prompt.le (prompt : Prompt code) (i : Nat) :
    total (touches i) code ≤ total (advances i) code := by
  rw [prompt.total_advances i]
  exact Nat.le_add_left ..

/-- A worker that counts stays prompt. -/
theorem Prompt.of_fires {threads w : Nat} {o effect : Outline} {instruction : Instruction}
    {rest : List Instruction} (prompt : Prompt (instruction :: rest))
    (fires : o.Fires threads true w instruction more effect) : Prompt (more ++ rest) := by
  cases fires with
  | take owner task left found =>
    have again : Prompt (.drain owner :: rest) := prompt
    have counts : Prompt (task.touched.map .advance ++ .drain owner :: rest) := again.append _
    have first : due (task.touched.map .advance ++ .drain owner :: rest) = task.touched ++ [] := due_append _
    rw [List.append_assoc]
    exact ⟨first.trans (List.append_nil _), counts⟩
  | help owner behind => exact ⟨prompt.1, prompt.2⟩
  | advance id => exact prompt
  | barrier call next barrier moved => exact ⟨prompt.1, prompt.2⟩
  | _ => exact prompt.2

/-- Whoever polls in vain has no segment to count. -/
theorem due_of_idle {w : Nat} {o o' : Outline} (idle : o.Idle w o') : due (o.code w) = [] := by
  obtain ⟨instruction, rest, here, blocked, -⟩ := idle
  rw [here]
  cases blocked <;> rfl

/-! ## segments are awaited -/

/-- The segments of the task have been through all earlier stages, as their counts tell. -/
def Ready (n : Nat) (counts : Nat → Nat) (task : SegmentTask) : Prop :=
  ∀ i ∈ task.touched, task.stageNumber n ≤ counts i

/-- The task will be ready once the segments `awaited` have come as far as the worker, in stage number
`stage`. -/
def ReadyAfter (n : Nat) (counts : Nat → Nat) (stage : Nat) (awaited : List Nat) (task : SegmentTask) :
    Prop :=
  ∀ i ∈ task.touched, task.stageNumber n ≤ counts i ∨ task.stageNumber n = stage ∧ i ∈ awaited

/-- A worker in stage number `stage` that has waited for the segments `awaited` performs, and queues,
none but tasks that are ready; and it queues none but tasks of the stage it is in. -/
def Cautious (n : Nat) (counts : Nat → Nat) :
    (stage : Nat) → (awaited : List Nat) → List Instruction → Prop
  | _, _, [] => True
  | stage, awaited, .await id :: rest => Cautious n counts stage (id :: awaited) rest
  | stage, awaited, .perform task :: rest =>
    ReadyAfter n counts stage awaited task ∧ Cautious n counts stage awaited rest
  | stage, awaited, .push task :: rest =>
    task.stageNumber n = stage ∧ ReadyAfter n counts stage awaited task ∧
      Cautious n counts stage awaited rest
  | stage, _, .nextStage :: rest => Cautious n counts (stage + 1) [] rest
  | stage, awaited, .enter :: rest | stage, awaited, .advance _ :: rest | stage, awaited, .drain _ :: rest
  | stage, awaited, .drainIfBehind _ :: rest | stage, awaited, .barrier _ :: rest =>
    Cautious n counts stage awaited rest

variable {counts counts' : Nat → Nat} {stage : Nat} {awaited awaited' : List Nat}

theorem Ready.weaken (ready : Ready n counts task) (grow : ∀ i, counts i ≤ counts' i) :
    Ready n counts' task :=
  fun i touches => (ready i touches).trans (grow i)

theorem Ready.after (ready : Ready n counts task) : ReadyAfter n counts stage awaited task :=
  fun i touches => .inl (ready i touches)

theorem ReadyAfter.ready (ready : ReadyAfter n counts stage [] task) : Ready n counts task :=
  fun i touches => (ready i touches).resolve_right (by simp)

theorem ReadyAfter.weaken (ready : ReadyAfter n counts stage awaited task)
    (grow : ∀ i, counts i ≤ counts' i)
    (seen : ∀ i ∈ awaited, i ∈ awaited' ∨ stage ≤ counts' i) :
    ReadyAfter n counts' stage awaited' task := by
  intro i touches
  rcases ready i touches with counted | ⟨same, member⟩
  · exact .inl (counted.trans (grow i))
  · rcases seen i member with still | reached
    · exact .inr ⟨same, still⟩
    · exact .inl (same ▸ reached)

/-- Counts may grow, and a segment whose count has come as far as the worker need not be waited for. -/
theorem Cautious.weaken (cautious : Cautious n counts stage awaited code)
    (grow : ∀ i, counts i ≤ counts' i)
    (seen : ∀ i ∈ awaited, i ∈ awaited' ∨ stage ≤ counts' i) :
    Cautious n counts' stage awaited' code := by
  induction code generalizing stage awaited awaited' with
  | nil => trivial
  | cons instruction code ih =>
    cases instruction with
    | await id =>
      refine ih cautious fun i member => ?_
      rcases List.mem_cons.1 member with rfl | earlier
      · exact .inl (by simp)
      · exact (seen i earlier).imp (List.mem_cons_of_mem _) fun reached => reached
    | perform task => exact ⟨cautious.1.weaken grow seen, ih cautious.2 seen⟩
    | push task => exact ⟨cautious.1, cautious.2.1.weaken grow seen, ih cautious.2.2 seen⟩
    | nextStage => exact ih cautious (by simp)
    | _ => exact ih (show Cautious n counts stage awaited code from cautious) seen

/-- Instructions that wait for nothing, complete no stage and perform nothing may come first. -/
theorem Cautious.append (cautious : Cautious n counts stage awaited code)
    (free : ∀ x ∈ more, (∃ owner, x = .drain owner ∨ x = .drainIfBehind owner) ∨ ∃ id, x = .advance id) :
    Cautious n counts stage awaited (more ++ code) := by
  induction more with
  | nil => exact cautious
  | cons x more ih =>
    have later := ih fun y h => free y (by simp [h])
    rcases free x (by simp) with ⟨owner, rfl | rfl⟩ | ⟨id, rfl⟩ <;> exact later

theorem Cautious.taskCode (cautious : Cautious n counts stage awaited code)
    (ready : ReadyAfter n counts stage awaited task) :
    Cautious n counts stage awaited (taskCode true task ++ code) := by
  refine ⟨ready, cautious.append fun x member => ?_⟩
  obtain ⟨id, -, rfl⟩ := List.mem_map.1 (by simpa using member)
  exact .inr ⟨id, rfl⟩

/-! ## waiting is worth while -/

/-- Whenever a worker in stage number `stage` waits for a segment, it has counted all it has touched, it
waits on account of a task of the stage, and all else that it has before it belongs to this stage or
later ones. -/
def Purposeful (n : Nat) : (stage : Nat) → List Instruction → Prop
  | _, [] => True
  | stage, .await i :: rest =>
    (∀ j, total (touches j) rest = total (advances j) rest) ∧
      (∃ task ∈ planned rest, i ∈ task.touched ∧ task.stageNumber n = stage) ∧
      (∀ task ∈ planned rest, stage ≤ task.stageNumber n) ∧ Purposeful n stage rest
  | stage, .nextStage :: rest => Purposeful n (stage + 1) rest
  | _, .barrier _ :: _ => False
  | stage, .enter :: rest | stage, .advance _ :: rest | stage, .drain _ :: rest
  | stage, .drainIfBehind _ :: rest | stage, .perform _ :: rest | stage, .push _ :: rest =>
    Purposeful n stage rest

theorem Purposeful.append (purposeful : Purposeful n stage code)
    (incidental : ∀ x ∈ more, x.incidental = true) :
    Purposeful n stage (more ++ code) := by
  induction more with
  | nil => exact purposeful
  | cons x more ih =>
    have later := ih fun y h => incidental y (by simp [h])
    have := incidental x (by simp)
    cases x <;> first | exact later | cases this

/-- Looking into queues has no purpose of its own. -/
theorem Purposeful.of_append_looks {looks : List Instruction}
    (purposeful : Purposeful n stage (looks ++ code)) (isLook : ∀ x ∈ looks, x.looks = true) :
    Purposeful n stage code := by
  induction looks with
  | nil => exact purposeful
  | cons x looks ih =>
    have later : ∀ y ∈ looks, y.looks = true := fun y member => isLook y (by simp [member])
    have here := isLook x (by simp)
    cases x <;> first | exact ih purposeful later | cases here

/-- A worker that has a purpose, and has nothing but looks into queues before it waits for a segment, has
counted all it has touched, waits on account of a task of its stage, and has no task of an earlier stage
before it. -/
theorem Purposeful.of_looks {looks : List Instruction}
    (purposeful : Purposeful n stage (looks ++ .await i :: code))
    (isLook : ∀ x ∈ looks, x.looks = true) :
    (∀ j, total (touches j) (looks ++ .await i :: code) = total (advances j) (looks ++ .await i :: code)) ∧
      (∃ task ∈ planned (looks ++ .await i :: code), i ∈ task.touched ∧ task.stageNumber n = stage) ∧
      ∀ task ∈ planned (looks ++ .await i :: code), stage ≤ task.stageNumber n := by
  obtain ⟨level, purpose, later, -⟩ := purposeful.of_append_looks isLook
  have plans : planned (looks ++ .await i :: code) = planned code := by
    rw [planned_append, planned_looks isLook]
    rfl
  rw [plans]
  refine ⟨fun j => ?_, purpose, later⟩
  rw [total_append, total_append, (ledger_touches j).total_looks isLook,
    (ledger_advances j).total_looks isLook]
  simpa [touches, advances] using level j

/-- Weighs the stages that an instruction completes. -/
def completions : Instruction → Nat
  | .nextStage => 1
  | _ => 0

theorem total_completions_of_incidental (incidental : ∀ x ∈ more, x.incidental = true) :
    total completions more = 0 := by
  induction more with
  | nil => rfl
  | cons x more ih =>
    rw [total_cons, ih fun y h => incidental y (by simp [h])]
    have := incidental x (by simp)
    cases x <;> first | rfl | cases this

/-! ## runs -/

namespace Outline

/-- An orderly run of workers that count: their counts are as many as the tasks performed and not waiting
to be counted, of which there is at most one for each segment; every worker is prompt and cautious, and the
queues hold ready tasks of their owners' stages. -/
structure Counted (n threads : Nat) (log : List SegmentTask) (o : Outline) : Prop where
  orderly : o.Orderly n threads log
  balance : ∀ i, o.counts i + weight threads (advances i) o.code =
    visits log i + weight threads (touches i) o.code
  prompt : ∀ w, Prompt (o.code w)
  single : ∀ i, visits log i ≤ o.counts i + 1
  cautious : ∀ w, Cautious n o.counts (o.stages w) [] (o.code w)
  purposeful : ∀ w, Purposeful n (o.stages w) (o.code w)
  paced : ∀ w < threads, o.stages w + total completions (o.code w) = 1 + stageCount n
  queued : ∀ w, ∀ task ∈ o.queue w, task.stageNumber n = o.stages w ∧ Ready n o.counts task

section Fires

variable {threads w : Nat} {counting : Bool} {o effect : Outline} {instruction : Instruction}
  {more : List Instruction}

/-- A count only ever grows by one. -/
theorem Fires.counts_eq_or (fires : o.Fires threads counting w instruction more effect) (i : Nat) :
    effect.counts i = o.counts i ∨ effect.counts i = o.counts i + 1 := by
  cases fires with
  | advance id =>
    simp only [Function.update_apply]
    split
    · next same =>
      rw [same]
      exact .inr rfl
    · exact .inl rfl
  | _ => exact .inl rfl

/-- No count goes back. -/
theorem Fires.counts_le (fires : o.Fires threads counting w instruction more effect) (i : Nat) :
    o.counts i ≤ effect.counts i := by
  have grown := fires.counts_eq_or i
  omega

/-- A worker counts no stages but its own. -/
theorem Fires.stages_of_ne {u : Nat} (fires : o.Fires threads counting w instruction more effect)
    (other : u ≠ w) :
    effect.stages u = o.stages u := by
  cases fires with
  | nextStage => exact Function.update_of_ne other ..
  | _ => rfl

end Fires

namespace Counted

variable {m threads w : Nat} {log : List SegmentTask} {o o' : Outline} {instruction : Instruction}

/-- A count never exceeds the tasks that have touched the segment. -/
theorem counts_le (counted : o.Counted n threads log) (i : Nat) : o.counts i ≤ visits log i := by
  have balance := counted.balance i
  have prompt : weight threads (touches i) o.code ≤ weight threads (advances i) o.code :=
    Finset.sum_le_sum fun w _ => (counted.prompt w).le i
  omega

/-- No count goes beyond the last stage. -/
theorem counts_le_stageCount (fits : 2 ^ m < Word.capacity) (counted : o.Counted (2 ^ m) threads log)
    (i : Nat) : o.counts i ≤ 1 + stageCount (2 ^ m) :=
  (counted.counts_le i).trans (counted.orderly.admissible.visits_le fits)

/-- What is performed is ready. -/
theorem ready_of_code (counted : o.Counted n threads log) {rest : List Instruction}
    (code : o.code w = .perform task :: rest) : Ready n o.counts task := by
  have cautious := counted.cautious w
  rw [code] at cautious
  exact cautious.1.ready

/-- What is performed comes before all else that is pending for its segments. -/
theorem earliest (fits : n < Word.capacity) (counted : o.Counted n threads log) {rest : List Instruction}
    (code : o.code w = .perform task :: rest) (touched : i ∈ task.touched) {other : SegmentTask}
    (member : other ∈ o.pending threads) (touches : i ∈ other.touched) :
    task.stageNumber n ≤ other.stageNumber n := by
  exact (counted.ready_of_code code i touched).trans
    ((counted.counts_le i).trans (counted.orderly.visits_le fits member touches))

/-- A pending task that is ready finds its segments counted up to its own stage, with no count
outstanding. -/
theorem counts_eq_of_ready (fits : n < Word.capacity) (counted : o.Counted n threads log)
    (member : task ∈ o.pending threads) (touched : i ∈ task.touched) (ready : Ready n o.counts task) :
    o.counts i = task.stageNumber n ∧ visits log i = task.stageNumber n := by
  have reached := ready i touched
  have behind := counted.counts_le i
  have undone := counted.orderly.visits_le fits member touched
  omega

theorem counts_eq_of_code (fits : n < Word.capacity) (counted : o.Counted n threads log)
    (inside : w < threads) {rest : List Instruction} (code : o.code w = .perform task :: rest)
    (touched : i ∈ task.touched) : o.counts i = task.stageNumber n ∧ visits log i = task.stageNumber n :=
  counted.counts_eq_of_ready fits (mem_pending_of_code inside code rfl) touched
    (counted.ready_of_code code)

theorem balance_of_move (counted : o.Counted (2 ^ m) threads log)
    (inside : w < threads) (move : o.Move threads true w instruction o') (i : Nat) :
    o'.counts i + weight threads (advances i) o'.code =
      visits (log ++ instruction.performed) i + weight threads (touches i) o'.code := by
  have balance := counted.balance i
  have within : instruction.Within (2 ^ m) threads := by
    obtain ⟨rest, _, _, code, _, _⟩ := move
    exact counted.orderly.within w _ (by simp [code])
  have counting := (ledger_advances i).weight_of_move inside within move
  have touching := (ledger_touches i).weight_of_move inside within move
  obtain ⟨rest, more, effect, code, fires, rfl⟩ := move
  cases fires with
  | perform task =>
    have isTask : task ∈ tasks (2 ^ m) :=
      counted.orderly.mem_tasks (mem_pending_of_code inside code rfl)
    have once : task.touched.count i = if i ∈ task.touched then 1 else 0 :=
      (nodup_touched isTask).count
    simp only [Instruction.performed, visits_snoc, spent, advances, touches, once] at *
    omega
  | advance id =>
    simp only [Instruction.performed, List.append_nil, spent, advances, touches] at *
    by_cases same : i = id
    · subst same
      rw [Function.update_self]
      rw [if_pos rfl] at counting
      omega
    · rw [Function.update_of_ne same]
      rw [if_neg (Ne.symm same)] at counting
      omega
  | _ =>
    simp only [Instruction.performed, List.append_nil, spent, advances, touches] at *
    omega

variable {effect : Outline} {rest more : List Instruction}

/-- What a worker has left stays cautious. -/
theorem cautious_of_fires (counted : o.Counted n threads log) (code : o.code w = instruction :: rest)
    (fires : o.Fires threads true w instruction more effect) :
    Cautious n effect.counts (effect.stages w) [] (more ++ rest) := by
  have grow := fires.counts_le
  have cautious := counted.cautious w
  rw [code] at cautious
  cases fires with
  | perform task => exact cautious.2
  | advance id =>
    have left : Cautious n o.counts (o.stages w) [] rest := cautious
    exact left.weaken grow fun i member => .inl member
  | await id ready =>
    have left : Cautious n o.counts (o.stages w) [id] rest := cautious
    refine left.weaken grow fun i member => .inr ?_
    rw [List.mem_singleton.1 member]
    exact ready.ge
  | nextStage =>
    simp only [Function.update_self]
    exact cautious
  | push task => exact cautious.2.2
  | take owner task left found =>
    rw [List.append_assoc]
    have ready := (counted.queued owner task (by simp [found])).2
    exact Cautious.taskCode cautious ready.after
  | _ => exact cautious

/-- A worker that counts never calls the barrier. -/
theorem code_ne_barrier (counted : o.Counted n threads log) {call : Barrier.Call} :
    o.code w ≠ .barrier call :: rest := by
  intro code
  have purposeful := counted.purposeful w
  rw [code] at purposeful
  exact purposeful

/-- What the purpose of a waiting worker is. -/
theorem purposeful_of_waits (counted : o.Counted n threads log) (waits : o.Waits w i) :
    (∀ j, total (touches j) (o.code w) = total (advances j) (o.code w)) ∧
      (∃ task ∈ planned (o.code w), i ∈ task.touched ∧ task.stageNumber n = o.stages w) ∧
      ∀ task ∈ planned (o.code w), o.stages w ≤ task.stageNumber n := by
  obtain ⟨looks, rest, code, isLook⟩ := waits
  have purposeful := counted.purposeful w
  rw [code] at purposeful ⊢
  exact purposeful.of_looks isLook

theorem purposeful_of_fires (counted : o.Counted n threads log) (code : o.code w = instruction :: rest)
    (fires : o.Fires threads true w instruction more effect) :
    Purposeful n (effect.stages w) (more ++ rest) := by
  have incidental :=
    fires.incidental.resolve_left fun ⟨_, _, isCall, _⟩ => counted.code_ne_barrier (isCall ▸ code)
  have purposeful := counted.purposeful w
  rw [code] at purposeful
  cases fires with
  | await id ready => exact purposeful.2.2.2
  | nextStage =>
    simp only [Function.update_self]
    exact purposeful
  | barrier call next barrier moved => exact purposeful.elim
  | left call barrier left => exact purposeful.elim
  | _ =>
    have left : Purposeful n (o.stages w) rest := purposeful
    exact left.append incidental

theorem paced_of_fires (counted : o.Counted n threads log) (inside : w < threads)
    (code : o.code w = instruction :: rest) (fires : o.Fires threads true w instruction more effect) :
    effect.stages w + total completions (more ++ rest) = 1 + stageCount n := by
  have incidental :=
    fires.incidental.resolve_left fun ⟨_, _, isCall, _⟩ => counted.code_ne_barrier (isCall ▸ code)
  have paced := counted.paced w inside
  rw [code, total_cons] at paced
  rw [total_append, total_completions_of_incidental incidental]
  cases fires with
  | nextStage =>
    simp only [Function.update_self, completions] at paced ⊢
    omega
  | _ =>
    simp only [completions] at paced
    omega

/-- A queue holds tasks of its owner's stage, and these are ready. -/
theorem queued_of_fires (counted : o.Counted n threads log) (code : o.code w = instruction :: rest)
    (fires : o.Fires threads true w instruction more effect) {u : Nat} (queued : task ∈ effect.queue u) :
    task.stageNumber n = effect.stages u ∧ Ready n effect.counts task := by
  have grow := fires.counts_le
  have cautious := counted.cautious w
  have drains := counted.orderly.tended.drains w
  rw [code] at cautious drains
  rcases fires.mem_queue queued with earlier | ⟨rfl, rfl⟩
  · obtain ⟨number, ready⟩ := counted.queued u task earlier
    refine ⟨?_, ready.weaken grow⟩
    rw [number]
    by_cases same : u = w
    · subst same
      cases fires with
      | nextStage =>
        -- its owner drains a queue before it completes the stage
        rcases drains (List.ne_nil_of_mem earlier) with absurdity | ⟨absurdity, -⟩ <;> cases absurdity
      | _ => rfl
    · exact (fires.stages_of_ne same).symm
  · cases fires
    exact ⟨cautious.1, cautious.2.1.ready⟩

/-- A task is performed only when all earlier ones have been counted for its segments. -/
theorem single_of_fires (fits : n < Word.capacity) (counted : o.Counted n threads log)
    (inside : w < threads) (code : o.code w = instruction :: rest)
    (fires : o.Fires threads true w instruction more effect) (i : Nat) :
    visits (log ++ instruction.performed) i ≤ effect.counts i + 1 := by
  have grow := fires.counts_le i
  have single := counted.single i
  cases instruction with
  | perform task =>
    rw [Instruction.performed, visits_snoc]
    split
    · next touched =>
      have level := counted.counts_eq_of_code fits inside code touched
      omega
    · omega
  | _ =>
    simp only [Instruction.performed, List.append_nil]
    omega

theorem of_move (fits : 2 ^ m < Word.capacity) (counted : o.Counted (2 ^ m) threads log)
    (inside : w < threads) (move : o.Move threads true w instruction o') :
    o'.Counted (2 ^ m) threads (log ++ instruction.performed) := by
  have orderly := counted.orderly.of_move fits inside move fun task same i touched other => by
    obtain ⟨_, _, _, code, _, _⟩ := move
    exact counted.earliest fits (same ▸ code) touched
  have balance := counted.balance_of_move inside move
  obtain ⟨rest, more, effect, code, fires, rfl⟩ := move
  have single := counted.single_of_fires fits inside code fires
  refine ⟨orderly, balance, ?_, single, fun u => ?_, fun u => ?_,
    fun u within => ?_, fun u task queued => counted.queued_of_fires code fires queued⟩
  · have prompt := counted.prompt w
    rw [code] at prompt
    exact (Function.forall_update_iff _ fun _ code => Prompt code).2
      ⟨prompt.of_fires fires, fun u _ => counted.prompt u⟩
  · by_cases same : u = w
    · subst same
      simpa only [Function.update_self] using counted.cautious_of_fires code fires
    · simp only [Function.update_of_ne same, fires.stages_of_ne same]
      exact (counted.cautious u).weaken fires.counts_le fun i member => .inl member
  · by_cases same : u = w
    · subst same
      simpa only [Function.update_self] using counted.purposeful_of_fires code fires
    · simpa only [Function.update_of_ne same, fires.stages_of_ne same] using counted.purposeful u
  · by_cases same : u = w
    · subst same
      simpa only [Function.update_self] using counted.paced_of_fires within code fires
    · simpa only [Function.update_of_ne same, fires.stages_of_ne same] using counted.paced u within

theorem of_idle (counted : o.Counted n threads log) (inside : w < threads) (idle : o.Idle w o') :
    o'.Counted n threads log := by
  have helps := counted.orderly.helps
  have counting := fun i => (ledger_advances i).weight_of_idle inside helps idle
  have touching := fun i => (ledger_touches i).weight_of_idle inside helps idle
  have orderly := counted.orderly.of_idle inside idle
  have nothing := due_of_idle idle
  obtain ⟨_, _, _, _, rfl⟩ := idle
  have looks : ∀ x ∈ o.between w, ∃ owner, x = .drain owner ∨ x = .drainIfBehind owner := by
    intro x member
    obtain ⟨owner, -, -, here⟩ := helps w x member
    exact ⟨owner, here⟩
  have incidental := helps.incidental (w := w)
  refine ⟨orderly, fun i => ?_, ?_, counted.single, ?_, ?_, ?_, counted.queued⟩
  · have := counted.balance i
    have := counting i
    have := touching i
    dsimp only at *
    omega
  · exact (Function.forall_update_iff _ fun _ code => Prompt code).2
      ⟨((counted.prompt w).append_looks nothing helps.looks).2, fun u _ => counted.prompt u⟩
  · exact (Function.forall_update_iff _ fun u code => Cautious n o.counts (o.stages u) [] code).2
      ⟨(counted.cautious w).append fun x member => .inl (looks x member), fun u _ => counted.cautious u⟩
  · exact (Function.forall_update_iff _ fun u code => Purposeful n (o.stages u) code).2
      ⟨(counted.purposeful w).append incidental, fun u _ => counted.purposeful u⟩
  · refine (Function.forall_update_iff _ fun u code => u < threads →
      o.stages u + total completions code = 1 + stageCount n).2 ⟨fun _ => ?_, fun u _ => counted.paced u⟩
    rw [total_append, total_completions_of_incidental incidental, Nat.zero_add]
    exact counted.paced w inside

/-- A count and what is due for it together are the tasks that have touched the segment. -/
theorem counts_add_due (counted : o.Counted n threads log) (i : Nat) :
    o.counts i + ∑ w ∈ Finset.range threads, (due (o.code w)).count i = visits log i := by
  have balance := counted.balance i
  have split : weight threads (advances i) o.code =
      (∑ w ∈ Finset.range threads, (due (o.code w)).count i) + weight threads (touches i) o.code := by
    rw [weight, weight, ← Finset.sum_add_distrib]
    exact Finset.sum_congr rfl fun w _ => (counted.prompt w).total_advances i
  omega

/-- While a worker has a segment to count, the count is one behind. -/
theorem counts_succ_of_due (counted : o.Counted n threads log) (inside : w < threads)
    (owes : i ∈ due (o.code w)) : o.counts i + 1 = visits log i := by
  have positive : 0 < (due (o.code w)).count i := List.count_pos_iff.2 owes
  have part : (due (o.code w)).count i ≤ ∑ u ∈ Finset.range threads, (due (o.code u)).count i :=
    Finset.single_le_sum (f := fun u => (due (o.code u)).count i) (fun _ _ => Nat.zero_le _)
      (Finset.mem_range.2 inside)
  have whole := counted.counts_add_due i
  have single := counted.single i
  omega

/-- No two workers have the same segment to count. -/
theorem eq_of_due (counted : o.Counted n threads log) {v : Nat} (inside : w < threads)
    (inside' : v < threads) (owes : i ∈ due (o.code w)) (owes' : i ∈ due (o.code v)) : w = v := by
  by_contra distinct
  have first : 0 < (due (o.code w)).count i := List.count_pos_iff.2 owes
  have second : 0 < (due (o.code v)).count i := List.count_pos_iff.2 owes'
  have both := add_le_sum inside inside' distinct fun u => (due (o.code u)).count i
  have whole := counted.counts_add_due i
  have single := counted.single i
  omega

/-- When all workers are done, every segment has been counted through all stages. -/
theorem counts_eq (fits : 2 ^ m < Word.capacity) (counted : o.Counted (2 ^ m) threads log)
    (done : ∀ w < threads, o.code w = []) (inside : i < 2 ^ m) : o.counts i = 1 + stageCount (2 ^ m) := by
  have nothing : ∀ f : Instruction → Nat, weight threads f o.code = 0 := by
    intro f
    refine Finset.sum_eq_zero fun w member => ?_
    rw [done w (Finset.mem_range.1 member)]
    rfl
  have balance := counted.balance i
  rw [nothing, nothing,
    visits_of_perm fits counted.orderly.admissible (counted.orderly.perm_tasks done) inside]
    at balance
  exact balance

/-- A worker counts no more stages than there are. -/
theorem stages_le (counted : o.Counted n threads log) (inside : w < threads) :
    o.stages w ≤ 1 + stageCount n := by
  have paced := counted.paced w inside
  omega

theorem stages_eq (counted : o.Counted n threads log) (inside : w < threads) (done : o.code w = []) :
    o.stages w = 1 + stageCount n := by
  have paced := counted.paced w inside
  rw [done] at paced
  exact paced

/-! ## nobody waits for ever -/

/-- A count that a worker waits for has not gone past the stage at which the worker waits. -/
theorem counts_le_of_waits (fits : n < Word.capacity) (counted : o.Counted n threads log)
    (inside : w < threads) (waits : o.Waits w i) : o.counts i ≤ o.stages w := by
  obtain ⟨-, ⟨task, member, touched, number⟩, -⟩ := counted.purposeful_of_waits waits
  have pending : task ∈ o.pending threads := mem_pending_iff.2 ⟨w, inside, .inl member⟩
  rw [← number]
  exact (counted.counts_le i).trans (counted.orderly.visits_le fits pending touched)

/-- While all workers that are not done wait for segments, everything touched has been counted. -/
theorem counts_eq_visits (counted : o.Counted n threads log)
    (waits : ∀ w < threads, o.code w ≠ [] → ∃ i, o.Waits w i) (i : Nat) :
    o.counts i = visits log i := by
  have balance := counted.balance i
  have level : weight threads (advances i) o.code = weight threads (touches i) o.code := by
    refine Finset.sum_congr rfl fun w member => ?_
    by_cases done : o.code w = []
    · rw [done]
      rfl
    · obtain ⟨j, waits⟩ := waits w (Finset.mem_range.1 member) done
      exact ((counted.purposeful_of_waits waits).1 i).symm
  omega

/-- If all workers that are not done wait, then one of them waits for a segment that has come as far as
the worker itself. -/
theorem exists_ready (fits : 2 ^ m < Word.capacity) (counted : o.Counted (2 ^ m) threads log)
    (busy : ∃ w < threads, o.code w ≠ [])
    (waits : ∀ w < threads, o.code w ≠ [] → ∃ i, o.Waits w i) :
    ∃ w < threads, ∃ i, o.Waits w i ∧ o.counts i = o.stages w := by
  have counts_eq := counted.counts_eq_visits waits
  -- take a worker in the earliest stage
  obtain ⟨v, hv, busy⟩ := busy
  obtain ⟨w, isBusy, least⟩ :=
    Finset.exists_min_image ((Finset.range threads).filter (o.code · ≠ [])) o.stages
      ⟨v, by simp [hv, busy]⟩
  have earliest : ∀ u < threads, o.code u ≠ [] → o.stages w ≤ o.stages u := fun u hu undone =>
    least u (by simp [hu, undone])
  obtain ⟨inside, undone⟩ : w < threads ∧ o.code w ≠ [] := by simpa using isBusy
  obtain ⟨i, waiting⟩ := waits w inside undone
  refine ⟨w, inside, i, waiting, ?_⟩
  obtain ⟨-, ⟨task, member, touched, number⟩, -⟩ := counted.purposeful_of_waits waiting
  have isTask := counted.orderly.mem_tasks (mem_pending_iff.2 ⟨w, inside, .inl member⟩)
  have last := stageNumber_le fits isTask
  have behind := counted.counts_le_of_waits fits inside waiting
  have here := counts_eq i
  -- if its segment were behind, a task of an earlier stage would be left
  by_contra unready
  obtain ⟨other, pending, touched', number'⟩ := counted.orderly.admissible.exists_pending fits
    counted.orderly.all (lt_of_mem_touched fits isTask touched) (by omega)
  -- but all tasks that are left belong to the earliest stage or later ones
  obtain ⟨u, hu, given | queued⟩ := mem_pending_iff.1 pending
  · have busy : o.code u ≠ [] := by
      intro done
      simp [done] at given
    obtain ⟨j, waiting⟩ := waits u hu busy
    have := (counted.purposeful_of_waits waiting).2.2 other given
    have := earliest u hu busy
    omega
  · have busy : o.code u ≠ [] := by
      intro done
      simp [counted.orderly.queue_eq_nil done] at queued
    have := (counted.queued u other queued).1
    have := earliest u hu busy
    omega

/-- If all workers that are not done poll, then one of them can go on. -/
theorem exists_unblocked (fits : 2 ^ m < Word.capacity) (counted : o.Counted (2 ^ m) threads log)
    (busy : ∃ w < threads, o.code w ≠ []) :
    ∃ w < threads, ∃ instruction rest, o.code w = instruction :: rest ∧ ¬o.Blocked w instruction := by
  by_contra stuck
  have polls : ∀ w < threads, o.code w ≠ [] →
      ∃ i rest, o.code w = .await i :: rest ∧ o.counts i ≠ o.stages w := by
    intro w inside undone
    obtain ⟨instruction, rest, code, blocked⟩ := blocked_of_stuck stuck inside undone
    cases blocked with
    | await unready => exact ⟨_, rest, code, unready⟩
    | polling _ => exact (counted.code_ne_barrier code).elim
  obtain ⟨w, inside, i, waits, ready⟩ := counted.exists_ready fits busy fun w inside undone => by
    obtain ⟨i, rest, code, -⟩ := polls w inside undone
    exact ⟨i, waits_of_code code⟩
  obtain ⟨j, rest, code, unready⟩ := polls w inside waits.code_ne_nil
  obtain rfl := waits.eq_of_code code
  exact unready ready

end Counted

end Outline

variable {α : Type} {m : Machine α} {start s next : State α} {log : List SegmentTask} {k : Nat}

/-- Whichever worker acts, the count of a segment stays as it is or grows by one. -/
theorem Machine.counts_eq_or (step : m.system.Step s next) (i : Nat) :
    next.outline.counts i = s.outline.counts i ∨ next.outline.counts i = s.outline.counts i + 1 := by
  cases step with
  | progress w inside moved =>
    obtain ⟨instruction, ⟨rest, more, effect, code, fires, changed⟩, -, -⟩ :=
      Machine.move_of_progress (n := 0) moved
    rw [changed]
    exact fires.counts_eq_or i
  | waiting w inside polled =>
    obtain ⟨-, -, -, -, changed⟩ := (Machine.idle_of_waiting (n := 0) polled).1
    rw [changed]
    exact .inl rfl

/-- Whatever the workers do in which order, a run that starts counted stays counted. -/
theorem Execution.counted
    (execution : Execution m start log s) (counting : m.counting = true) (fits : 2 ^ k < Word.capacity)
    (first : start.outline.Counted (2 ^ k) m.threads []) : s.outline.Counted (2 ^ k) m.threads log :=
  execution.invariant first (fun counted inside move => counted.of_move fits inside (counting ▸ move))
    fun counted inside idle => counted.of_idle inside idle

end SortNetwork.Parallel
