import Mathlib
import SortNetwork.Parallel.Machine

/-!
# SortNetwork.Proofs.Parallel.Outline

The outline of a state: all that decides who acts next, without the elements.

`Outline.Move` says, instruction by instruction, what a step of a worker does to the outline, and
`Outline.Idle` what a poll in vain does.  Both are read off `Machine.step` once (`move_of_progress`,
`idle_of_waiting`); how workers agree on who may touch which segment is then a matter of outlines only.

* `exists_step`: in a state with a place for everything, a worker that is not done makes progress, or
  polls in vain for one of two reasons.
-/

namespace SortNetwork.Parallel

variable {α : Type}

/-- What the workers have to do, what is queued and counted, and the barrier. -/
structure Outline where
  code : Nat → List Instruction
  between : Nat → List Instruction
  queue : Nat → List SegmentTask
  stages : Nat → Nat
  counts : Nat → Nat
  barrier : Barrier

/-- The outline of a state.  Whatever lies past the end of an array is empty. -/
def State.outline (s : State α) : Outline where
  code w := (s.workers[w]?.map Worker.code).getD []
  between w := (s.workers[w]?.map Worker.between).getD []
  queue w := (s.store.queues[w]?.map TaskQueue.tasks).getD []
  stages w := s.store.workerCounts.counts[w]?.getD 0
  counts i := s.store.segmentCounts.counts[i]?.getD 0
  barrier := s.store.barrier

/-- Whether the instruction looks into a queue. -/
def Instruction.looks : Instruction → Bool
  | .drain _ | .drainIfBehind _ => true
  | _ => false

namespace Outline

/-- What performing an instruction does apart from the code: `Fires … o instruction more o'` if a worker
that performs it in `o` leaves `o'` and goes on with `more`. -/
inductive Fires (threads : Nat) (counting : Bool) (w : Nat) (o : Outline) :
    Instruction → List Instruction → Outline → Prop where
  | enter : Fires threads counting w o .enter [] o
  | perform (task : SegmentTask) : Fires threads counting w o (.perform task) [] o
  | advance (id : Nat) :
    Fires threads counting w o (.advance id) []
      { o with counts := Function.update o.counts id (o.counts id + 1) }
  | await (id : Nat) (ready : o.counts id = o.stages w) : Fires threads counting w o (.await id) [] o
  | nextStage :
    Fires threads counting w o .nextStage []
      { o with stages := Function.update o.stages w (o.stages w + 1) }
  | push (task : SegmentTask) :
    Fires threads counting w o (.push task) []
      { o with queue := Function.update o.queue w (o.queue w ++ [task]) }
  | leave (owner : Nat) (empty : o.queue owner = []) : Fires threads counting w o (.drain owner) [] o
  | take (owner : Nat) (task : SegmentTask) (left : List SegmentTask)
      (found : o.queue owner = task :: left) :
    Fires threads counting w o (.drain owner) (taskCode counting task ++ [.drain owner])
      { o with queue := Function.update o.queue owner left }
  | help (owner : Nat) (behind : o.stages owner < o.stages w) :
    Fires threads counting w o (.drainIfBehind owner) [.drain owner] o
  | pass (owner : Nat) (level : o.stages w ≤ o.stages owner) :
    Fires threads counting w o (.drainIfBehind owner) [] o
  | barrier (call next : Barrier.Call) (barrier : Barrier)
      (moved : o.barrier.step threads call = .moved barrier next) :
    Fires threads counting w o (.barrier call) [.barrier next] { o with barrier }
  | left (call : Barrier.Call) (barrier : Barrier) (left : o.barrier.step threads call = .left barrier) :
    Fires threads counting w o (.barrier call) [] { o with barrier }

/-- A worker performs its first instruction. -/
def Move (threads : Nat) (counting : Bool) (w : Nat) (o : Outline) (instruction : Instruction)
    (o' : Outline) : Prop :=
  ∃ rest more effect, o.code w = instruction :: rest ∧
    Fires threads counting w o instruction more effect ∧
    o' = { effect with code := Function.update o.code w (more ++ rest) }

/-- The two kinds of polls in vain. -/
inductive Blocked (w : Nat) (o : Outline) : Instruction → Prop where
  | await {id : Nat} (unready : o.counts id ≠ o.stages w) : Blocked w o (.await id)
  | polling {snapshot : UInt32} (unchanged : o.barrier.marker = snapshot) :
    Blocked w o (.barrier (.polling snapshot))

/-- If nobody can go on, everybody who is not done polls in vain. -/
theorem blocked_of_stuck {threads w : Nat} {o : Outline}
    (stuck : ¬∃ w < threads, ∃ instruction rest, o.code w = instruction :: rest ∧ ¬o.Blocked w instruction)
    (inside : w < threads) (undone : o.code w ≠ []) :
    ∃ instruction rest, o.code w = instruction :: rest ∧ o.Blocked w instruction := by
  obtain ⟨instruction, rest, code⟩ := List.exists_cons_of_ne_nil undone
  refine ⟨instruction, rest, code, ?_⟩
  by_contra free
  exact stuck ⟨w, inside, instruction, rest, code, free⟩

/-- Worker `w` waits for segment `i`: it polls the count next, or once it has looked into some queues. -/
def Waits (o : Outline) (w i : Nat) : Prop :=
  ∃ looks rest, o.code w = looks ++ .await i :: rest ∧ ∀ x ∈ looks, x.looks = true

section Waits

variable {o : Outline} {w i j : Nat} {rest : List Instruction}

theorem waits_of_code (code : o.code w = .await i :: rest) : o.Waits w i :=
  ⟨[], rest, code, by simp⟩

theorem Waits.code_ne_nil (waits : o.Waits w i) : o.code w ≠ [] := by
  obtain ⟨looks, rest, code, -⟩ := waits
  simp [code]

/-- A worker that polls a count waits for no other. -/
theorem Waits.eq_of_code (waits : o.Waits w i) (code : o.code w = .await j :: rest) : j = i := by
  obtain ⟨looks, more, here, isLook⟩ := waits
  rw [code] at here
  cases looks with
  | nil => exact (Instruction.await.inj (List.cons.inj here).1)
  | cons x looks =>
    have first := isLook x (by simp)
    rw [← (List.cons.inj here).1] at first
    cases first

end Waits

/-- A worker polls in vain and turns to what it does between polls. -/
def Idle (w : Nat) (o o' : Outline) : Prop :=
  ∃ instruction rest, o.code w = instruction :: rest ∧ Blocked w o instruction ∧
    o' = { o with code := Function.update o.code w (o.between w ++ o.code w) }

end Outline

/-! ## outlines of changed states -/

theorem getD_set {β γ : Type} (xs : Array β) (w : Nat) (inside : w < xs.size) (x : β) (f : β → γ)
    (d : γ) :
    (fun u => ((xs.set w x inside)[u]?.map f).getD d) =
      Function.update (fun u => (xs[u]?.map f).getD d) w (f x) := by
  funext u
  by_cases same : u = w
  · subst same
    rw [Function.update_self, Array.getElem?_set_self inside]
    rfl
  · rw [Function.update_of_ne same, Array.getElem?_set_ne inside (Ne.symm same)]

namespace State

variable {s : State α} {store : Store α} {w : Nat}

theorem outline_setCode (inside : w < s.workers.size) (code : List Instruction)
    (registered : Registration) :
    ({ store, workers := s.workers.set w { s.workers[w] with code, registered } } : State α).outline =
      { ({ s with store } : State α).outline with code := Function.update s.outline.code w code } := by
  have kept : Function.update s.outline.between w s.workers[w].between = s.outline.between := by
    rw [Function.update_eq_self_iff]
    simp [outline, inside]
  simp only [outline, getD_set]
  congr 1

theorem outline_setQueue {owner : Nat} (inside : owner < s.store.queues.size)
    (queue : TaskQueue SegmentTask) :
    ({ s with store := { s.store with queues := s.store.queues.set owner queue } } : State α).outline =
      { s.outline with queue := Function.update s.outline.queue owner queue.tasks } := by
  simp only [outline, getD_set]

theorem outline_advance_segment {id : Nat} {counts : StageCounts}
    (h : s.store.segmentCounts.advance id = .ok counts) :
    ({ s with store := { s.store with segmentCounts := counts } } : State α).outline =
      { s.outline with counts := Function.update s.outline.counts id (s.outline.counts id + 1) } := by
  unfold StageCounts.advance at h
  split at h
  · next inside =>
    cases h
    have changed := getD_set s.store.segmentCounts.counts id inside
      (s.store.segmentCounts.counts[id] + 1) (fun count => count) 0
    simp only [Option.map_id'] at changed
    simp [outline, changed, inside]
  · cases h

theorem outline_advance_worker {counts : StageCounts}
    (h : s.store.workerCounts.advance w = .ok counts) :
    ({ s with store := { s.store with workerCounts := counts } } : State α).outline =
      { s.outline with stages := Function.update s.outline.stages w (s.outline.stages w + 1) } := by
  unfold StageCounts.advance at h
  split at h
  · next inside =>
    cases h
    have changed := getD_set s.store.workerCounts.counts w inside
      (s.store.workerCounts.counts[w] + 1) (fun count => count) 0
    simp only [Option.map_id'] at changed
    simp [outline, changed, inside]
  · cases h

theorem stages_outline {count : Nat} (h : s.store.workerCounts.load w = .ok count) :
    s.outline.stages w = count := by
  unfold StageCounts.load at h
  split at h
  · next inside =>
    cases h
    simp [outline, inside]
  · cases h

theorem counts_outline {id count : Nat} (h : s.store.segmentCounts.load id = .ok count) :
    s.outline.counts id = count := by
  unfold StageCounts.load at h
  split at h
  · next inside =>
    cases h
    simp [outline, inside]
  · cases h

theorem queue_outline {owner : Nat} (inside : owner < s.store.queues.size) :
    s.outline.queue owner = s.store.queues[owner].tasks := by
  simp [outline, inside]

end State

/-! ## steps -/

/-- Where the instruction reaches: segments below `n`, workers below `threads`. -/
def Instruction.Within (n threads : Nat) : Instruction → Prop
  | .perform task | .push task => ∀ i ∈ task.touched, i < n
  | .advance id | .await id => id < n
  | .drain owner | .drainIfBehind owner => owner < threads
  | .enter | .nextStage | .barrier _ => True

/-- The state has a worker, a queue, a count and a buffer for each of the workers, and a count for each
of `n` segments. -/
structure State.Shaped (m : Machine α) (n : Nat) (s : State α) : Prop where
  workers : s.workers.size = m.threads
  queues : s.store.queues.size = m.threads
  workerCounts : s.store.workerCounts.size = m.threads
  segmentCounts : s.store.segmentCounts.size = n
  buffers : s.store.scratch.buffers.size = m.threads

/-- What performing an instruction makes of the segments. -/
def Touches (order : ElementOrder α) (before after : Segments α) : Instruction → Prop
  | .perform task =>
    ∃ buffer left, task.perform order ⟨before, buffer⟩ = .ok ⟨after, left⟩
  | _ => after = before

namespace Machine

variable {m : Machine α} {n w : Nat} {s next : State α}

/-- What a performed instruction did, read off its effect. -/
theorem fires_of_execute {registered registered' : Registration} {instruction : Instruction}
    {store : Store α} {more : List Instruction}
    (h : m.execute w registered s.store instruction = .ok (.done store registered' more)) :
    Outline.Fires m.threads m.counting w s.outline instruction more ({ s with store } : State α).outline ∧
      Touches m.order s.store.segments store.segments instruction ∧
      (s.Shaped m n → ({ s with store } : State α).Shaped m n) := by
  cases instruction with
  | enter =>
    simp only [execute, bind_eq_ok_iff] at h
    obtain ⟨_, _, made⟩ := h
    cases made
    exact ⟨.enter, rfl, id⟩
  | perform task =>
    simp only [execute, bind_eq_ok_iff] at h
    obtain ⟨after, done, made⟩ := h
    cases made
    unfold Store.perform at done
    split at done
    · next bench performed =>
      cases done
      refine ⟨.perform task, ⟨_, _, performed⟩, fun shaped => { shaped with buffers := ?_ }⟩
      rw [← shaped.buffers]
      simp only [Scratch.store]
      split <;> simp
    · cases done
  | advance id =>
    simp only [execute, bind_eq_ok_iff] at h
    obtain ⟨counts, done, made⟩ := h
    cases made
    refine ⟨?_, rfl, fun shaped => { shaped with segmentCounts := ?_ }⟩
    · rw [State.outline_advance_segment done]
      exact .advance id
    · rw [← shaped.segmentCounts]
      exact StageCounts.size_advance done
  | await id =>
    simp only [execute, bind_eq_ok_iff] at h
    obtain ⟨own, loaded, completed, loaded', made⟩ := h
    split at made
    · next equal =>
      cases made
      refine ⟨.await id ?_, rfl, fun shaped => shaped⟩
      rw [State.counts_outline loaded', State.stages_outline loaded, equal]
    · cases made
  | nextStage =>
    simp only [execute, bind_eq_ok_iff] at h
    obtain ⟨counts, done, made⟩ := h
    cases made
    refine ⟨?_, rfl, fun shaped => { shaped with workerCounts := ?_ }⟩
    · rw [State.outline_advance_worker done]
      exact .nextStage
    · rw [← shaped.workerCounts]
      exact StageCounts.size_advance done
  | push task =>
    simp only [execute, bind_eq_ok_iff] at h
    obtain ⟨after, done, made⟩ := h
    cases made
    unfold Store.push at done
    split at done
    · next inside =>
      cases done
      refine ⟨?_, rfl, fun shaped => { shaped with queues := ?_ }⟩
      · rw [State.outline_setQueue inside, TaskQueue.tasks_push, ← State.queue_outline inside]
        exact .push task
      · rw [← shaped.queues, Array.size_set]
    · cases done
  | drain owner =>
    simp only [execute, bind_eq_ok_iff] at h
    obtain ⟨⟨found, after⟩, popped, made⟩ := h
    unfold Store.pop at popped
    split at popped
    · next inside =>
      split at popped
      · next none_left =>
        cases popped
        cases made
        refine ⟨.leave owner ?_, rfl, fun shaped => shaped⟩
        rw [State.queue_outline inside, TaskQueue.pop?_eq_none_iff.1 none_left]
      · next task left first =>
        cases popped
        cases made
        refine ⟨?_, rfl, fun shaped => { shaped with queues := ?_ }⟩
        · rw [State.outline_setQueue inside]
          refine .take owner task left.tasks ?_
          rw [State.queue_outline inside, TaskQueue.pop?_eq_some_iff.1 first]
        · rw [← shaped.queues, Array.size_set]
    · cases popped
  | drainIfBehind owner =>
    simp only [execute, bind_eq_ok_iff] at h
    obtain ⟨own, loaded, theirs, loaded', made⟩ := h
    cases made
    refine ⟨?_, rfl, fun shaped => shaped⟩
    rw [← State.stages_outline loaded, ← State.stages_outline loaded']
    split
    · next behind => exact .help owner behind
    · next level => exact .pass owner (Nat.not_lt.1 level)
  | barrier call =>
    simp only [execute] at h
    split at h
    · next barrier next moved =>
      cases h
      exact ⟨.barrier call next barrier moved, rfl, fun shaped => { shaped with }⟩
    · cases h
    · next barrier left =>
      cases h
      exact ⟨.left call barrier left, rfl, fun shaped => { shaped with }⟩

/-- Why an instruction polled in vain. -/
theorem blocked_of_execute {registered : Registration} {instruction : Instruction}
    (h : m.execute w registered s.store instruction = .ok .again) :
    s.outline.Blocked w instruction := by
  cases instruction with
  | await id =>
    simp only [execute, bind_eq_ok_iff] at h
    obtain ⟨own, loaded, completed, loaded', made⟩ := h
    split at made
    · cases made
    · next unequal =>
      refine .await ?_
      rw [State.counts_outline loaded', State.stages_outline loaded]
      exact unequal
  | barrier call =>
    simp only [execute] at h
    split at h
    · cases h
    · next unchanged =>
      cases call with
      | polling snapshot =>
        refine .polling ?_
        rw [Barrier.step] at unchanged
        split at unchanged
        · next same => exact same
        · cases unchanged
      | _ => cases unchanged
    · cases h
  | drain owner =>
    simp only [execute, bind_eq_ok_iff] at h
    obtain ⟨⟨found, after⟩, _, made⟩ := h
    cases found <;> cases made
  | drainIfBehind owner =>
    simp only [execute, bind_eq_ok_iff] at h
    obtain ⟨_, _, _, _, made⟩ := h
    cases made
  | _ =>
    simp only [execute, bind_eq_ok_iff] at h
    obtain ⟨_, _, made⟩ := h
    cases made

/-- What a step that makes progress does. -/
theorem move_of_progress (h : m.step w s = .progress next) :
    ∃ instruction, s.outline.Move m.threads m.counting w instruction next.outline ∧
      Touches m.order s.store.segments next.store.segments instruction ∧
      (s.Shaped m n → next.Shaped m n) := by
  unfold step at h
  split at h
  · next inside =>
    split at h
    · cases h
    · next instruction rest code =>
      split at h
      · next store registered more done =>
        cases h
        obtain ⟨fires, touches, shaped⟩ := fires_of_execute (n := n) done
        refine ⟨instruction, ?_, touches, fun before => ?_⟩
        · exact ⟨rest, more, _, by simp [State.outline, inside, code], fires,
            State.outline_setCode inside ..⟩
        · have after := shaped before
          exact { after with workers := by rw [← before.workers, Array.size_set] }
      · cases h
      · cases h
  · cases h

/-- What a poll in vain does. -/
theorem idle_of_waiting (h : m.step w s = .waiting next) :
    s.outline.Idle w next.outline ∧ next.store = s.store ∧ (s.Shaped m n → next.Shaped m n) := by
  unfold step at h
  split at h
  · next inside =>
    split at h
    · cases h
    · next instruction rest code =>
      split at h
      · cases h
      · next again =>
        cases h
        have here : s.outline.code w = instruction :: rest := by simp [State.outline, inside, code]
        have turns : s.outline.between w ++ s.outline.code w =
            s.workers[w].between ++ instruction :: rest := by
          rw [here]
          simp [State.outline, inside]
        refine ⟨?_, rfl,
          fun before => { before with workers := by rw [← before.workers, Array.size_set] }⟩
        refine ⟨instruction, rest, here, blocked_of_execute again, ?_⟩
        rw [turns]
        exact State.outline_setCode inside ..
      · cases h
  · cases h

theorem allFinished_iff : m.system.allFinished s = true ↔ ∀ w < m.threads, s.outline.code w = [] := by
  have each : ∀ w, m.step w s = .finished ↔ s.outline.code w = [] := by
    intro w
    rw [step_eq_finished_iff]
    simp only [State.outline]
    cases s.workers[w]? <;> simp
  simp only [System.allFinished, List.all_eq_true, List.mem_range, system, ← each]
  constructor
  · intro all w inside
    have := all w inside
    split at this
    · next done => exact done
    · cases this
  · intro all w inside
    rw [all w inside]

/-- As long as not all workers are done, one has something left to do. -/
theorem exists_busy (unfinished : m.system.allFinished s = false) :
    ∃ w < m.threads, s.outline.code w ≠ [] := by
  by_contra idle
  push Not at idle
  rw [allFinished_iff.2 idle] at unfinished
  cases unfinished

/-- With places for everything, an instruction that does not fault is performed, or polls in vain. -/
theorem exists_step (shaped : s.Shaped m n) (inside : w < m.threads) {instruction : Instruction}
    {rest : List Instruction} (code : s.outline.code w = instruction :: rest)
    (within : instruction.Within n m.threads)
    (performs : ∀ task, instruction = .perform task → ∀ buffer,
      ∃ bench, task.perform m.order ⟨s.store.segments, buffer⟩ = .ok bench) :
    (∃ next, m.step w s = .progress next) ∨
      (∃ next, m.step w s = .waiting next) ∧ s.outline.Blocked w instruction := by
  have within_workers : w < s.workers.size := by rw [shaped.workers]; exact inside
  have head : s.workers[w].code = instruction :: rest := by
    simpa [State.outline, within_workers] using code
  have executes : ∃ effect, m.execute w s.workers[w].registered s.store instruction = .ok effect := by
    have own : ∃ count, s.store.workerCounts.load w = .ok count := by
      rw [StageCounts.exists_load_iff, shaped.workerCounts]
      exact inside
    cases instruction with
    | enter =>
      have enters : ∃ entered, s.store.scratch.enter w s.workers[w].registered = .ok entered := by
        rw [Scratch.exists_enter_iff, shaped.buffers]
        exact inside
      obtain ⟨_, entered⟩ := enters
      exact ⟨_, by simp only [execute, entered]; rfl⟩
    | perform task =>
      obtain ⟨bench, done⟩ := performs task rfl (s.store.scratch.contents s.workers[w].registered)
      exact ⟨_, by simp only [execute, Store.perform, done]; rfl⟩
    | advance i =>
      obtain ⟨_, advanced⟩ := StageCounts.exists_advance_iff.2 (shaped.segmentCounts.symm ▸ within)
      exact ⟨_, by simp only [execute, advanced]; rfl⟩
    | await i =>
      obtain ⟨_, loaded⟩ := own
      obtain ⟨_, loaded'⟩ := StageCounts.exists_load_iff.2 (shaped.segmentCounts.symm ▸ within)
      exact ⟨_, by simp only [execute, loaded, loaded']; rfl⟩
    | nextStage =>
      obtain ⟨_, advanced⟩ := StageCounts.exists_advance_iff.2 (shaped.workerCounts.symm ▸ inside)
      exact ⟨_, by simp only [execute, advanced]; rfl⟩
    | push task =>
      have queue : w < s.store.queues.size := by rw [shaped.queues]; exact inside
      exact ⟨_, by simp only [execute, Store.push, dif_pos queue]; rfl⟩
    | drain owner =>
      have queue : owner < s.store.queues.size := by rw [shaped.queues]; exact within
      simp only [execute, Store.pop, dif_pos queue]
      cases s.store.queues[owner].pop? with
      | none => exact ⟨_, rfl⟩
      | some found => exact ⟨_, rfl⟩
    | drainIfBehind owner =>
      obtain ⟨_, loaded⟩ := own
      obtain ⟨_, loaded'⟩ := StageCounts.exists_load_iff.2 (shaped.workerCounts.symm ▸ within)
      exact ⟨_, by simp only [execute, loaded, loaded']; rfl⟩
    | barrier call =>
      simp only [execute]
      cases s.store.barrier.step m.threads call <;> exact ⟨_, rfl⟩
  obtain ⟨effect, executed⟩ := executes
  simp only [step, dif_pos within_workers]
  rw [head]
  simp only [executed]
  cases effect with
  | done store registered more => exact .inl ⟨_, rfl⟩
  | again => exact .inr ⟨⟨_, rfl⟩, blocked_of_execute executed⟩

end Machine

end SortNetwork.Parallel
