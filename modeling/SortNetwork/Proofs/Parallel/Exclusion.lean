import Mathlib
import SortNetwork.Proofs.Parallel.Counting
import SortNetwork.Proofs.Parallel.History

/-!
# SortNetwork.Proofs.Parallel.Exclusion

Workers that count keep each other off the segments they work on.

A worker is at work on a segment from the moment it has nothing left to wait for until it counts the
segment (`AtWork`).  All that time the count is the number of the task's stage, so no other task finds the
segment ready.  What a worker has performed and not counted is due next in its code, and it was the last
task to touch the segment; with the counts themselves this is enough of an invariant (`Guarded`).

* `Guarded.counts_eq_of_atWork`, `Guarded.eq_of_atWork`: the count of a segment that a worker is at work on,
  and that nobody else is.
* `Guarded.doneWith_iff`, `Guarded.ncard_doneWith`: a count tells which tasks are done with the segment,
  and how many.
* `Guarded.counts_eq_of_pushed`: the counts wait for a task from when it is queued.
-/

namespace SortNetwork.Parallel

variable {n m threads w v i : Nat} {more rest : List Instruction} {instruction : Instruction}
  {task other : SegmentTask} {o o' effect : Outline} {past : List Deed}

/-! ## work on segments -/

/-- Whoever performed the task has counted the segment since. -/
def DoneWith (past : List Deed) (task : SegmentTask) (i : Nat) : Prop :=
  ∃ w, [⟨w, .perform task⟩, ⟨w, .advance i⟩].Sublist past

/-- Worker `w` is at work on segment `i` on account of a task: it has waited as long as it must and performs
the task next, or it has performed it, and it has not counted the segment since. -/
structure AtWork (past : List Deed) (o : Outline) (w : Nat) (task : SegmentTask) (i : Nat) : Prop where
  begun : (∃ rest, o.code w = .perform task :: rest) ∨ ⟨w, .perform task⟩ ∈ past
  touches : i ∈ task.touched
  undone : ¬DoneWith past task i

instance : Decidable (DoneWith past task i) :=
  decidable_of_iff
    (∃ deed ∈ past, [⟨deed.worker, .perform task⟩, ⟨deed.worker, .advance i⟩].Sublist past)
    ⟨fun ⟨deed, _, sublist⟩ => ⟨deed.worker, sublist⟩,
      fun ⟨w, sublist⟩ => ⟨⟨w, .perform task⟩, sublist.subset (by simp), sublist⟩⟩

theorem not_doneWith_nil : ¬DoneWith [] task i := by
  rintro ⟨w, sublist⟩
  cases sublist

theorem doneWith_snoc_iff {deed : Deed} : DoneWith (past ++ [deed]) task i ↔
    DoneWith past task i ∨ ⟨deed.worker, .perform task⟩ ∈ past ∧ deed.instruction = .advance i := by
  constructor
  · rintro ⟨w, sublist⟩
    obtain ⟨earlier, later, split, before, last⟩ := List.sublist_append_iff.1 sublist
    rcases List.sublist_singleton.1 last with rfl | rfl
    · rw [List.append_nil] at split
      exact .inl ⟨w, split ▸ before⟩
    · obtain ⟨rfl, here⟩ := List.append_inj' (show earlier ++ [deed] = [_] ++ [_] from split.symm) rfl
      cases here
      exact .inr ⟨List.singleton_sublist.1 before, rfl⟩
  · rintro (⟨w, before⟩ | ⟨performed, counts⟩)
    · exact ⟨w, before.trans (List.sublist_append_left _ _)⟩
    · refine ⟨deed.worker, ?_⟩
      rw [← counts]
      exact (List.singleton_sublist.2 performed).append (List.Sublist.refl [deed])

theorem DoneWith.mem_performedIn (done : DoneWith past task i) : task ∈ performedIn past := by
  obtain ⟨w, sublist⟩ := done
  exact mem_performedIn_iff.2 ⟨w, sublist.subset (by simp)⟩

namespace Outline

/-- A counted run in which every task that is performed is done with its segments or holds them: it was the
last one to touch the segment, whose count is due next, and the count has gone past the stages of all
tasks that are done with it.  What has been queued is queued still, next, or performed. -/
structure Guarded (n threads : Nat) (past : List Deed) (o : Outline) : Prop where
  counted : o.Counted n threads (performedIn past)
  within : ∀ deed ∈ past, deed.worker < threads
  held : ∀ w task, ⟨w, .perform task⟩ ∈ past → ∀ i ∈ task.touched, DoneWith past task i ∨
    i ∈ due (o.code w) ∧ visits (performedIn past) i = task.stageNumber n + 1
  passed : ∀ task i, i ∈ task.touched → DoneWith past task i → task.stageNumber n < o.counts i
  followed : ∀ w task, ⟨w, .push task⟩ ∈ past → (∃ u < threads, task ∈ o.queue u) ∨
    (∃ u < threads, ∃ rest, o.code u = .perform task :: rest) ∨ task ∈ performedIn past

namespace Guarded

/-- Nobody takes a segment that is held. -/
theorem held_of_fires (fits : n < Word.capacity) (guarded : o.Guarded n threads past)
    (inside : w < threads) (code : o.code w = instruction :: rest)
    (fires : o.Fires threads true w instruction more effect)
    (performed : ⟨v, .perform task⟩ ∈ past ++ [⟨w, instruction⟩]) (touched : i ∈ task.touched) :
    DoneWith (past ++ [⟨w, instruction⟩]) task i ∨
      i ∈ due (Function.update o.code w (more ++ rest) v) ∧
        visits (performedIn (past ++ [⟨w, instruction⟩])) i = task.stageNumber n + 1 := by
  rw [performedIn_snoc]
  rcases List.mem_append.1 performed with earlier | here
  · rcases guarded.held v task earlier i touched with done | ⟨owes, last⟩
    · exact .inl (doneWith_snoc_iff.2 (.inl done))
    · have behind := guarded.counted.counts_succ_of_due (guarded.within _ earlier) owes
      by_cases same : v = w
      · -- the worker itself can only count what is due
        subst same
        rw [code] at owes
        cases fires with
        | advance id =>
          rcases List.mem_cons.1 owes with rfl | later
          · exact .inl (doneWith_snoc_iff.2 (.inr ⟨earlier, rfl⟩))
          · simpa [Instruction.performed] using .inr ⟨later, last⟩
        | _ => simp [due] at owes
      · -- another worker finds the segment not ready
        refine .inr ⟨by rwa [Function.update_of_ne same], ?_⟩
        cases instruction with
        | perform other =>
          rw [Instruction.performed, visits_snoc, if_neg, last]
          intro taken
          have level := guarded.counted.counts_eq_of_code fits inside code taken
          omega
        | _ => simpa [Instruction.performed] using last
  · obtain ⟨rfl, rfl⟩ := Deed.mk.inj (List.mem_singleton.1 here)
    have prompt := guarded.counted.prompt v
    have level := guarded.counted.counts_eq_of_code fits inside code touched
    rw [code] at prompt
    cases fires
    refine .inr ⟨?_, ?_⟩
    · rw [Function.update_self, List.nil_append, prompt.1]
      exact touched
    · rw [Instruction.performed, visits_snoc, if_pos touched, level.2]

theorem passed_of_fires (guarded : o.Guarded n threads past)
    (fires : o.Fires threads true w instruction more effect) (touched : i ∈ task.touched)
    (done : DoneWith (past ++ [⟨w, instruction⟩]) task i) : task.stageNumber n < effect.counts i := by
  have grow := fires.counts_le i
  rcases doneWith_snoc_iff.1 done with earlier | ⟨performed, counts⟩
  · exact (guarded.passed task i touched earlier).trans_le grow
  · rcases guarded.held w task performed i touched with earlier | ⟨-, last⟩
    · exact (guarded.passed task i touched earlier).trans_le grow
    · have single := guarded.counted.single i
      obtain rfl : instruction = .advance i := counts
      cases fires
      simp only [Function.update_self]
      omega

theorem followed_of_fires (guarded : o.Guarded n threads past) (inside : w < threads)
    (code : o.code w = instruction :: rest) (fires : o.Fires threads true w instruction more effect)
    (pushed : ⟨v, .push task⟩ ∈ past ++ [⟨w, instruction⟩]) :
    (∃ u < threads, task ∈ effect.queue u) ∨
      (∃ u < threads, ∃ rest', Function.update o.code w (more ++ rest) u = .perform task :: rest') ∨
        task ∈ performedIn (past ++ [⟨w, instruction⟩]) := by
  rw [performedIn_snoc]
  rcases List.mem_append.1 pushed with earlier | here
  · rcases guarded.followed v task earlier with ⟨u, hu, queued⟩ | ⟨u, hu, rest', next⟩ | performed
    · rcases fires.mem_queue_or_taken queued with still | ⟨rest', taken⟩
      · exact .inl ⟨u, hu, still⟩
      · exact .inr (.inl ⟨w, inside, rest' ++ rest, by rw [Function.update_self, taken]; rfl⟩)
    · by_cases same : u = w
      · subst same
        obtain ⟨rfl, -⟩ := List.cons.inj (code.symm.trans next)
        exact .inr (.inr (by simp [Instruction.performed]))
      · exact .inr (.inl ⟨u, hu, rest', by rwa [Function.update_of_ne same]⟩)
    · exact .inr (.inr (List.mem_append_left _ performed))
  · obtain ⟨rfl, rfl⟩ := Deed.mk.inj (List.mem_singleton.1 here)
    cases fires
    exact .inl ⟨v, inside, by simp⟩

theorem of_move (fits : 2 ^ m < Word.capacity) (guarded : o.Guarded (2 ^ m) threads past)
    (inside : w < threads) (move : o.Move threads true w instruction o') :
    o'.Guarded (2 ^ m) threads (past ++ [⟨w, instruction⟩]) := by
  have counted := guarded.counted.of_move fits inside move
  obtain ⟨rest, more, effect, code, fires, rfl⟩ := move
  have snoc : performedIn (past ++ [⟨w, instruction⟩]) = performedIn past ++ instruction.performed :=
    performedIn_snoc
  rw [← snoc] at counted
  refine ⟨counted, fun deed member => ?_, fun u task performed i touched => ?_,
    fun task i touched done => ?_, fun u task pushed => ?_⟩
  · rcases List.mem_append.1 member with earlier | here
    · exact guarded.within deed earlier
    · rw [List.mem_singleton.1 here]
      exact inside
  · exact guarded.held_of_fires fits inside code fires performed touched
  · have passed := guarded.passed_of_fires fires touched done
    exact passed
  · have followed := guarded.followed_of_fires inside code fires pushed
    exact followed

theorem of_idle (guarded : o.Guarded n threads past) (inside : w < threads) (idle : o.Idle w o') :
    o'.Guarded n threads past := by
  have counted := guarded.counted.of_idle inside idle
  have nothing := due_of_idle idle
  obtain ⟨instruction, rest, code, blocked, rfl⟩ := idle
  refine ⟨counted, guarded.within, fun u task performed i touched => ?_, guarded.passed,
    fun u task pushed => ?_⟩
  · refine (guarded.held u task performed i touched).imp_right fun ⟨owes, last⟩ => ⟨?_, last⟩
    by_cases same : u = w
    · subst same
      rw [nothing] at owes
      cases owes
    · simpa only [Function.update_of_ne same] using owes
  · refine (guarded.followed u task pushed).imp_right (.imp_left fun ⟨v, hv, rest', next⟩ => ?_)
    by_cases same : v = w
    · subst same
      obtain ⟨rfl, -⟩ := List.cons.inj (code.symm.trans next)
      cases blocked
    · exact ⟨v, hv, rest', by simpa only [Function.update_of_ne same] using next⟩

/-! ## what guards a segment -/

theorem mem_tasks_of_performed (guarded : o.Guarded n threads past) (performed : task ∈ performedIn past) :
    task ∈ tasks n :=
  guarded.counted.orderly.admissible.mem_tasks performed

theorem mem_tasks_of_atWork (guarded : o.Guarded n threads past) (inside : w < threads)
    (work : AtWork past o w task i) : task ∈ tasks n := by
  rcases work.begun with ⟨rest, code⟩ | performed
  · exact guarded.counted.orderly.mem_tasks (mem_pending_of_code inside code rfl)
  · exact guarded.mem_tasks_of_performed (mem_performedIn_iff.2 ⟨w, performed⟩)

/-- While a worker is at work on a segment, the count is the number of the stage. -/
theorem counts_eq_of_atWork (fits : n < Word.capacity) (guarded : o.Guarded n threads past)
    (inside : w < threads) (work : AtWork past o w task i) : o.counts i = task.stageNumber n := by
  rcases work.begun with ⟨rest, code⟩ | performed
  · exact (guarded.counted.counts_eq_of_code fits inside code work.touches).1
  · obtain ⟨owes, last⟩ := (guarded.held w task performed i work.touches).resolve_left work.undone
    have behind := guarded.counted.counts_succ_of_due inside owes
    omega

/-- No two workers are at work on the same segment, and no worker on account of two tasks. -/
theorem eq_of_atWork (fits : n < Word.capacity) (guarded : o.Guarded n threads past)
    (inside : w < threads) (inside' : v < threads) (work : AtWork past o w task i)
    (work' : AtWork past o v other i) : w = v ∧ task = other := by
  have level := guarded.counts_eq_of_atWork fits inside work
  have level' := guarded.counts_eq_of_atWork fits inside' work'
  obtain rfl : task = other := task_unique (guarded.mem_tasks_of_atWork inside work) work.touches
    (guarded.mem_tasks_of_atWork inside' work') work'.touches (level.symm.trans level')
  refine ⟨?_, rfl⟩
  have counted := guarded.counted
  rcases work.begun with ⟨rest, code⟩ | performed <;> rcases work'.begun with ⟨rest', code'⟩ | performed'
  · exact counted.orderly.eq_of_code fits inside inside' code code'
  · have settled := counted.counts_eq_of_code fits inside code work.touches
    obtain ⟨-, last⟩ := (guarded.held v task performed' i work.touches).resolve_left work.undone
    omega
  · have settled := counted.counts_eq_of_code fits inside' code' work.touches
    obtain ⟨-, last⟩ := (guarded.held w task performed i work.touches).resolve_left work.undone
    omega
  · obtain ⟨owes, -⟩ := (guarded.held w task performed i work.touches).resolve_left work.undone
    obtain ⟨owes', -⟩ := (guarded.held v task performed' i work.touches).resolve_left work.undone
    exact counted.eq_of_due inside inside' owes owes'

/-- From when a task is queued until it is done with a segment, the count of the segment is the number of its
stage. -/
theorem counts_eq_of_pushed (fits : n < Word.capacity) (guarded : o.Guarded n threads past)
    (pushed : ⟨w, .push task⟩ ∈ past) (touched : i ∈ task.touched) (undone : ¬DoneWith past task i) :
    o.counts i = task.stageNumber n := by
  rcases guarded.followed w task pushed with ⟨u, hu, queued⟩ | ⟨u, hu, rest, code⟩ | performed
  · exact (guarded.counted.counts_eq_of_ready fits (mem_pending_iff.2 ⟨u, hu, .inr queued⟩) touched
      (guarded.counted.queued u task queued).2).1
  · exact (guarded.counted.counts_eq_of_code fits hu code touched).1
  · obtain ⟨u, performed⟩ := mem_performedIn_iff.1 performed
    exact guarded.counts_eq_of_atWork fits (guarded.within _ performed) ⟨.inr performed, touched, undone⟩

/-- The tasks that are done with a segment are those of the stages that it is counted through. -/
theorem doneWith_iff (guarded : o.Guarded n threads past) (isTask : task ∈ tasks n)
    (touched : i ∈ task.touched) : DoneWith past task i ↔ task.stageNumber n < o.counts i := by
  refine ⟨guarded.passed task i touched, fun reached => ?_⟩
  have visited := reached.trans_le (guarded.counted.counts_le i)
  rw [← guarded.counted.orderly.admissible.mem_iff isTask touched, mem_performedIn_iff] at visited
  obtain ⟨w, performed⟩ := visited
  refine (guarded.held w task performed i touched).resolve_right fun ⟨owes, last⟩ => ?_
  have behind := guarded.counted.counts_succ_of_due (guarded.within _ performed) owes
  omega

/-- The count of a segment is the number of tasks that are done with it. -/
theorem ncard_doneWith (fits : 2 ^ m < Word.capacity) (guarded : o.Guarded (2 ^ m) threads past)
    (inside : i < 2 ^ m) : {task | i ∈ task.touched ∧ DoneWith past task i}.ncard = o.counts i := by
  have isTask : ∀ task, DoneWith past task i → task ∈ tasks (2 ^ m) := fun task done =>
    guarded.mem_tasks_of_performed done.mem_performedIn
  have last := guarded.counted.counts_le_stageCount fits i
  -- the stage numbers of these tasks are the numbers below the count
  have numbers : Set.BijOn (SegmentTask.stageNumber (2 ^ m))
      {task | i ∈ task.touched ∧ DoneWith past task i} (Set.Iio (o.counts i)) := by
    refine ⟨fun task ⟨touched, done⟩ => guarded.passed task i touched done, ?_, ?_⟩
    · rintro task ⟨touched, done⟩ other ⟨touched', done'⟩ same
      exact task_unique (isTask task done) touched (isTask other done') touched' same
    · intro r below
      obtain ⟨task, member, touched, rfl⟩ :=
        exists_task fits inside (show r ≤ stageCount (2 ^ m) by have := Set.mem_Iio.1 below; omega)
      exact ⟨task, ⟨touched, (guarded.doneWith_iff member touched).2 below⟩, rfl⟩
  rw [← numbers.injOn.ncard_image, numbers.image_eq]
  simp

end Guarded

end Outline

/-- Whatever the workers do in which order, a run of workers that count stays guarded. -/
theorem History.guarded {α : Type} {machine : Machine α} {start s : State α} {k : Nat}
    (history : History machine start past s) (counting : machine.counting = true)
    (fits : 2 ^ k < Word.capacity) (first : start.outline.Counted (2 ^ k) machine.threads []) :
    s.outline.Guarded (2 ^ k) machine.threads past := by
  refine history.invariant ⟨first, by simp, by simp, fun _ _ _ done => absurd done not_doneWith_nil, by simp⟩
    (fun guarded inside move => guarded.of_move fits inside (counting ▸ move))
    fun guarded inside idle => guarded.of_idle inside idle

end SortNetwork.Parallel
