import Mathlib
import SortNetwork.Proofs.Parallel.Progress

/-!
# SortNetwork.Proofs.Parallel.Drains

How many tasks a worker takes in one drain.

A drain takes tasks from a queue until it finds none, and keeps count of them; nobody reads the count, but it
has to stay within a word.  `Hauling` follows the steps of all workers and lists what each of them has taken in
the drain that it is in.  A worker in a drain does nothing else, and no task is taken twice (`Hauls.of_move`).
So if a mark that the worker keeps all the while tells which tasks can be in the queue, then its haul is
without repeats and made up of such tasks (`Hauling.exists_hauls`), and there are no more of it than of them.
-/

namespace SortNetwork.Parallel

variable {α : Type}

/-! ## hauls -/

/-- The hauls once worker `w` has taken its next step.  A drain that finds a task adds it, and a drain that finds
none is over. -/
def Outline.haulsAfter (o : Outline) (w : Nat) (hauls : Nat → List SegmentTask) : Nat → List SegmentTask :=
  match o.code w with
  | .drain owner :: _ =>
    match o.queue owner with
    | [] => Function.update hauls w []
    | task :: _ => Function.update hauls w (hauls w ++ [task])
  | _ => hauls

/-- Steps of any workers in any order, and the tasks that each has taken in the drain it is in. -/
inductive Hauling (m : Machine α) (start : State α) : (Nat → List SegmentTask) → State α → Prop where
  | start : Hauling m start (fun _ => []) start
  | progress {hauls : Nat → List SegmentTask} {s next : State α} (before : Hauling m start hauls s) (w : Nat)
      (inside : w < m.threads) (moved : m.step w s = .progress next) :
      Hauling m start (s.outline.haulsAfter w hauls) next
  | waiting {hauls : Nat → List SegmentTask} {s next : State α} (before : Hauling m start hauls s) (w : Nat)
      (inside : w < m.threads) (polled : m.step w s = .waiting next) : Hauling m start hauls next

/-- Lets workers act in the given order, and keeps their hauls.  A worker that cannot go on is passed over. -/
def Machine.haul (m : Machine α) :
    (order : List Nat) → (Nat → List SegmentTask) → State α → (Nat → List SegmentTask) × State α
  | [], hauls, s => (hauls, s)
  | w :: order, hauls, s =>
    match m.step w s with
    | .progress next => m.haul order (s.outline.haulsAfter w hauls) next
    | .waiting next => m.haul order hauls next
    | _ => m.haul order hauls s

variable {m : Machine α} {start s : State α} {hauls : Nat → List SegmentTask}

/-- Every reachable state has its hauls. -/
theorem exists_hauling_iff : (∃ hauls, Hauling m start hauls s) ↔ m.system.Reachable start s := by
  constructor
  · rintro ⟨hauls, hauling⟩
    induction hauling with
    | start => exact .start
    | progress _ w inside moved ih => exact .step ih (.progress w inside moved)
    | waiting _ w inside polled ih => exact .step ih (.waiting w inside polled)
  · intro reached
    induction reached with
    | start => exact ⟨_, .start⟩
    | step _ move ih =>
      obtain ⟨hauls, hauling⟩ := ih
      cases move with
      | progress w inside moved => exact ⟨_, .progress hauling w inside moved⟩
      | waiting w inside polled => exact ⟨_, .waiting hauling w inside polled⟩

/-- Following an order of steps keeps the hauls. -/
theorem Hauling.haul (hauling : Hauling m start hauls s) (order : List Nat)
    (inside : ∀ w ∈ order, w < m.threads) :
    Hauling m start (m.haul order hauls s).1 (m.haul order hauls s).2 := by
  induction order generalizing hauls s with
  | nil => exact hauling
  | cons w order ih =>
    have here := inside w (by simp)
    have later : ∀ v ∈ order, v < m.threads := fun v member => inside v (by simp [member])
    unfold Machine.haul
    split
    · next moved => exact ih (.progress hauling w here moved) later
    · next polled => exact ih (.waiting hauling w here polled) later
    · exact ih hauling later

/-! ## what a drain keeps -/

/-- The worker is in a drain of a queue: before it looks into the queue again it performs a task and counts its
segments. -/
def InDrain (owner : Nat) : List Instruction → Prop
  | .perform _ :: rest | .advance _ :: rest => InDrain owner rest
  | .drain other :: _ => other = owner
  | _ => False

theorem inDrain_taskCode (counting : Bool) (task : SegmentTask) (owner : Nat) (rest : List Instruction) :
    InDrain owner (taskCode counting task ++ .drain owner :: rest) := by
  have counts : ∀ ids : List Nat, InDrain owner (ids.map .advance ++ .drain owner :: rest) := by
    intro ids
    induction ids with
    | nil => rfl
    | cons id ids ih => exact ih
  cases counting
  · rfl
  · exact counts task.touched

theorem drain_mem_of_inDrain {owner : Nat} {code : List Instruction} (drains : InDrain owner code) :
    .drain owner ∈ code := by
  induction code with
  | nil => exact drains.elim
  | cons x code ih =>
    cases x with
    | perform task => exact List.mem_cons_of_mem _ (ih drains)
    | advance id => exact List.mem_cons_of_mem _ (ih drains)
    | drain other =>
      rw [show other = owner from drains]
      exact List.mem_cons_self
    | _ => exact drains.elim

namespace Outline

/-- What is taken in a drain is taken once, performed at once, and allowed where the mark of the worker stands. -/
structure Hauls (mark : Outline → Nat → Nat) (allowed : (worker owner mark : Nat) → SegmentTask → Prop)
    (log : List SegmentTask) (hauls : Nat → List SegmentTask) (o : Outline) : Prop where
  nodup : ∀ w, (hauls w).Nodup
  taken : ∀ w, ∀ task ∈ hauls w, task ∈ log ∨ (o.code w).head? = some (.perform task)
  draining : ∀ w, hauls w ≠ [] →
    ∃ owner, InDrain owner (o.code w) ∧ ∀ task ∈ hauls w, allowed w owner (mark o w) task

variable {n threads w v : Nat} {counting : Bool} {o o' effect : Outline} {instruction : Instruction}
  {rest more : List Instruction} {log : List SegmentTask}

theorem haulsAfter_of_ne (other : v ≠ w) : o.haulsAfter w hauls v = hauls v := by
  unfold haulsAfter
  cases o.code w with
  | nil => rfl
  | cons x rest =>
    cases x with
    | drain owner =>
      dsimp only
      cases o.queue owner <;> exact Function.update_of_ne other ..
    | _ => rfl

/-- Only a look into a queue changes a haul. -/
theorem haulsAfter_of_code (code : o.code w = instruction :: rest)
    (noDrain : ∀ owner, instruction ≠ .drain owner) : o.haulsAfter w hauls = hauls := by
  unfold haulsAfter
  rw [code]
  cases instruction with
  | drain owner => exact absurd rfl (noDrain owner)
  | _ => rfl

theorem haulsAfter_of_empty {owner : Nat} (code : o.code w = .drain owner :: rest)
    (empty : o.queue owner = []) : o.haulsAfter w hauls w = [] := by
  simp only [haulsAfter, code, empty, Function.update_self]

theorem haulsAfter_of_found {owner : Nat} {task : SegmentTask} {left : List SegmentTask}
    (code : o.code w = .drain owner :: rest) (found : o.queue owner = task :: left) :
    o.haulsAfter w hauls w = hauls w ++ [task] := by
  simp only [haulsAfter, code, found, Function.update_self]

namespace Hauls

variable {mark : Outline → Nat → Nat} {allowed : (worker owner mark : Nat) → SegmentTask → Prop}

theorem nil (mark : Outline → Nat → Nat) (allowed : (worker owner mark : Nat) → SegmentTask → Prop)
    (o : Outline) : o.Hauls mark allowed [] fun _ => [] where
  nodup _ := .nil
  taken _ _ member := by cases member
  draining _ holds := absurd rfl holds

/-- A worker that is about to do anything but go on with a drain has no haul. -/
theorem eq_nil (held : o.Hauls mark allowed log hauls) (code : o.code w = instruction :: rest)
    (away : ∀ owner, ¬InDrain owner (instruction :: rest)) : hauls w = [] := by
  by_contra holds
  obtain ⟨owner, drains, -⟩ := held.draining w holds
  exact away owner (code ▸ drains)

/-- A task that the worker does not perform next has been performed. -/
theorem mem_log (held : o.Hauls mark allowed log hauls) {task : SegmentTask} (member : task ∈ hauls w)
    (code : o.code w = instruction :: rest) (noTask : instruction ≠ .perform task) : task ∈ log := by
  refine (held.taken w task member).resolve_right fun next => noTask ?_
  rw [code] at next
  exact Option.some.inj next

/-- What a worker that looks into a queue has taken by then. -/
theorem of_take (held : o.Hauls mark allowed log hauls) (fits : n < Word.capacity)
    (orderly : o.Orderly n threads log) {owner : Nat} (within : owner < threads) {task : SegmentTask}
    {left : List SegmentTask} (found : o.queue owner = task :: left) (code : o.code w = .drain owner :: rest)
    (now : allowed w owner (mark o w) task) :
    (hauls w ++ [task]).Nodup ∧ (∀ other ∈ hauls w, other ∈ log) ∧
      ∀ other ∈ hauls w ++ [task], allowed w owner (mark o w) other := by
  have before : ∀ other ∈ hauls w, other ∈ log := fun other member => held.mem_log member code (by simp)
  have queued : task ∈ o.queue owner := by simp [found]
  have undone : task ∉ log := orderly.not_mem_log fits (mem_pending_iff.2 ⟨owner, within, .inr queued⟩)
  refine ⟨List.concat_eq_append ▸ (held.nodup w).concat fun member => undone (before task member), before,
    fun other member => ?_⟩
  rcases List.mem_append.1 member with earlier | last
  · obtain ⟨owner', drains, all⟩ := held.draining w (List.ne_nil_of_mem earlier)
    rw [code] at drains
    obtain rfl : owner = owner' := drains
    exact all other earlier
  · rw [List.mem_singleton.1 last]
    exact now

/-- The haul of the worker that acts. -/
theorem own_of_fires (held : o.Hauls mark allowed log hauls) (fits : n < Word.capacity)
    (orderly : o.Orderly n threads log)
    (queued : ∀ owner < threads, ∀ task ∈ o.queue owner, allowed w owner (mark o w) task)
    (code : o.code w = instruction :: rest) (fires : o.Fires threads counting w instruction more effect) :
    (o.haulsAfter w hauls w).Nodup ∧
      (∀ task ∈ o.haulsAfter w hauls w,
        task ∈ log ++ instruction.performed ∨ (more ++ rest).head? = some (.perform task)) ∧
      (o.haulsAfter w hauls w ≠ [] → instruction.closes = false ∧
        ∃ owner, InDrain owner (more ++ rest) ∧
          ∀ task ∈ o.haulsAfter w hauls w, allowed w owner (mark o w) task) := by
  have within : instruction.Within n threads := orderly.within w _ (by simp [code])
  have draining := held.draining w
  rw [code] at draining
  cases fires with
  | perform task =>
    rw [haulsAfter_of_code code (by simp)]
    refine ⟨held.nodup w, fun other member => .inl ?_, fun holds => ⟨rfl, draining holds⟩⟩
    by_cases same : task = other
    · simp [Instruction.performed, same]
    · exact List.mem_append_left _ (held.mem_log member code (by simpa using same))
  | advance id =>
    rw [haulsAfter_of_code code (by simp)]
    exact ⟨held.nodup w, fun other member => .inl (List.mem_append_left _ (held.mem_log member code (by simp))),
      fun holds => ⟨rfl, draining holds⟩⟩
  | leave owner empty =>
    rw [haulsAfter_of_empty code empty]
    exact ⟨.nil, by simp, fun holds => absurd rfl holds⟩
  | take owner task left found =>
    rw [haulsAfter_of_found code found]
    obtain ⟨nodup, before, all⟩ :=
      held.of_take fits orderly within found code (queued owner within task (by simp [found]))
    refine ⟨nodup, fun other member => ?_, fun _ => ⟨rfl, owner, ?_, all⟩⟩
    · rcases List.mem_append.1 member with earlier | last
      · exact .inl (List.mem_append_left _ (before other earlier))
      · rw [List.mem_singleton.1 last]
        exact .inr rfl
    · rw [List.append_assoc]
      exact inDrain_taskCode counting task owner rest
  | _ =>
    rw [haulsAfter_of_code code (by simp), held.eq_nil code fun _ drains => drains]
    exact ⟨.nil, by simp, fun holds => absurd rfl holds⟩

theorem of_move (held : o.Hauls mark allowed log hauls) (fits : n < Word.capacity)
    (orderly : o.Orderly n threads log)
    (queued : ∀ owner < threads, ∀ task ∈ o.queue owner, allowed w owner (mark o w) task)
    (move : o.Move threads counting w instruction o')
    (kept : ∀ v, (v = w → instruction.closes = false) → mark o' v = mark o v) :
    o'.Hauls mark allowed (log ++ instruction.performed) (o.haulsAfter w hauls) := by
  obtain ⟨rest, more, effect, code, fires, rfl⟩ := move
  obtain ⟨nodup, taken, draining⟩ := held.own_of_fires fits orderly queued code fires
  refine ⟨fun v => ?_, fun v => ?_, fun v => ?_⟩ <;> by_cases same : v = w
  · exact same ▸ nodup
  · rw [haulsAfter_of_ne same]
    exact held.nodup v
  · subst same
    simpa only [Function.update_self] using taken
  · rw [haulsAfter_of_ne same]
    simp only [Function.update_of_ne same]
    exact fun task member => (held.taken v task member).imp_left (List.mem_append_left _)
  · subst same
    intro holds
    obtain ⟨opens, owner, drains, all⟩ := draining holds
    rw [kept v fun _ => opens]
    simp only [Function.update_self]
    exact ⟨owner, drains, all⟩
  · rw [haulsAfter_of_ne same, kept v fun here => absurd here same]
    simp only [Function.update_of_ne same]
    exact held.draining v

/-- Whoever polls in vain is in no drain. -/
theorem of_idle (held : o.Hauls mark allowed log hauls) (idle : o.Idle w o')
    (kept : ∀ v, mark o' v = mark o v) : o'.Hauls mark allowed log hauls := by
  obtain ⟨instruction, rest, code, blocked, rfl⟩ := idle
  have none_taken : hauls w = [] := held.eq_nil code fun _ drains => by cases blocked <;> exact drains
  refine ⟨held.nodup, fun v task member => ?_, fun v holds => ?_⟩
  all_goals
    have other : v ≠ w := by
      rintro rfl
      simp [none_taken] at *
    simp only [Function.update_of_ne other]
  · exact held.taken v task member
  · rw [kept v]
    exact held.draining v holds

end Hauls

end Outline

/-! ## runs -/

/-- What drains may take: whatever is in a queue is allowed where the mark of a worker stands, and the mark stays
where it is until the worker closes its stage. -/
structure Takes (m : Machine α) (start : State α) (mark : Outline → Nat → Nat)
    (allowed : (worker owner mark : Nat) → SegmentTask → Prop) : Prop where
  queued : ∀ {log s}, Execution m start log s → ∀ w < m.threads, ∀ owner < m.threads,
    ∀ task ∈ s.outline.queue owner, allowed w owner (mark s.outline w) task
  moves : ∀ {o o' w instruction}, o.Move m.threads m.counting w instruction o' →
    ∀ v, (v = w → instruction.closes = false) → mark o' v = mark o v
  idles : ∀ {o o' w}, o.Helps m.threads → o.Idle w o' → ∀ v, mark o' v = mark o v

/-- The hauls of a run are those of an execution, with no task twice and none that is not allowed. -/
theorem Hauling.exists_hauls {n : Nat} {mark : Outline → Nat → Nat}
    {allowed : (worker owner mark : Nat) → SegmentTask → Prop} (steady : Steady m start n)
    (fits : n < Word.capacity) (takes : Takes m start mark allowed) (hauling : Hauling m start hauls s) :
    ∃ log, Execution m start log s ∧ s.outline.Hauls mark allowed log hauls := by
  induction hauling with
  | start => exact ⟨[], .start, .nil mark allowed _⟩
  | progress _ w inside moved ih =>
    obtain ⟨log, execution, held⟩ := ih
    obtain ⟨instruction, move, -, -⟩ := Machine.move_of_progress (n := 0) moved
    have kept := held.of_move fits (steady.orderly execution)
      (fun owner within => takes.queued execution w inside owner within) move (takes.moves move)
    refine ⟨_, .progress execution w inside moved, ?_⟩
    obtain ⟨rest, _, _, code, _, _⟩ := move
    rwa [State.performing_of_code code]
  | waiting _ w inside polled ih =>
    obtain ⟨log, execution, held⟩ := ih
    have idle := (Machine.idle_of_waiting (n := 0) polled).1
    exact ⟨log, .waiting execution w inside polled,
      held.of_idle idle (takes.idles (steady.orderly execution).helps idle)⟩

/-- A haul consists of different tasks of the sort, all from one queue and all allowed. -/
theorem Hauling.exists_owner {n : Nat} {mark : Outline → Nat → Nat}
    {allowed : (worker owner mark : Nat) → SegmentTask → Prop} (steady : Steady m start n)
    (fits : n < Word.capacity) (takes : Takes m start mark allowed) (hauling : Hauling m start hauls s)
    {w : Nat} (inside : w < m.threads) (holds : hauls w ≠ []) :
    (hauls w).Nodup ∧ ∃ owner < m.threads, ∀ task ∈ hauls w,
      task ∈ tasks n ∧ allowed w owner (mark s.outline w) task := by
  obtain ⟨log, execution, held⟩ := hauling.exists_hauls steady fits takes
  have orderly := steady.orderly execution
  obtain ⟨owner, drains, all⟩ := held.draining w holds
  refine ⟨held.nodup w, owner, orderly.within w _ (drain_mem_of_inDrain drains), fun task member =>
    ⟨?_, all task member⟩⟩
  rcases held.taken w task member with done | next
  · exact orderly.admissible.mem_tasks done
  · obtain ⟨rest, code⟩ := List.head?_eq_some_iff.1 next
    exact orderly.mem_tasks (mem_pending_of_code inside code rfl)

/-! ## what is in the queues -/

/-- A queue holds only what its owner has set out to queue. -/
theorem Execution.queue_subset {log : List SegmentTask} {share : Nat → List SegmentTask}
    (execution : Execution m start log s)
    (helps : start.outline.Helps m.threads) (empty : ∀ w, start.outline.queue w = [])
    (pushes : ∀ w task, .push task ∈ start.outline.code w → task ∈ share w) (w : Nat) :
    s.outline.queue w ⊆ share w := by
  have all := execution.invariant
    (P := fun _ o => o.Helps m.threads ∧ (∀ w, o.queue w ⊆ share w) ∧
      ∀ w task, .push task ∈ o.code w → task ∈ share w)
    ⟨helps, by simp [empty], pushes⟩ ?_ ?_
  · exact all.2.1 w
  · rintro log w instruction o o' ⟨helps, queues, pushes⟩ inside move
    refine ⟨Outline.Orderly.helps_of_move helps move, ?_⟩
    obtain ⟨rest, more, effect, code, fires, rfl⟩ := move
    refine ⟨fun u task queued => ?_, ?_⟩
    · rcases fires.mem_queue queued with earlier | ⟨rfl, rfl⟩
      · exact queues u earlier
      · exact pushes u task (by simp [code])
    · refine (Function.forall_update_iff o.code fun u code => ∀ task, .push task ∈ code → task ∈ share u).2
        ⟨fun task member => ?_, fun u _ => pushes u⟩
      rcases List.mem_append.1 member with now | later
      · rcases fires.incidental with ⟨call, next, -, rfl⟩ | incidental
        · simp at now
        · cases incidental _ now
      · exact pushes w task (by simp [code, later])
  · rintro log w o o' ⟨helps, queues, pushes⟩ inside idle
    obtain ⟨_, _, _, _, rfl⟩ := idle
    refine ⟨helps, queues, (Function.forall_update_iff o.code fun u code => ∀ task, .push task ∈ code →
      task ∈ share u).2 ⟨fun task member => ?_, fun u _ => pushes u⟩⟩
    rcases List.mem_append.1 member with look | later
    · cases helps.incidental _ look
    · exact pushes w task later

end SortNetwork.Parallel
