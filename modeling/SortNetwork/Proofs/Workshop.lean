import Mathlib
import SortNetwork.TaskQueue.Workshop

/-!
# SortNetwork.Proofs.Workshop

Any number of workers in one shop, and what becomes of the jobs they push.

`History past floor` says that the workers have come from empty queues to `floor`, and that `past` lists what
each step did.  A worker performs one instruction at a time, in any order with the others.  What a thread or a
running job does next is its own affair: unless it is in the middle of taking jobs, it may make any further
call (`History.call`), whatever its script says.  A fault takes a worker back to any point at which somebody can
go on, and drains in between are cut short (`History.fail`).

What was pushed on a queue is what was taken from it, followed by what is queued, because every step keeps
this so (`Act.Books`).  A drain is known by its worker and by how much that worker has left to do after it,
which nothing that happens inside the drain can change (`Underway`).

* `moved_of_step`: what a step does to the queues, and to what the worker has to do.
* `History.books`: what was pushed and what was taken, at every point.
* `History.accounted`: what a drain has taken so far, and which job it runs.
* `jobs_leave_in_order`: what follows for jobs, for drains that return, and for faults.
-/

namespace SortNetwork.Workshop

variable {ι : Type}

/-! ## what workers do -/

/-- What a step does with a queue or a job. -/
inductive Act (ι : Type) where
  | pushed (queue : Nat) (job : Job ι)
  | popped (queue : Nat) (job : Job ι)
  /-- it found no job -/
  | missed (queue : Nat)
  /-- a drain began -/
  | began (queue : Nat)
  /-- a job came to its end -/
  | finished (label : ι)
  | failed
  | quiet

/-- A step, with the worker that took it. -/
structure Deed (ι : Type) where
  worker : Nat
  /-- how many instructions the worker had left behind the one that it performed -/
  level : Nat
  act : Act ι

namespace Act

/-- The job that was pushed on this queue. -/
def pushedTo? (queue : Nat) : Act ι → Option (Job ι)
  | .pushed other job => if other = queue then some job else none
  | _ => none

/-- The job that was taken from this queue. -/
def poppedFrom? (queue : Nat) : Act ι → Option (Job ι)
  | .popped other job => if other = queue then some job else none
  | _ => none

/-- The job that came to its end. -/
def finished? : Act ι → Option ι
  | .finished label => some label
  | _ => none

/-- What it is to take a job. -/
def ofPop (queue : Nat) : Except Fault (Option (Job ι) × Shop ι) → Act ι
  | .ok (some job, _) => .popped queue job
  | .ok (none, _) => .missed queue
  | .error _ => .quiet

/-- What it is to push the job set aside first. -/
def ofUnhold (queue : Nat) : Option (Job ι) × Shop ι → Act ι
  | (some job, _) => .pushed queue job
  | (none, _) => .quiet

end Act

/-- All that was pushed on a queue, with the workers that pushed it. -/
def pushes (queue : Nat) (past : List (Deed ι)) : List (Nat × Job ι) :=
  past.filterMap fun deed => (deed.act.pushedTo? queue).map (deed.worker, ·)

/-- All that was taken from a queue. -/
def pops (queue : Nat) (past : List (Deed ι)) : List (Job ι) :=
  past.filterMap fun deed => deed.act.poppedFrom? queue

namespace Shop

/-- The jobs that a queue holds. -/
def queued (shop : Shop ι) (queue : Nat) : List (Job ι) := (shop.queues[queue]?.map TaskQueue.tasks).getD []

/-- What an instruction does, unless it faults. -/
def actOf (shop : Shop ι) : Instruction ι → Act ι
  | .perform (.push queue label script) => .pushed queue ⟨label, script⟩
  | .perform (.requeueHeld queue) => .ofUnhold queue shop.unhold
  | .perform (.pop queue) | .perform (.popRun queue) | .perform (.hold queue) | .drainOn queue _ =>
    .ofPop queue (shop.pop queue)
  | .perform (.drain queue) => .began queue
  | .finish label => .finished label
  | _ => .quiet

end Shop

/-- A shop, and what each of its workers has to do. -/
structure Floor (ι : Type) where
  shop : Shop ι
  code : Nat → List (Instruction ι)

/-- Whether a thread or a running job decides what comes next, and no drain or other taking of jobs. -/
def Free : List (Instruction ι) → Prop
  | .drainOn _ _ :: _ | .ran _ :: _ => False
  | _ => True

/-- What workers have done in a shop with so many queues, all empty at first. -/
inductive History (queues : Nat) : List (Deed ι) → Floor ι → Prop where
  | opened : History queues [] ⟨.opened queues, fun _ => []⟩
  | call {past : List (Deed ι)} {floor : Floor ι} (before : History queues past floor) (worker : Nat)
      (free : Free (floor.code worker)) (operation : Operation ι) :
      History queues past
        ⟨floor.shop, Function.update floor.code worker (.perform operation :: floor.code worker)⟩
  | step {past : List (Deed ι)} {floor : Floor ι} {x : Instruction ι} {rest left : List (Instruction ι)}
      {after : Shop ι} (before : History queues past floor) (worker : Nat)
      (next : floor.code worker = x :: rest) (moved : floor.shop.step (x :: rest) = .moved after left) :
      History queues (past ++ [⟨worker, rest.length, floor.shop.actOf x⟩])
        ⟨after, Function.update floor.code worker left⟩
  | fail {past : List (Deed ι)} {floor : Floor ι} {x : Instruction ι} {rest : List (Instruction ι)}
      {after : Shop ι} {fault : Fault} (before : History queues past floor) (worker : Nat)
      (next : floor.code worker = x :: rest) (failed : floor.shop.step (x :: rest) = .failed after fault)
      (left : List (Instruction ι)) (caught : left <:+ rest) (free : Free left) :
      History queues (past ++ [⟨worker, rest.length, .failed⟩])
        ⟨after, Function.update floor.code worker left⟩

/-! ## queues -/

namespace Shop

variable {shop after : Shop ι} {queue other : Nat} {job : Job ι}

theorem size_of_push (pushed : shop.push queue job = .ok after) : after.queues.size = shop.queues.size := by
  unfold push at pushed
  split at pushed <;> cases pushed
  simp

theorem size_of_pop {found : Option (Job ι)} (popped : shop.pop queue = .ok (found, after)) :
    after.queues.size = shop.queues.size := by
  unfold pop at popped
  split at popped
  · split at popped <;> cases popped
    · rfl
    · simp
  · cases popped

theorem queued_of_push (pushed : shop.push queue job = .ok after) (other : Nat) :
    after.queued other = if queue = other then shop.queued other ++ [job] else shop.queued other := by
  unfold push at pushed
  split at pushed
  · next inside =>
    cases pushed
    simp only [queued, Array.getElem?_set]
    split
    · next same =>
      subst same
      simp [inside]
    · rfl
  · cases pushed

theorem queued_of_pop_none (popped : shop.pop queue = .ok (none, after)) :
    after = shop ∧ shop.queued queue = [] := by
  unfold pop at popped
  split at popped
  · next inside =>
    split at popped <;> cases popped
    next none => exact ⟨rfl, by simp [queued, inside, TaskQueue.pop?_eq_none_iff.1 none]⟩
  · cases popped

theorem queued_of_pop_some (popped : shop.pop queue = .ok (some job, after)) (other : Nat) :
    (if queue = other then job :: after.queued other else after.queued other) = shop.queued other := by
  unfold pop at popped
  split at popped
  · next inside =>
    split at popped
    · cases popped
    · next left found =>
      cases popped
      simp only [queued, Array.getElem?_set]
      split
      · next same =>
        subst same
        simp [inside, TaskQueue.pop?_eq_some_iff.1 found]
      · rfl
  · cases popped

/-- A queue gives no job exactly if it holds none. -/
theorem pop_eq_none_iff (inside : queue < shop.queues.size) :
    shop.pop queue = .ok (none, shop) ↔ shop.queued queue = [] := by
  constructor
  · exact fun none => (queued_of_pop_none none).2
  · intro empty
    have none : shop.queues[queue].pop? = none := by
      rw [TaskQueue.pop?_eq_none_iff]
      simpa [queued, inside] using empty
    simp [pop, inside, none]

theorem queues_of_unhold {found : Option (Job ι)} (unheld : shop.unhold = (found, after)) :
    after.queues = shop.queues := by
  unfold unhold at unheld
  split at unheld <;> cases unheld <;> rfl

end Shop

/-- What was pushed stands behind what was queued, and what was taken stood before what is. -/
structure Act.Books (act : Act ι) (shop after : Shop ι) : Prop where
  size : after.queues.size = shop.queues.size
  queued : ∀ queue,
    shop.queued queue ++ (act.pushedTo? queue).toList = (act.poppedFrom? queue).toList ++ after.queued queue

namespace Act

variable {shop between after : Shop ι} {act : Act ι} {queue : Nat} {job : Job ι}

theorem books_of_push (same : between.queues = shop.queues) (pushed : between.push queue job = .ok after) :
    (Act.pushed queue job).Books shop after := by
  refine ⟨by rw [Shop.size_of_push pushed, same], fun other => ?_⟩
  have same : shop.queued other = between.queued other := by rw [Shop.queued, ← same, Shop.queued]
  rw [Shop.queued_of_push pushed other, same]
  simp only [pushedTo?, poppedFrom?]
  split <;> simp

theorem books_ofPop {found : Option (Job ι)} (popped : shop.pop queue = .ok (found, between))
    (same : after.queues = between.queues) : (ofPop queue (shop.pop queue)).Books shop after := by
  refine ⟨by rw [same, Shop.size_of_pop popped], fun other => ?_⟩
  have same : after.queued other = between.queued other := by rw [Shop.queued, same, Shop.queued]
  rw [popped, same]
  cases found with
  | none => simp [ofPop, pushedTo?, poppedFrom?, (Shop.queued_of_pop_none popped).1]
  | some job =>
    rw [← Shop.queued_of_pop_some popped other]
    simp only [ofPop, pushedTo?, poppedFrom?]
    split <;> simp

/-- Whatever leaves the queues alone is in order with them. -/
theorem books_of_queues (same : after.queues = shop.queues)
    (neither : ∀ queue, act.pushedTo? queue = none ∧ act.poppedFrom? queue = none) : act.Books shop after :=
  ⟨by rw [same], fun queue => by simp [neither, Shop.queued, same]⟩

end Act

/-! ## steps -/

/-- Whether an instruction belongs to a drain that has begun. -/
def Instruction.Draining : Instruction ι → Prop
  | .drainOn _ _ => True
  | _ => False

theorem not_draining_of_mem_code {job : Job ι} : ∀ x ∈ job.code, ¬x.Draining := by
  intro x member
  rcases List.mem_append.1 member with scripted | last
  · obtain ⟨operation, -, rfl⟩ := List.mem_map.1 scripted
    exact not_false
  · rw [List.mem_singleton.1 last]
    exact not_false

/-- What an instruction puts in front of the rest of a worker's instructions. -/
inductive Opens : Instruction ι → Act ι → List (Instruction ι) → Prop where
  | drain (queue : Nat) : Opens (.perform (.drain queue)) (.began queue) [.drainOn queue 0]
  | take (queue count : Nat) (job : Job ι) :
      Opens (.drainOn queue count) (.popped queue job) (job.code ++ [.drainOn queue (count + 1)])
  | return_ (queue count : Nat) : Opens (.drainOn queue count) (.missed queue) []
  | finish (label : ι) : Opens (.finish label) (.finished label) []
  | plain {operation : Operation ι} {act : Act ι} {new : List (Instruction ι)}
      (aside : ∀ x ∈ new, ¬x.Draining) : Opens (.perform operation) act new
  | ran (queue : Nat) : Opens (.ran queue) .quiet []

variable {shop after : Shop ι} {x : Instruction ι} {rest left : List (Instruction ι)}

theorem moved_of_perform {operation : Operation ι} (moved : shop.perform rest operation = .moved after left) :
    (shop.actOf (.perform operation)).Books shop after ∧
      ∃ new, left = new ++ rest ∧ Opens (.perform operation) (shop.actOf (.perform operation)) new := by
  cases operation with
  | push queue label script =>
    simp only [Shop.perform] at moved
    split at moved <;> cases moved
    next pushed => exact ⟨Act.books_of_push rfl pushed, [], rfl, .plain (by simp)⟩
  | pop queue =>
    simp only [Shop.perform] at moved
    split at moved <;> cases moved
    next popped => exact ⟨Act.books_ofPop popped rfl, [], rfl, .plain (by simp)⟩
  | popRun queue =>
    simp only [Shop.perform] at moved
    split at moved <;> cases moved
    · next popped => exact ⟨Act.books_ofPop popped rfl, [], rfl, .plain (by simp)⟩
    · next job _ popped =>
      refine ⟨Act.books_ofPop popped rfl, job.code ++ [.ran queue], by simp, .plain fun x member => ?_⟩
      rcases List.mem_append.1 member with within | last
      · exact not_draining_of_mem_code x within
      · rw [List.mem_singleton.1 last]
        exact not_false
  | hold queue =>
    simp only [Shop.perform] at moved
    split at moved <;> cases moved
    all_goals
      next popped => exact ⟨Act.books_ofPop popped rfl, [], rfl, .plain (by simp)⟩
  | runHeld queue =>
    simp only [Shop.perform] at moved
    split at moved <;> cases moved
    · next unheld =>
      have same := Shop.queues_of_unhold unheld
      exact ⟨Act.books_of_queues same fun _ => ⟨rfl, rfl⟩, [], rfl, .plain (by simp)⟩
    · next job _ unheld =>
      have same := Shop.queues_of_unhold unheld
      exact ⟨Act.books_of_queues same fun _ => ⟨rfl, rfl⟩, job.code, rfl, .plain not_draining_of_mem_code⟩
  | requeueHeld queue =>
    simp only [Shop.perform] at moved
    simp only [Shop.actOf]
    split at moved
    · next unheld =>
      cases moved
      have same := Shop.queues_of_unhold unheld
      rw [unheld]
      exact ⟨Act.books_of_queues same fun _ => ⟨rfl, rfl⟩, [], rfl, .plain (by simp)⟩
    · next job between unheld =>
      split at moved <;> cases moved
      next pushed =>
      have same := Shop.queues_of_unhold unheld
      have same : (between.note (.requeued queue true)).queues = shop.queues := same
      rw [unheld]
      exact ⟨Act.books_of_push same pushed, [], rfl, .plain (by simp)⟩
  | drain queue =>
    cases moved
    exact ⟨Act.books_of_queues rfl fun _ => ⟨rfl, rfl⟩, [.drainOn queue 0], rfl, .drain queue⟩
  | measure queue =>
    simp only [Shop.perform] at moved
    split at moved <;> cases moved
    exact ⟨Act.books_of_queues rfl fun _ => ⟨rfl, rfl⟩, [], rfl, .plain (by simp)⟩
  | fail message => cases moved

/-- A step changes the queues as it says, and puts its own instructions, if any, in front of the rest. -/
theorem moved_of_step (moved : shop.step (x :: rest) = .moved after left) :
    (shop.actOf x).Books shop after ∧ ∃ new, left = new ++ rest ∧ Opens x (shop.actOf x) new := by
  cases x with
  | perform operation => exact moved_of_perform moved
  | finish label =>
    cases moved
    exact ⟨Act.books_of_queues rfl fun _ => ⟨rfl, rfl⟩, [], rfl, .finish label⟩
  | drainOn queue count =>
    simp only [Shop.step] at moved
    simp only [Shop.actOf]
    split at moved <;> cases moved
    · next popped =>
      refine ⟨Act.books_ofPop popped rfl, [], rfl, ?_⟩
      rw [popped]
      exact .return_ queue count
    · next job _ popped =>
      refine ⟨Act.books_ofPop popped rfl, job.code ++ [.drainOn queue (count + 1)], by simp, ?_⟩
      rw [popped]
      exact .take queue count job
  | ran queue =>
    cases moved
    exact ⟨Act.books_of_queues rfl fun _ => ⟨rfl, rfl⟩, [], rfl, .ran queue⟩

/-- A step that faults leaves all queues as they are. -/
theorem queues_of_failed {fault : Fault} (failed : shop.step (x :: rest) = .failed after fault) :
    after.queues = shop.queues := by
  cases x with
  | perform operation =>
    cases operation <;> simp only [Shop.step, Shop.perform] at failed
    case requeueHeld queue =>
      split at failed
      · cases failed
      · next unheld =>
        split at failed <;> cases failed
        have same := Shop.queues_of_unhold unheld
        exact same
    case runHeld queue => split at failed <;> cases failed
    case drain queue => cases failed
    case fail message =>
      cases failed
      rfl
    all_goals
      split at failed <;> cases failed
      rfl
  | finish label => cases failed
  | drainOn queue count =>
    simp only [Shop.step] at failed
    split at failed <;> cases failed
    rfl
  | ran queue => cases failed

/-! ## what was pushed and taken -/

variable {queues queue worker level count : Nat} {past before during : List (Deed ι)} {deed : Deed ι}
  {floor : Floor ι} {code : List (Instruction ι)} {running : Option ι}

theorem History.books (history : History queues past floor) (queue : Nat) :
    (pushes queue past).map Prod.snd = pops queue past ++ floor.shop.queued queue := by
  have snoc : ∀ {past : List (Deed ι)} (deed : Deed ι) {shop after : Shop ι},
      deed.act.Books shop after → (pushes queue past).map Prod.snd = pops queue past ++ shop.queued queue →
      (pushes queue (past ++ [deed])).map Prod.snd = pops queue (past ++ [deed]) ++ after.queued queue := by
    intro past deed shop after books ih
    have pushed : (pushes queue (past ++ [deed])).map Prod.snd =
        (pushes queue past).map Prod.snd ++ (deed.act.pushedTo? queue).toList := by
      cases h : deed.act.pushedTo? queue <;> simp [pushes, h]
    have popped : pops queue (past ++ [deed]) = pops queue past ++ (deed.act.poppedFrom? queue).toList := by
      cases h : deed.act.poppedFrom? queue <;> simp [pops, h]
    rw [pushed, popped, ih, List.append_assoc, books.queued queue, List.append_assoc]
  induction history with
  | opened =>
    simp only [Shop.opened, Shop.queued, Array.getElem?_replicate]
    split <;> rfl
  | call _ _ _ _ ih => exact ih
  | step _ _ _ moved ih => exact snoc ⟨_, _, _⟩ (moved_of_step moved).1 ih
  | fail _ _ _ failed _ _ _ ih =>
    exact snoc ⟨_, _, .failed⟩ (Act.books_of_queues (queues_of_failed failed) fun _ => ⟨rfl, rfl⟩) ih

theorem History.size (history : History queues past floor) : floor.shop.queues.size = queues := by
  induction history with
  | opened => simp [Shop.opened]
  | call _ _ _ _ ih => exact ih
  | step _ _ _ moved ih => exact (moved_of_step moved).1.size.trans ih
  | fail _ _ _ failed _ _ _ ih => exact (congrArg Array.size (queues_of_failed failed)).trans ih

/-! ## drains -/

/-- What a worker did while it had so many instructions left behind. -/
def acts (worker level : Nat) (deeds : List (Deed ι)) : List (Act ι) :=
  (deeds.filter fun deed => deed.worker = worker ∧ deed.level = level).map Deed.act

theorem acts_snoc (worker level : Nat) (deeds : List (Deed ι)) (deed : Deed ι) :
    acts worker level (deeds ++ [deed]) = acts worker level deeds ++
      if deed.worker = worker ∧ deed.level = level then [deed.act] else [] := by
  rw [acts, List.filter_append, List.map_append, acts]
  split <;> simp_all

/-- A drain that has so many instructions behind it is the one that began last there.  Since then it has taken
`jobs` and done nothing else; all else that its worker did happened inside a job.  A job stands right in front of
the drain, so this is where it comes to its end, and at most one of them, `running`, has not. -/
structure Underway (past : List (Deed ι)) (worker level queue count : Nat) (running : Option ι)
    (during : List (Deed ι)) (jobs : List (Job ι)) : Prop where
  began : ∃ before, past = before ++ ⟨worker, level, .began queue⟩ :: during
  inside : ∀ deed ∈ during, deed.worker = worker → level ≤ deed.level
  taken : acts worker level during = jobs.map (.popped queue)
  counted : jobs.length = count
  ended : jobs.map Job.label = (acts worker (level + 1) during).filterMap Act.finished? ++ running.toList

namespace Underway

variable {jobs : List (Job ι)}

theorem start (past : List (Deed ι)) (worker level queue : Nat) :
    Underway (past ++ [⟨worker, level, .began queue⟩]) worker level queue 0 none [] [] :=
  ⟨⟨past, rfl⟩, by simp, rfl, rfl, rfl⟩

/-- What others do, and what happens inside a job that is taken, leaves a drain as it is. -/
theorem snoc_of_apart (underway : Underway past worker level queue count running during jobs)
    (apart : deed.worker = worker → level + 1 < deed.level) :
    Underway (past ++ [deed]) worker level queue count running (during ++ [deed]) jobs := by
  obtain ⟨⟨before, rfl⟩, inside, taken, counted, ended⟩ := underway
  have elsewhere : ∀ other ≤ level + 1, acts worker other (during ++ [deed]) = acts worker other during := by
    intro other low
    rw [acts_snoc, if_neg, List.append_nil]
    rintro ⟨same, rfl⟩
    have := apart same
    omega
  have last : deed.worker = worker → level ≤ deed.level := by
    intro same
    have := apart same
    omega
  refine ⟨⟨before, by simp⟩, List.forall_mem_append.2 ⟨inside, List.forall_mem_singleton.2 last⟩,
    (elsewhere level (by omega)).trans taken, counted, ?_⟩
  rw [elsewhere (level + 1) le_rfl, ended]

/-- A drain takes its next job when it has run the one before. -/
theorem snoc_popped (underway : Underway past worker level queue count none during jobs) (job : Job ι) :
    Underway (past ++ [⟨worker, level, .popped queue job⟩]) worker level queue (count + 1) (some job.label)
      (during ++ [⟨worker, level, .popped queue job⟩]) (jobs ++ [job]) := by
  obtain ⟨⟨before, rfl⟩, inside, taken, rfl, ended⟩ := underway
  refine ⟨⟨before, by simp⟩, List.forall_mem_append.2 ⟨inside, List.forall_mem_singleton.2 fun _ => le_rfl⟩,
    ?_, by simp, ?_⟩
  · simp [acts_snoc, taken]
  · simp [acts_snoc, ended]

/-- A job that comes to its end lets its drain go on. -/
theorem snoc_finished {label : ι} (underway : Underway past worker level queue count (some label) during jobs) :
    Underway (past ++ [⟨worker, level + 1, .finished label⟩]) worker level queue count none
      (during ++ [⟨worker, level + 1, .finished label⟩]) jobs := by
  obtain ⟨⟨before, rfl⟩, inside, taken, counted, ended⟩ := underway
  refine ⟨⟨before, by simp⟩,
    List.forall_mem_append.2 ⟨inside, List.forall_mem_singleton.2 fun _ => Nat.le_succ level⟩, ?_, counted, ?_⟩
  · simp [acts_snoc, taken]
  · simp [acts_snoc, ended, Act.finished?]

end Underway

/-- Each drain in a worker's instructions is under way, and what stands in front of it is the job that it
runs. -/
def Accounted (past : List (Deed ι)) (worker : Nat) (code : List (Instruction ι)) : Prop :=
  ∀ (above : List (Instruction ι)) (queue count : Nat) (below : List (Instruction ι)),
    code = above ++ .drainOn queue count :: below →
    ∃ running during jobs, Underway past worker below.length queue count running during jobs ∧
      above.getLast? = running.map .finish

/-- Whoever decides what comes next stands in front of every drain. -/
theorem Free.ne_nil {above below : List (Instruction ι)} (free : Free (above ++ .drainOn queue count :: below)) :
    above ≠ [] := by
  rintro rfl
  exact free

namespace Accounted

/-- What one worker does leaves the drains of another as they are. -/
theorem snoc_of_ne (accounted : Accounted past worker code) (other : deed.worker ≠ worker) :
    Accounted (past ++ [deed]) worker code := by
  intro above queue count below split
  obtain ⟨running, during, jobs, underway, last⟩ := accounted above queue count below split
  exact ⟨running, _, jobs, underway.snoc_of_apart fun same => absurd same other, last⟩

/-- A call is made by a thread or by a running job, so no drain comes to stand in front. -/
theorem call (accounted : Accounted past worker code) (free : Free code) (operation : Operation ι) :
    Accounted past worker (.perform operation :: code) := by
  intro above queue count below split
  obtain ⟨-, drain⟩ | ⟨above, rfl, behind⟩ := List.cons_eq_append_iff.1 split
  · cases drain
  · obtain ⟨running, during, jobs, underway, last⟩ := accounted above queue count below behind
    have front := (behind ▸ free).ne_nil
    exact ⟨running, during, jobs, underway, by rw [List.getLast?_cons_of_ne_nil front, last]⟩

/-- A fault cuts short some drains, and the others still wait for the jobs that they run. -/
theorem fail (accounted : Accounted past worker (x :: rest)) (caught : left <:+ rest) (free : Free left) :
    Accounted (past ++ [⟨worker, rest.length, .failed⟩]) worker left := by
  intro above queue count below split
  obtain ⟨dropped, rfl⟩ := caught
  have front := (split ▸ free).ne_nil
  obtain ⟨running, during, jobs, underway, last⟩ :=
    accounted (x :: dropped ++ above) queue count below (by simp [split])
  refine ⟨running, _, jobs, underway.snoc_of_apart fun _ => ?_, ?_⟩
  · have := List.length_pos_of_ne_nil front
    simp only [split, List.length_append, List.length_cons]
    omega
  · rw [← last, List.getLast?_append_of_ne_nil _ front]

/-- A drain that was there before the step. -/
theorem step_behind {act : Act ι} {new above below : List (Instruction ι)}
    (accounted : Accounted past worker (x :: above ++ .drainOn queue count :: below)) (opens : Opens x act new) :
    ∃ running during jobs,
      Underway (past ++ [⟨worker, (above ++ .drainOn queue count :: below).length, act⟩]) worker below.length
        queue count running during jobs ∧ (new ++ above).getLast? = running.map .finish := by
  obtain ⟨running, during, jobs, underway, last⟩ := accounted (x :: above) queue count below rfl
  cases above with
  | nil =>
    -- Right in front of a drain stands the end of the job that it runs.
    cases running with
    | none => cases last
    | some label =>
      obtain rfl : x = .finish label := Option.some.inj last
      cases opens
      exact ⟨none, _, jobs, underway.snoc_finished, rfl⟩
  | cons y above =>
    refine ⟨running, _, jobs, underway.snoc_of_apart fun _ => ?_, ?_⟩
    · simp only [List.length_append, List.length_cons]
      omega
    · rw [← last, List.getLast?_append_cons, List.getLast?_cons_cons]

/-- A drain that the step put in front of the rest. -/
theorem step_front {act : Act ι} {new above mid : List (Instruction ι)}
    (accounted : Accounted past worker (x :: rest)) (opens : Opens x act new)
    (split : new = above ++ .drainOn queue count :: mid) :
    ∃ running during jobs,
      Underway (past ++ [⟨worker, rest.length, act⟩]) worker (mid ++ rest).length queue count running during jobs ∧
        above.getLast? = running.map .finish := by
  cases opens with
  | drain opened =>
    obtain ⟨rfl, same⟩ | ⟨_, -, behind⟩ := List.cons_eq_append_iff.1 split
    · cases same
      exact ⟨none, [], [], .start past worker rest.length queue, rfl⟩
    · simp at behind
  | take taken so_far job =>
    obtain ⟨running, during, jobs, underway, last⟩ := accounted [] taken so_far rest rfl
    obtain rfl : running = none := by simpa using last.symm
    obtain rfl | ⟨mid, _, rfl⟩ := List.eq_nil_or_concat' mid
    · obtain ⟨rfl, same⟩ := List.append_inj' split rfl
      cases same
      exact ⟨some job.label, _, _, underway.snoc_popped job, by simp [Job.code]⟩
    · rw [← List.cons_append, ← List.append_assoc] at split
      obtain ⟨within, -⟩ := List.append_inj' split rfl
      exact (not_draining_of_mem_code (.drainOn queue count) (within ▸ List.mem_append_cons_self) trivial).elim
  | return_ | finish | ran => simp at split
  | plain aside => exact absurd trivial (aside (.drainOn queue count) (by simp [split]))

theorem step {act : Act ι} {new : List (Instruction ι)} (accounted : Accounted past worker (x :: rest))
    (opens : Opens x act new) : Accounted (past ++ [⟨worker, rest.length, act⟩]) worker (new ++ rest) := by
  intro above queue count below split
  obtain ⟨above, rfl, rfl⟩ | ⟨later, front, split⟩ := List.append_eq_append_iff.1 split
  · exact step_behind accounted opens
  · obtain ⟨rfl, rfl⟩ | ⟨mid, rfl, rfl⟩ := List.cons_eq_append_iff.1 split
    · obtain rfl : new = above := by simpa using front
      have accounted : Accounted past worker (x :: [] ++ .drainOn queue count :: below) := accounted
      simpa using step_behind accounted opens
    · exact step_front accounted opens front

end Accounted

theorem History.accounted (history : History queues past floor) (worker : Nat) :
    Accounted past worker (floor.code worker) := by
  induction history with
  | opened =>
    intro above queue count below split
    simp at split
  | call _ acting free operation ih =>
    obtain rfl | other := eq_or_ne worker acting
    · simpa only [Function.update_self] using ih.call free operation
    · simpa only [Function.update_of_ne other] using ih
  | step _ acting next moved ih =>
    obtain rfl | other := eq_or_ne worker acting
    · obtain ⟨-, new, rfl, opens⟩ := moved_of_step moved
      simpa only [Function.update_self] using (next ▸ ih).step opens
    · simpa only [Function.update_of_ne other] using ih.snoc_of_ne other.symm
  | fail _ acting next _ left caught free ih =>
    obtain rfl | other := eq_or_ne worker acting
    · simpa only [Function.update_self] using (next ▸ ih).fail caught free
    · simpa only [Function.update_of_ne other] using ih.snoc_of_ne other.symm

/-! ## the order of jobs -/

/-- Jobs leave a queue in the order in which they were pushed: those taken so far, followed by those that the
queue holds, are all that were pushed.  So a job is handed out at most once for each time it was pushed, the
jobs of one worker leave as it pushed them, and a queue gives no job only if all that were pushed were taken.
A drain returns when it finds its queue empty, with the number of jobs that it took itself and ran to their
end, which leaves out those that a drain inside them or another worker took.  A fault leaves every queue as it
is. -/
theorem jobs_leave_in_order (history : History queues past floor) :
    (∀ queue, (pushes queue past).map Prod.snd = pops queue past ++ floor.shop.queued queue) ∧
      (∀ queue (chosen : Job ι → Bool),
        (pops queue past).countP chosen ≤ ((pushes queue past).map Prod.snd).countP chosen) ∧
      (∀ queue, ∃ handed, handed <+: pushes queue past ∧ handed.map Prod.snd = pops queue past ∧
        ∀ producer, handed.filter (·.1 = producer) <+: (pushes queue past).filter (·.1 = producer)) ∧
      (∀ queue < queues, floor.shop.pop queue = .ok (none, floor.shop) ↔
        pops queue past = (pushes queue past).map Prod.snd) ∧
      (∀ worker queue count rest after, floor.code worker = .drainOn queue count :: rest →
        floor.shop.step (.drainOn queue count :: rest) = .moved after rest →
        after = floor.shop.note (.drained queue count) ∧ floor.shop.queued queue = [] ∧
          ∃ during jobs, Underway past worker rest.length queue count none during jobs) ∧
      (∀ code after fault, floor.shop.step code = .failed after fault → after.queues = floor.shop.queues) := by
  refine ⟨history.books, fun queue chosen => ?_, fun queue => ?_, fun queue inside => ?_, ?_, ?_⟩
  · rw [history.books queue, List.countP_append]
    exact Nat.le_add_right _ _
  · have handed := (List.take_prefix (pops queue past).length (pushes queue past))
    refine ⟨_, handed, ?_, fun producer => handed.filter _⟩
    rw [List.map_take, history.books queue, List.take_left]
  · rw [Shop.pop_eq_none_iff (history.size ▸ inside), history.books queue]
    simp
  · intro worker queue count rest after next moved
    obtain ⟨running, during, jobs, underway, last⟩ := history.accounted worker [] queue count rest next
    obtain rfl : running = none := by simpa using last.symm
    simp only [Shop.step] at moved
    split at moved
    · next popped =>
      obtain ⟨rfl, empty⟩ := Shop.queued_of_pop_none popped
      cases moved
      exact ⟨rfl, empty, during, jobs, underway⟩
    · -- A drain that goes on has more to do than one that returns.
      have := congrArg List.length (Shop.Turn.moved.inj moved).2
      simp only [List.length_append, List.length_cons] at this
      omega
    · cases moved
  · intro code after fault failed
    cases code with
    | nil => cases failed
    | cons x rest => exact queues_of_failed failed

/-- A job drains the queue that it was taken from, and the drain inside it is cut short by a job that fails.  The
drain outside has taken one job of the two. -/
theorem jobs_leave_in_order_nested : ∃ (past : List (Deed Nat)) (floor : Floor Nat) (after : Shop Nat),
    History 1 past floor ∧ floor.code 0 = [.drainOn 0 1] ∧
      floor.shop.step [.drainOn 0 1] = .moved after [] ∧ (pops 0 past).map Job.label = [0, 1] ∧
        floor.shop.queued 0 = [] ∧ ∃ during jobs, Underway past 0 0 0 1 none during jobs := by
  have empty : History 1 ([] : List (Deed Nat)) ⟨.opened 1, fun _ => []⟩ := .opened
  have first := (empty.call 0 trivial (.push 0 0 [.drain 0])).step 0 rfl rfl
  have second := (first.call 1 trivial (.push 0 1 [.fail "no"])).step 1 rfl rfl
  have outside := ((second.call 0 trivial (.drain 0)).step 0 rfl rfl).step 0 rfl rfl
  have inside := (outside.step 0 rfl rfl).step 0 rfl rfl
  have failed := inside.fail 0 rfl rfl [.finish 0, .drainOn 0 1] ⟨[.finish 1, .drainOn 0 1], rfl⟩ trivial
  have ended := failed.step 0 rfl rfl
  obtain ⟨-, -, -, -, drains, -⟩ := jobs_leave_in_order ended
  obtain ⟨-, empty, underway⟩ := drains 0 0 1 [] _ rfl rfl
  exact ⟨_, _, _, ended, rfl, rfl, rfl, empty, underway⟩

end SortNetwork.Workshop
