import Mathlib
import SortNetwork.Proofs.Parallel.Gathering
import SortNetwork.Proofs.Parallel.SetUp

/-!
# SortNetwork.Proofs.Parallel.Staged

Stages kept apart by meetings.

The code of a worker places the tasks of each stage after a number of meetings, which `phase` tells from
the stage number (`Scheduled`).  A worker that has a call to the barrier open has emptied its queue, so a
queued task belongs to the phase that all workers have reached, whoever takes it
(`Staged.phase_of_queued`).  A taken task may still be running when the next meeting is released, but no
longer than that: what is pending lies at most one phase back (`Staged.le_phase`), and what is performed
lies no phase ahead (`Staged.phase_le`).
-/

namespace SortNetwork.Parallel

open Barrier (Call)

variable {phase : Nat → Nat} {n threads rounds released released' done w : Nat}
  {code more : List Instruction}
  {task : SegmentTask}

/-- A worker that has been through `done` meetings of `rounds` performs and queues the tasks of a stage
in the phase of the stage; a task that it has taken may be of any phase up to `released`. -/
def Scheduled (n rounds : Nat) (phase : Nat → Nat) (released : Nat) :
    (done : Nat) → List Instruction → Prop
  | done, [] => done = rounds
  | done, .perform task :: rest =>
    (done ≤ phase (task.stageNumber n) ∧ phase (task.stageNumber n) ≤ max released done) ∧
      Scheduled n rounds phase released done rest
  | done, .push task :: rest =>
    phase (task.stageNumber n) = done ∧ Scheduled n rounds phase released done rest
  | done, .barrier _ :: rest => Scheduled n rounds phase released (done + 1) rest
  | done, .enter :: rest | done, .drain _ :: rest => Scheduled n rounds phase released done rest
  | _, .advance _ :: _ | _, .await _ :: _ | _, .nextStage :: _ | _, .drainIfBehind _ :: _ => False

theorem Scheduled.mono (scheduled : Scheduled n rounds phase released done code)
    (grow : released ≤ released') :
    Scheduled n rounds phase released' done code := by
  induction code generalizing done with
  | nil => exact scheduled
  | cons x code ih =>
    cases x with
    | perform task =>
      exact ⟨⟨scheduled.1.1, scheduled.1.2.trans (max_le_max_right _ grow)⟩, ih scheduled.2⟩
    | push task => exact ⟨scheduled.1, ih scheduled.2⟩
    | enter => exact @ih done scheduled
    | drain owner => exact @ih done scheduled
    | barrier call => exact @ih (done + 1) scheduled
    | _ => exact scheduled.elim

theorem Scheduled.done_add (scheduled : Scheduled n rounds phase released done code) :
    done + total meetings code = rounds := by
  induction code generalizing done with
  | nil => exact scheduled
  | cons x code ih =>
    rw [total_cons]
    cases x with
    | perform task => simpa [meetings] using ih scheduled.2
    | push task => simpa [meetings] using ih scheduled.2
    | enter => simpa [meetings] using @ih done scheduled
    | drain owner => simpa [meetings] using @ih done scheduled
    | barrier call =>
      have := @ih (done + 1) scheduled
      simp only [meetings]
      omega
    | _ => exact scheduled.elim

/-- Workers that meet wait for no segment. -/
theorem Scheduled.await_not_mem {i : Nat} (scheduled : Scheduled n rounds phase released done code) :
    .await i ∉ code := by
  induction code generalizing done with
  | nil => simp
  | cons x code ih =>
    cases x with
    | perform task => simpa using ih scheduled.2
    | push task => simpa using ih scheduled.2
    | enter => simpa using @ih done scheduled
    | drain owner => simpa using @ih done scheduled
    | barrier call => simpa using @ih (done + 1) scheduled
    | _ => exact scheduled.elim

/-- What a worker has before it belongs to the phase it is in, or to later ones. -/
theorem Scheduled.le_phase (scheduled : Scheduled n rounds phase released done code)
    (member : task ∈ planned code) :
    done ≤ phase (task.stageNumber n) := by
  induction code generalizing done with
  | nil => cases member
  | cons x code ih =>
    cases x with
    | perform other =>
      rcases List.mem_cons.1 member with rfl | later
      · exact scheduled.1.1
      · exact ih scheduled.2 later
    | push other =>
      rcases List.mem_cons.1 member with rfl | later
      · exact scheduled.1.ge
      · exact ih scheduled.2 later
    | enter => exact @ih done scheduled member
    | drain owner => exact @ih done scheduled member
    | barrier call => exact (Nat.le_succ done).trans (@ih (done + 1) scheduled member)
    | _ => exact scheduled.elim

namespace Outline

/-- An orderly run of workers that meet: all code is scheduled, and a queue holds tasks of the phase that
its owner is in, none of them while the owner has a call to the barrier open. -/
structure Staged (n threads rounds : Nat) (phase : Nat → Nat) (released : Nat) (log : List SegmentTask)
    (o : Outline) : Prop where
  orderly : o.Orderly n threads log
  gathered : o.Gathered threads rounds released
  scheduled : ∀ w < threads, Scheduled n rounds phase released (o.met rounds w) (o.code w)
  queued : ∀ w < threads, ∀ task ∈ o.queue w, phase (task.stageNumber n) = o.met rounds w
  away : ∀ w, callOf (o.code w) ≠ .entering → ¬Drains w (o.code w)
  looks : ∀ w, ∀ x ∈ o.between w, ∃ owner, x = .drain owner

namespace Staged

variable {m : Nat} {log : List SegmentTask} {o o' : Outline} {instruction : Instruction}
  {rest : List Instruction}

/-- Whoever still drains its queue before the next call has none open. -/
theorem callOf_eq (staged : o.Staged n threads rounds phase released log) (drains : Drains w (o.code w)) :
    callOf (o.code w) = .entering := by
  by_contra inside
  exact staged.away w inside drains

/-- A queued task belongs to the phase that all meetings released so far have led to. -/
theorem phase_of_queued (staged : o.Staged n threads rounds phase released log) (inside : w < threads)
    (member : task ∈ o.queue w) : phase (task.stageNumber n) = released := by
  have drains := staged.orderly.tended.drains w (List.ne_nil_of_mem member)
  rw [staged.queued w inside task member, staged.gathered.met_eq inside (staged.callOf_eq drains)]

/-- A task that is about to be queued belongs to the phase that all meetings released so far have led
to. -/
theorem phase_of_push (staged : o.Staged n threads rounds phase released log) (inside : w < threads)
    (code : o.code w = .push task :: rest) : phase (task.stageNumber n) = released := by
  have scheduled := staged.scheduled w inside
  have tidy := staged.orderly.tended.tidy w
  have drains : Drains w (o.code w) := by
    rw [code] at tidy ⊢
    exact .inr ⟨rfl, tidy.1 task rfl⟩
  have outside := staged.callOf_eq drains
  rw [code] at scheduled
  rw [scheduled.1, staged.gathered.met_eq inside outside]

/-- A task that is about to be performed does not belong to a phase that is still to come. -/
theorem phase_le (staged : o.Staged n threads rounds phase released log) (inside : w < threads)
    (code : o.code w = .perform task :: rest) : phase (task.stageNumber n) ≤ released := by
  have scheduled := staged.scheduled w inside
  have behind := staged.gathered.met_le inside
  rw [code] at scheduled
  exact scheduled.1.2.trans (max_le (le_refl _) behind)

/-- A pending task does not belong to a phase before the last one. -/
theorem le_phase (staged : o.Staged n threads rounds phase released log)
    (member : task ∈ o.pending threads) :
    released ≤ phase (task.stageNumber n) + 1 := by
  obtain ⟨w, inside, given | queued⟩ := mem_pending_iff.1 member
  · have := (staged.scheduled w inside).le_phase given
    have := staged.gathered.le_met inside
    omega
  · exact (staged.phase_of_queued inside queued).ge.trans (Nat.le_succ _)

variable {effect : Outline} {more : List Instruction}

/-- What a worker has left is scheduled, one meeting later if a call has returned. -/
theorem scheduled_of_fires (staged : o.Staged n threads rounds phase released log) (inside : w < threads)
    (code : o.code w = instruction :: rest) (fires : o.Fires threads false w instruction more effect)
    (grow : released ≤ released') :
    ∃ done, Scheduled n rounds phase released' done (more ++ rest) ∧
      ((∃ call, instruction = .barrier call) ∨ done = o.met rounds w) := by
  have within := staged.orderly.within w instruction (by simp [code])
  have scheduled := (staged.scheduled w inside).mono grow
  rw [code] at scheduled
  cases fires with
  | perform task => exact ⟨_, scheduled.2, .inr rfl⟩
  | push task => exact ⟨_, scheduled.2, .inr rfl⟩
  | enter => exact ⟨_, scheduled, .inr rfl⟩
  | leave owner empty => exact ⟨_, scheduled, .inr rfl⟩
  | take owner task left found =>
    have current := staged.phase_of_queued within (show task ∈ o.queue owner by simp [found])
    refine ⟨_, ⟨⟨?_, ?_⟩, scheduled⟩, .inr rfl⟩
    · rw [current]
      exact staged.gathered.met_le inside
    · rw [current]
      exact grow.trans (le_max_left _ _)
  | barrier call next b moved => exact ⟨_, scheduled, .inl ⟨call, rfl⟩⟩
  | left call b returned => exact ⟨_, scheduled, .inl ⟨call, rfl⟩⟩
  | _ => exact scheduled.elim

/-- A worker opens its calls only when it has drained its queue. -/
theorem away_of_fires (staged : o.Staged n threads rounds phase released log) (inside : w < threads)
    (code : o.code w = instruction :: rest) (fires : o.Fires threads false w instruction more effect) :
    callOf (more ++ rest) ≠ .entering → ¬Drains w (more ++ rest) := by
  have scheduled := staged.scheduled w inside
  have inTurn := staged.gathered.inTurn w
  have away := staged.away w
  rw [code] at scheduled inTurn away
  cases fires with
  | barrier call next b moved =>
    rintro - (absurdity | ⟨absurdity, -⟩) <;> cases absurdity
  | left call b returned => exact fun inside => absurd inTurn.callOf_eq inside
  | take owner task left found =>
    rintro open_ (absurdity | ⟨-, drains⟩)
    · cases absurdity
    · exact away open_ drains
  | help owner behind => exact scheduled.elim
  | nextStage => exact scheduled.elim
  | _ => exact fun open_ drains => away open_ (.inr ⟨rfl, drains⟩)

/-- What is queued belongs to the phase that its owner is in: whoever returns from a call has an empty
queue. -/
theorem queued_of_fires (staged : o.Staged n threads rounds phase released log) (inside : w < threads)
    (code : o.code w = instruction :: rest) (fires : o.Fires threads false w instruction more effect)
    {u : Nat}
    (within : u < threads) (queued : task ∈ effect.queue u) :
    phase (task.stageNumber n) = o.met rounds u ∧ (u = w → ∀ call, instruction ≠ .barrier call) := by
  rcases fires.mem_queue queued with earlier | ⟨rfl, rfl⟩
  · refine ⟨staged.queued u within task earlier, ?_⟩
    rintro rfl call rfl
    have drains := staged.orderly.tended.drains u (List.ne_nil_of_mem earlier)
    rw [code] at drains
    rcases drains with absurdity | ⟨absurdity, -⟩ <;> cases absurdity
  · have scheduled := staged.scheduled u inside
    rw [code] at scheduled
    exact ⟨scheduled.1, fun _ _ absurdity => by cases absurdity⟩

theorem of_move (fits : 2 ^ m < Word.capacity)
    (staged : o.Staged (2 ^ m) threads rounds phase released log)
    (inside : w < threads) (move : o.Move threads false w instruction o')
    (earliest : ∀ task, instruction = .perform task → ∀ other ∈ o.pending threads,
      task.stageNumber (2 ^ m) ≤ other.stageNumber (2 ^ m)) :
    ∃ released', released ≤ released' ∧
      o'.Staged (2 ^ m) threads rounds phase released' (log ++ instruction.performed) := by
  have orderly := staged.orderly.of_move fits inside move fun task same i _ other member _ =>
    earliest task same other member
  obtain ⟨released', grow, gathered⟩ := staged.gathered.of_move inside move
  have added' := gathered.met_add inside
  obtain ⟨rest, more, effect, code, fires, rfl⟩ := move
  simp only [Function.update_self] at added'
  obtain ⟨done, left, still⟩ := staged.scheduled_of_fires inside code fires grow
  have total := left.done_add
  have met :
      ({ effect with code := Function.update o.code w (more ++ rest) } : Outline).met rounds w = done := by
    omega
  have others : ∀ u, u ≠ w →
      ({ effect with code := Function.update o.code w (more ++ rest) } : Outline).met rounds u =
        o.met rounds u := by
    intro u other
    rw [Gathered.met_update, Function.update_of_ne other]
  refine ⟨released', grow, orderly, gathered, fun u hu => ?_, fun u hu task queued => ?_, ?_, ?_⟩
  · by_cases same : u = w
    · subst same
      simp only [Function.update_self, met]
      exact left
    · simp only [Function.update_of_ne same, others u same]
      exact (staged.scheduled u hu).mono grow
  · obtain ⟨current, noCall⟩ := staged.queued_of_fires inside code fires hu queued
    rw [current]
    by_cases same : u = w
    · subst same
      rw [met, still.resolve_left fun ⟨call, isCall⟩ => noCall rfl call isCall]
    · rw [others u same]
  · exact (Function.forall_update_iff o.code fun u code => callOf code ≠ .entering → ¬Drains u code).2
      ⟨staged.away_of_fires inside code fires, fun u _ => staged.away u⟩
  · rw [fires.between]
    exact staged.looks

theorem of_idle (staged : o.Staged n threads rounds phase released log) (inside : w < threads)
    (idle : o.Idle w o') : o'.Staged n threads rounds phase released log := by
  have helps := staged.orderly.helps
  have orderly := staged.orderly.of_idle inside idle
  have gathered := staged.gathered.of_idle helps idle
  obtain ⟨_, _, _, _, rfl⟩ := idle
  have before : ∀ looks : List Instruction, (∀ x ∈ looks, x ∈ o.between w) →
      (∀ {done code}, Scheduled n rounds phase released done code →
        Scheduled n rounds phase released done (looks ++ code)) ∧
      ∀ {code}, ¬Drains w code → ¬Drains w (looks ++ code) := by
    intro looks
    induction looks with
    | nil => exact fun _ => ⟨fun scheduled => scheduled, fun away => away⟩
    | cons x looks ih =>
      intro all
      obtain ⟨later, aside⟩ := ih fun y h => all y (by simp [h])
      obtain ⟨owner, rfl⟩ := staged.looks w x (all x (by simp))
      obtain ⟨_, -, other, same | same⟩ := helps w (.drain owner) (all _ (by simp)) <;> cases same
      refine ⟨fun scheduled => later scheduled, fun away => ?_⟩
      rintro (own | ⟨-, drains⟩)
      · exact other (by simpa using own)
      · exact aside away drains
  obtain ⟨scheduled, away⟩ := before (o.between w) fun _ h => h
  have met :
    ({ o with code := Function.update o.code w (o.between w ++ o.code w) } : Outline).met rounds =
      o.met rounds := by
    rw [Gathered.met_update, total_append, meetings_of_incidental helps.incidental, Nat.zero_add]
    exact Function.update_eq_self w _
  refine ⟨orderly, gathered, ?_, ?_, ?_, staged.looks⟩
  · rw [met]
    exact (Function.forall_update_iff o.code fun u code => u < threads →
      Scheduled n rounds phase released (o.met rounds u) code).2
      ⟨fun inside => scheduled (staged.scheduled w inside), fun u _ => staged.scheduled u⟩
  · rw [met]
    exact staged.queued
  · refine (Function.forall_update_iff o.code fun u code => callOf code ≠ .entering → ¬Drains u code).2
      ⟨fun open_ => away (staged.away w ?_), fun u _ => staged.away u⟩
    rwa [callOf_append helps.incidental] at open_

/-- Of the workers that are not done, one does not wait for the marker to move. -/
theorem exists_free (staged : o.Staged n threads rounds phase released log)
    (busy : ∃ w < threads, o.code w ≠ []) :
    ∃ w < threads, o.code w ≠ [] ∧ callOf (o.code w) ≠ .polling o.barrier.marker := by
  obtain ⟨v, hv, free⟩ := staged.gathered.meeting.exists_free
  by_cases done : o.code v = []
  · -- whoever is done has been through all meetings, and whoever waits for the marker has one left
    obtain ⟨w, inside, undone⟩ := busy
    refine ⟨w, inside, undone, fun waits => ?_⟩
    have all : released = rounds := by
      have met := staged.gathered.met_eq hv (by rw [done]; rfl)
      rw [met.symm, Outline.met, done]
      rfl
    have met := staged.gathered.met_add inside
    have left : 0 < total meetings (o.code w) := meetings_pos_of_callOf (by simp [waits])
    have behind := (staged.gathered.meeting.marker_ne_iff inside waits).2 (by omega)
    exact behind rfl
  · exact ⟨v, hv, done, free⟩

/-- If all workers that are not done wait, then one of them can go on. -/
theorem exists_unblocked (staged : o.Staged n threads rounds phase released log)
    (busy : ∃ w < threads, o.code w ≠ []) :
    ∃ w < threads, ∃ instruction rest, o.code w = instruction :: rest ∧ ¬o.Blocked w instruction := by
  obtain ⟨w, inside, undone, free⟩ := staged.exists_free busy
  obtain ⟨instruction, rest, code⟩ := List.exists_cons_of_ne_nil undone
  refine ⟨w, inside, instruction, rest, code, fun blocked => ?_⟩
  cases blocked with
  | await unready =>
    exact (staged.scheduled w inside).await_not_mem (by rw [code]; exact List.mem_cons_self)
  | polling unchanged => exact free (by rw [code, ← unchanged]; rfl)

end Staged

end Outline

/-! ## the first state -/

/-- What the code of a worker has to look like at first. -/
structure Timetable (n threads rounds w : Nat) (phase : Nat → Nat) (done : Nat)
    (code : List Instruction) : Prop where
  within : ∀ x ∈ code, x.Within n threads
  tidy : Tidy w code
  scheduled : Scheduled n rounds phase 0 done code
  fresh : Fresh code

namespace Timetable

variable {owner : Nat}

theorem nil : Timetable n threads rounds w phase rounds [] where
  within := by simp
  tidy := trivial
  scheduled := rfl
  fresh := by simp [Fresh]

/-- An instruction in front that is no call. -/
theorem cons {x : Instruction} (table : Timetable n threads rounds w phase done code)
    (opens : x.closes = false)
    (within : x.Within n threads) (tidy : ∀ task, x = .push task → Drains w code)
    (scheduled : Scheduled n rounds phase 0 done (x :: code)) :
    Timetable n threads rounds w phase done (x :: code) where
  within := List.forall_mem_cons.2 ⟨within, table.within⟩
  tidy := ⟨tidy, table.tidy⟩
  scheduled := scheduled
  fresh := by
    intro call member
    rcases List.mem_cons.1 member with rfl | later
    · cases opens
    · exact table.fresh call later

theorem enter (table : Timetable n threads rounds w phase done code) :
    Timetable n threads rounds w phase done (.enter :: code) :=
  table.cons rfl trivial (by simp) table.scheduled

theorem drain (table : Timetable n threads rounds w phase done code) (inside : owner < threads) :
    Timetable n threads rounds w phase done (.drain owner :: code) :=
  table.cons rfl inside (by simp) table.scheduled

theorem meet (table : Timetable n threads rounds w phase (done + 1) code) :
    Timetable n threads rounds w phase done (.meet :: code) where
  within := List.forall_mem_cons.2 ⟨trivial, table.within⟩
  tidy := ⟨by simp, table.tidy⟩
  scheduled := table.scheduled
  fresh := by
    intro call member
    rcases List.mem_cons.1 member with same | later
    · cases same
      rfl
    · exact table.fresh call later

theorem perform (table : Timetable n threads rounds w phase done code)
    (current : phase (task.stageNumber n) = done)
    (inside : ∀ i ∈ task.touched, i < n) :
    Timetable n threads rounds w phase done (.perform task :: code) :=
  table.cons rfl inside (by simp) ⟨⟨current.ge, current.le.trans (le_max_right _ _)⟩, table.scheduled⟩

theorem push (table : Timetable n threads rounds w phase done code) (drains : Drains w code)
    (current : phase (task.stageNumber n) = done) (inside : ∀ i ∈ task.touched, i < n) :
    Timetable n threads rounds w phase done (.push task :: code) :=
  table.cons rfl inside (fun _ _ => drains) ⟨current, table.scheduled⟩

end Timetable

/-- A sort whose workers all have timetables starts as a staged run. -/
theorem staged_outline {routine : Routine} {kind : BarrierKind} (divides : threads ∣ n)
    (some_ : 0 < threads)
    (tables : ∀ w < threads, Timetable n threads rounds w phase 0
      (routine.code (shareOf threads n w) (peersOf threads w) (stages n)))
    (looks : ∀ peers, ∀ x ∈ routine.between peers, ∃ owner ∈ peers, x = .drain owner)
    (given : ∀ share peers stages, planned (routine.code share peers stages) = shareTasks share stages) :
    (routine.outline threads n kind).Staged n threads rounds phase 0 [] := by
  have fresh : ∀ w, Fresh ((routine.outline threads n kind).code w) :=
    Routine.forall_code (P := fun _ code => Fresh code) (by simp [Fresh]) fun w inside =>
      (tables w inside).fresh
  have scheduled : ∀ w < threads,
    Scheduled n rounds phase 0 0 ((routine.outline threads n kind).code w) := by
    intro w inside
    simp only [Routine.outline, if_pos inside]
    exact (tables w inside).scheduled
  have total_eq : ∀ w < threads, total meetings ((routine.outline threads n kind).code w) = rounds := by
    intro w inside
    have := (scheduled w inside).done_add
    omega
  have met : ∀ w < threads, (routine.outline threads n kind).met rounds w = 0 := by
    intro w inside
    rw [Outline.met, total_eq w inside, Nat.sub_self]
  have calls : (fun w => callOf ((routine.outline threads n kind).code w)) = fun _ => .entering :=
    funext fun w => (fresh w).callOf_eq
  constructor
  · refine Routine.orderly_outline divides (fun w inside => (tables w inside).within)
      (fun w inside => (tables w inside).tidy) (fun peers x member => ?_) given
    obtain ⟨owner, isPeer, same⟩ := looks peers x member
    exact ⟨owner, isPeer, .inl same⟩
  · refine ⟨fun w => (fresh w).inTurn, fun w inside => (total_eq w inside).le, ?_⟩
    rw [calls]
    exact ⟨fun w inside => met w inside, (Barrier.meeting_start kind 0 some_).phase⟩
  · intro w inside
    rw [met w inside]
    exact scheduled w inside
  · intro w _ task queued
    cases queued
  · exact fun w inside => absurd (fresh w).callOf_eq inside
  · intro w x member
    simp only [Routine.outline] at member
    split at member
    · obtain ⟨owner, -, same⟩ := looks _ x member
      exact ⟨owner, same⟩
    · cases member

/-- Workers that have timetables all make the same number of calls to the barrier: what a worker has made
and what it has left to make are `rounds`. -/
theorem count_meet_of_timetables {α : Type} {routine : Routine} {order : ElementOrder α}
    {kind : BarrierKind} {segments : Segments α} {past : List Deed} {s : State α}
    (tables : ∀ w < threads, Timetable n threads rounds w phase 0
      (routine.code (shareOf threads n w) (peersOf threads w) (stages n)))
    (helps : (routine.outline threads n kind).Helps threads)
    (history : History (routine.machine order threads) (routine.firstState threads n kind segments) past s)
    (inside : w < threads) : past.count ⟨w, .meet⟩ + (s.outline.code w).count .meet = rounds := by
  have table := tables w inside
  have first : (routine.firstState threads n kind segments).outline = routine.outline threads n kind :=
    Routine.outline_firstState ..
  have all := table.scheduled.done_add
  rw [history.count_meet (first ▸ helps), first]
  simp only [Routine.outline, if_pos inside, table.fresh.count_meet]
  omega

end SortNetwork.Parallel
