import Mathlib
import SortNetwork.Proofs.Scratch
import SortNetwork.Scratch.Session

/-!
# SortNetwork.Proofs.Scratch.Session

A session does what the actions of a worker say.

A session keeps its guards under names and may drop any of them.  Here it gives each guard a name that no other
live guard has and drops the one it obtained last.  Then its worker and its buffers are a `Standing`
(`Shows`), operation by operation, and it answers what the standing says (`Shows.run`).
-/

namespace SortNetwork.Scratch

variable {n : Nat}

/-! ## guards by name -/

namespace Worker

variable {worker : Worker} {name : String} {guard : WorkerGuard} {outer : List (String × WorkerGuard)}

theorem guard?_of_notMem (unused : name ∉ worker.guards.map Prod.fst) : worker.guard? name = none := by
  simp only [guard?, Option.map_eq_none_iff, List.find?_eq_none, beq_iff_eq]
  rintro kept member rfl
  exact unused (List.mem_map_of_mem member)

theorem keep_of_notMem (unused : name ∉ worker.guards.map Prod.fst) (guard : WorkerGuard)
    (registered : Registration) :
    worker.keep name guard registered = ⟨registered, (name, guard) :: worker.guards⟩ := by
  have none : ({ worker with registered } : Worker).guard? name = none := guard?_of_notMem unused
  simp [keep, drop, none]

theorem guard?_of_innermost (innermost : worker.guards = (name, guard) :: outer) :
    worker.guard? name = some guard := by
  simp [guard?, innermost]

theorem drop_of_innermost (innermost : worker.guards = (name, guard) :: outer)
    (distinct : (worker.guards.map Prod.fst).Nodup) : worker.drop name = ⟨guard.previous, outer⟩ := by
  rw [innermost, List.map_cons, List.nodup_cons] at distinct
  have others : outer.filter (·.1 != name) = outer := by
    simp only [List.filter_eq_self, bne_iff_ne]
    rintro kept member rfl
    exact distinct.1 (List.mem_map.2 ⟨kept, member, rfl⟩)
  simp [drop, guard?_of_innermost innermost, innermost, others]

end Worker

/-! ## operations -/

namespace Operation

/-- The session after an operation, whether it faulted or not. -/
def after (operation : Operation) (session : Session) : Session :=
  match operation.perform session with
  | .ok _ after | .error _ after => after

/-- What an operation answers. -/
def answer (operation : Operation) (session : Session) : Except Fault Answer :=
  match operation.perform session with
  | .ok answer _ => .ok answer
  | .error fault _ => .error fault

theorem run_cons (operation : Operation) (operations : List Operation) (session : Session) :
    session.run (operation :: operations) =
      operation.answer session :: (operation.after session).run operations := by
  rw [Session.run, answer, after]
  cases operation.perform session <;> rfl

end Operation

/-- What a session answers that does what the action says. -/
def Standing.answer (standing : Standing fun _ : Fin n => Int) : Action (fun _ : Fin n => Int) → Except Fault Answer
  | .enter object worker => if worker < standing.size object then .ok .entered else .error .workerOutOfRange
  | .leave => .ok (.dropped true)
  | .use object task => .ok (.used (task ((standing.objects object).contents standing.registered)) [])

/-- What a session answers, one by one, that does what the actions say. -/
def Standing.answers : (Standing fun _ : Fin n => Int) → List (Action fun _ : Fin n => Int) →
    List (Except Fault Answer)
  | _, [] => []
  | standing, action :: actions => standing.answer action :: answers (standing.act action) actions

/-- An operation that says the same as an action, in a session that keeps guards under names. -/
inductive Spells (session : Session) : Action (fun _ : Fin n => Int) → Operation → Prop where
  | enter (object : Fin n) (worker : Nat) {name : String} (unused : name ∉ session.worker.guards.map Prod.fst) :
      Spells session (.enter object worker) (.enter object worker name)
  | leave {name : String} {guard : WorkerGuard} {outer : List (String × WorkerGuard)}
      (innermost : session.worker.guards = (name, guard) :: outer) : Spells session .leave (.drop name)
  | use (object : Fin n) (clear : Bool) (items : List Int) :
      Spells session (.use object fun held => (if clear then [] else held) ++ items)
        (.use object clear items false [])

/-- Operations that say the same as actions, one by one. -/
inductive Spelt : Session → List (Action fun _ : Fin n => Int) → List Operation → Prop where
  | nil {session : Session} : Spelt session [] []
  | cons {session : Session} {action : Action fun _ : Fin n => Int} {operation : Operation}
      {actions : List (Action fun _ : Fin n => Int)} {operations : List Operation}
      (spells : Spells session action operation) (next : Spelt (operation.after session) actions operations) :
      Spelt session (action :: actions) (operation :: operations)

/-- A session stands as a standing says. -/
structure Shows (session : Session) (standing : Standing fun _ : Fin n => Int) : Prop where
  registered : session.worker.registered = standing.registered
  guards : session.worker.guards.map Prod.snd = standing.scopes.map Scope.guard
  distinct : (session.worker.guards.map Prod.fst).Nodup
  objects : session.objects = Array.ofFn standing.objects

/-- An array of values that holds another value in one place. -/
theorem setIfInBounds_ofFn {α : Type} (f : Fin n → α) (i : Fin n) (x : α) :
    (Array.ofFn f).setIfInBounds i x = Array.ofFn (Function.update f i x) := by
  refine Array.ext (by simp) fun j inside _ => ?_
  rw [Array.getElem_setIfInBounds (by simpa using inside), Array.getElem_ofFn, Array.getElem_ofFn,
    Function.update_apply]
  simp [Fin.ext_iff, eq_comm]

namespace Shows

variable {session : Session} {standing : Standing fun _ : Fin n => Int}
  {action : Action fun _ : Fin n => Int} {operation : Operation}

theorem start (objects : List (Scratch Int)) :
    Shows (Session.start objects) (Standing.start none fun object : Fin objects.length => objects[object]) :=
  ⟨rfl, rfl, .nil, Array.ext (by simp [Session.start]) (by simp [Session.start, Standing.start])⟩

theorem getElem?_objects (shows : Shows session standing) (object : Fin n) :
    session.objects[(object : Nat)]? = some (standing.objects object) := by
  simp [shows.objects]

/-- An operation that says the same as an action does the same, and answers accordingly. -/
theorem perform (shows : Shows session standing) (spells : Spells session action operation) :
    operation.answer session = standing.answer action ∧ Shows (operation.after session) (standing.act action) := by
  cases spells with
  | @enter object worker name unused =>
    by_cases inside : worker < standing.size object
    · have entered : (standing.objects object).enter worker session.worker.registered =
          .ok (⟨session.worker.registered⟩, some worker) := if_pos inside
      simp only [Operation.answer, Operation.after, Operation.perform, shows.getElem?_objects, entered,
        Worker.keep_of_notMem unused, Standing.answer, if_pos inside, Standing.act_enter inside]
      refine ⟨trivial, rfl, ?_, ?_, shows.objects⟩
      · simp [shows.guards, shows.registered]
      · exact List.nodup_cons.2 ⟨unused, shows.distinct⟩
    · have refused : (standing.objects object).enter worker session.worker.registered =
          .error .workerOutOfRange := if_neg inside
      simp only [Operation.answer, Operation.after, Operation.perform, shows.getElem?_objects, refused,
        Standing.answer, if_neg inside, Standing.act_enter_of_not_lt inside]
      exact ⟨trivial, shows⟩
  | @leave name guard outer innermost =>
    have guards := shows.guards
    rw [innermost, List.map_cons] at guards
    obtain ⟨scope, scopes, live, rfl, others⟩ := List.map_eq_cons_iff.1 guards.symm
    have distinct := shows.distinct
    rw [innermost, List.map_cons, List.nodup_cons] at distinct
    simp only [Operation.answer, Operation.after, Operation.perform, Worker.guard?_of_innermost innermost,
      Worker.drop_of_innermost innermost shows.distinct, Standing.answer, Standing.act_leave live]
    exact ⟨rfl, rfl, others.symm, distinct.2, shows.objects⟩
  | use object clear items =>
    let held := (if clear then [] else (standing.objects object).contents standing.registered) ++ items
    have used : (Operation.use object clear items false []).perform session = .ok (.used held [])
        { session with
          objects :=
            session.objects.setIfInBounds object ((standing.objects object).store standing.registered held) } := by
      simp only [Operation.perform, shows.getElem?_objects, ← shows.registered, held]
      rfl
    simp only [Operation.answer, Operation.after, used, Standing.answer, Standing.act]
    refine ⟨rfl, shows.registered, shows.guards, shows.distinct, ?_⟩
    rw [shows.objects, setIfInBounds_ofFn]

/-- Operations that say the same as actions answer, one by one, what the actions lead to. -/
theorem run (shows : Shows session standing) {actions : List (Action fun _ : Fin n => Int)}
    {operations : List Operation} (spelt : Spelt session actions operations) :
    session.run operations = standing.answers actions ∧
      Shows (operations.foldl (fun session operation => operation.after session) session)
        (standing.perform actions) := by
  induction spelt generalizing standing with
  | nil => exact ⟨rfl, shows⟩
  | cons spells next ih =>
    obtain ⟨answered, shows⟩ := shows.perform spells
    obtain ⟨answers, shows⟩ := ih shows
    exact ⟨by rw [Operation.run_cons, answered, answers, Standing.answers], shows⟩

end Shows

end SortNetwork.Scratch
