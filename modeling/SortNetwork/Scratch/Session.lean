import SortNetwork.Scratch

/-!
# SortNetwork.Scratch.Session

Workers that enter and leave several sorts and use their buffers in between.

A session is a list of operations on a fixed choice of buffers.  Guards are kept under names.  A use of a
buffer may contain further operations, which happen while the buffer is borrowed, and may take place on
a worker of its own that starts without any registration and keeps none of its guards.

A fault ends the operation of the session in which it happens, however deep inside.  What had happened until
then stays: items that were appended, guards that were made and guards that were dropped.

* `perform_use_elsewhere`: what happens on a worker of its own leaves the worker of the session as it was.
-/

namespace SortNetwork.Scratch

/-- An operation of a session. -/
inductive Operation where
  /-- registers a worker and keeps the guard under a name -/
  | enter (object worker : Nat) (guard : String)
  /-- drops the guard of that name -/
  | drop (guard : String)
  /-- borrows a buffer, perhaps empties it, appends `items`, and performs `inner` meanwhile -/
  | use (object : Nat) (clear : Bool) (items : List Int) (elsewhere : Bool) (inner : List Operation)

/-- What an operation answers. -/
inductive Answer where
  | entered
  /-- whether there was a guard to drop -/
  | dropped (found : Bool)
  /-- what the buffer held, and what the operations inside answered -/
  | used (contents : List Int) (inner : List Answer)

/-- The registration of a worker and the guards it keeps, by name. -/
structure Worker where
  registered : Registration
  guards : List (String × WorkerGuard)

/-- A worker that has entered nothing. -/
def Worker.outside : Worker := ⟨none, []⟩

/-- The guard kept under a name. -/
def Worker.guard? (worker : Worker) (name : String) : Option WorkerGuard :=
  (worker.guards.find? (·.1 == name)).map (·.2)

/-- Drops the guard kept under a name: the registration it holds comes back. -/
def Worker.drop (worker : Worker) (name : String) : Worker :=
  match worker.guard? name with
  | some guard => ⟨guard.previous, worker.guards.filter (·.1 != name)⟩
  | none => worker

/-- Keeps a new guard under a name.  A guard that had the name is dropped after the new one was made. -/
def Worker.keep (worker : Worker) (name : String) (guard : WorkerGuard) (registered : Registration) :
    Worker :=
  let entered := { worker with registered }.drop name
  { entered with guards := (name, guard) :: entered.guards }

/-- A worker and the buffers that it can enter and borrow. -/
structure Session where
  worker : Worker
  objects : Array (Scratch Int)

/-- A session on these buffers, begun by a worker that has entered nothing. -/
def Session.start (objects : List (Scratch Int)) : Session := ⟨.outside, objects.toArray⟩

/-- The session at the end of a use that took place elsewhere or not: the worker of a use that took place
elsewhere is gone. -/
def Session.rejoin (before after : Session) (elsewhere : Bool) : Session :=
  if elsewhere then { after with worker := before.worker } else after

namespace Operation

mutual

/-- Performs one operation with all operations inside it. -/
def perform : Operation → EStateM Fault Session Answer
  | .enter object index name => fun session =>
    match session.objects[object]? with
    | none => .error (.indexOutOfBounds session.objects.size object) session
    | some scratch =>
      match scratch.enter index session.worker.registered with
      | .error fault => .error fault session
      | .ok (guard, registered) =>
        .ok .entered { session with worker := session.worker.keep name guard registered }
  | .drop name => fun session =>
    .ok (.dropped (session.worker.guard? name).isSome)
      { session with worker := session.worker.drop name }
  | .use object clear items elsewhere inner => fun session =>
    match session.objects[object]? with
    | none => .error (.indexOutOfBounds session.objects.size object) session
    | some scratch =>
      let borrower := if elsewhere then Worker.outside else session.worker
      let found := if clear then [] else scratch.contents borrower.registered
      let contents := found ++ items
      let filled := session.objects.setIfInBounds object (scratch.store borrower.registered contents)
      match performEach inner ⟨borrower, filled⟩ with
      | .ok answers after => .ok (.used contents answers) (session.rejoin after elsewhere)
      | .error fault after => .error fault (session.rejoin after elsewhere)

/-- Performs operations one after the other, up to the first that faults. -/
def performEach : List Operation → EStateM Fault Session (List Answer)
  | [] => return []
  | operation :: operations => do
    let answer ← operation.perform
    let answers ← performEach operations
    return answer :: answers

end

/-- What happens on a worker of its own leaves the worker of the session as it was. -/
theorem perform_use_elsewhere (object : Nat) (clear : Bool) (items : List Int) (inner : List Operation)
    (session : Session) :
    match (use object clear items true inner).perform session with
    | .ok _ after => after.worker = session.worker
    | .error _ after => after.worker = session.worker := by
  simp only [perform]
  cases session.objects[object]? with
  | none => rfl
  | some scratch =>
    dsimp only
    split <;> rename_i h <;> split at h <;> cases h <;> rfl

end Operation

/-- Performs the operations of a session one after the other.  One that faults answers with its fault and
does not keep the next from being performed. -/
def Session.run (session : Session) : List Operation → List (Except Fault Answer)
  | [] => []
  | operation :: operations =>
    match operation.perform session with
    | .ok answer after => .ok answer :: after.run operations
    | .error fault after => .error fault :: after.run operations

end SortNetwork.Scratch
