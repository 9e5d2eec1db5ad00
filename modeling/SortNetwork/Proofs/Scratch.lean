import Mathlib
import SortNetwork.Scratch

/-!
# SortNetwork.Proofs.Scratch

A worker that takes part in several sorts, one inside another, and uses their buffers in between.

The worker has one registration for all sorts, and a guard holds what was registered before, whatever sort
it was obtained from.  `Standing` is what there is at some point: the registration, the live guards with the
innermost first, and the buffers of all sorts.  Guards are dropped in the reverse of the order in which they
were obtained, so an `Action` that drops one need not say which.  A session that keeps its guards under names
and drops them so does the same (`Proofs.Scratch.Session`).

* `WellNested.registered_perform`: what is done inside a sort leaves the registration as it was.
* `registration_stacks`: what leaving restores, and which buffer a use inside a sort finds and changes.
* `registration_selects`: of the sort that a guard was obtained from only the number matters.
-/

namespace SortNetwork.Scratch

/-! ## one buffer of many -/

section Slots

variable {α : Type} {scratch : Scratch α} {registered : Registration}

/-- The number of the buffer that a worker's tasks use, if there is one. -/
def slotNumber? (scratch : Scratch α) (registered : Registration) : Option Nat :=
  (scratch.slot? registered).map Fin.val

theorem slotNumber?_none : scratch.slotNumber? none = none := rfl

theorem slotNumber?_some (worker : Nat) :
    scratch.slotNumber? (some worker) = if worker < scratch.buffers.size then some worker else none := by
  simp only [slotNumber?, slot?]
  split <;> rfl

/-- Without a buffer of its own a task gets a fresh one, and all buffers stay as they are. -/
theorem fresh_of_slotNumber? (outside : scratch.slotNumber? registered = none) :
    scratch.contents registered = [] ∧ ∀ after, scratch.store registered after = scratch := by
  have none : scratch.slot? registered = none := Option.map_eq_none_iff.1 outside
  simp [contents, store, none]

/-- With a buffer of its own a task finds what that buffer holds. -/
theorem getElem?_buffers_of_slotNumber? {slot : Nat} (own : scratch.slotNumber? registered = some slot) :
    scratch.buffers[slot]? = some (scratch.contents registered) := by
  obtain ⟨place, found, rfl⟩ := Option.map_eq_some_iff.1 own
  simp [contents, found]

/-- A task changes no buffer but its own. -/
theorem getElem?_buffers_store (after : List α) (slot : Nat) :
    (scratch.store registered after).buffers[slot]? =
      if scratch.slotNumber? registered = some slot then some after else scratch.buffers[slot]? := by
  unfold store slotNumber?
  cases scratch.slot? registered with
  | none => simp
  | some place => simp [Array.getElem?_set]

@[simp] theorem size_store (after : List α) :
    (scratch.store registered after).buffers.size = scratch.buffers.size := by
  unfold store
  split <;> simp

end Slots

/-! ## what a worker does -/

variable {ι : Type} {τ : ι → Type}

/-- What a worker does with the buffers of sorts, each with elements of its own type. -/
inductive Action (τ : ι → Type) where
  /-- registers with a sort -/
  | enter (object : ι) (worker : Nat)
  /-- drops the guard obtained last -/
  | leave
  /-- borrows a buffer of a sort for a task, which leaves something in place of what it finds -/
  | use (object : ι) (task : List (τ object) → List (τ object))

/-- A guard that is live, and what was entered to obtain it. -/
structure Scope (ι : Type) where
  object : ι
  worker : Nat
  guard : WorkerGuard

/-- What is registered, which guards are live, and what the buffers of all sorts hold. -/
structure Standing (τ : ι → Type) where
  registered : Registration
  scopes : List (Scope ι)
  objects : (object : ι) → Scratch (τ object)

namespace Standing

/-- A worker with this registration and no live guard. -/
def start (registered : Registration) (objects : (object : ι) → Scratch (τ object)) : Standing τ :=
  ⟨registered, [], objects⟩

/-- How many buffers a sort has. -/
def size (standing : Standing τ) (object : ι) : Nat := (standing.objects object).buffers.size

/-- What a buffer holds. -/
def slot (standing : Standing τ) (object : ι) (number : Nat) : Option (List (τ object)) :=
  (standing.objects object).buffers[number]?

variable [DecidableEq ι]

/-- Performs an action.  A worker that cannot enter does nothing. -/
def act (standing : Standing τ) : Action τ → Standing τ
  | .enter object worker =>
    match (standing.objects object).enter worker standing.registered with
    | .ok (guard, registered) =>
      { standing with registered, scopes := ⟨object, worker, guard⟩ :: standing.scopes }
    | .error _ => standing
  | .leave =>
    match standing.scopes with
    | [] => standing
    | scope :: outer => { standing with registered := scope.guard.previous, scopes := outer }
  | .use object task =>
    let scratch := standing.objects object
    let after := task (scratch.contents standing.registered)
    { standing with
      objects := Function.update standing.objects object (scratch.store standing.registered after) }

/-- Performs actions one after the other. -/
def perform (standing : Standing τ) (actions : List (Action τ)) : Standing τ := actions.foldl act standing

/-- The task that an action performs on a buffer, if it performs one there. -/
def taskOn? (object : ι) (number : Nat) (standing : Standing τ) :
    Action τ → Option (List (τ object) → List (τ object))
  | .use other task =>
    if same : other = object then
      if (standing.objects other).slotNumber? standing.registered = some number then some (same ▸ task)
      else none
    else none
  | _ => none

/-- The tasks that actions perform on a buffer, in order. -/
def tasksOn (object : ι) (number : Nat) :
    Standing τ → List (Action τ) → List (List (τ object) → List (τ object))
  | _, [] => []
  | standing, action :: actions =>
    (standing.taskOn? object number action).toList ++ tasksOn object number (standing.act action) actions

variable {standing : Standing τ} {object : ι} {worker number : Nat}

/-! ## single actions -/

theorem act_enter (inside : worker < standing.size object) :
    standing.act (.enter object worker) =
      { standing with
        registered := some worker
        scopes := ⟨object, worker, ⟨standing.registered⟩⟩ :: standing.scopes } := by
  rw [size] at inside
  simp [act, enter, inside]

theorem act_enter_of_not_lt (outside : ¬worker < standing.size object) :
    standing.act (.enter object worker) = standing := by
  rw [size] at outside
  simp [act, enter, outside]

theorem act_leave {scope : Scope ι} {outer : List (Scope ι)} (innermost : standing.scopes = scope :: outer) :
    standing.act .leave = { standing with registered := scope.guard.previous, scopes := outer } := by
  simp [act, innermost]

theorem objects_act_enter (object : ι) (worker : Nat) :
    (standing.act (.enter object worker)).objects = standing.objects := by
  simp only [act]
  split <;> rfl

theorem objects_act_leave : (standing.act .leave).objects = standing.objects := by
  simp only [act]
  split <;> rfl

/-- The number of buffers of a sort never changes. -/
@[simp] theorem size_act (action : Action τ) : (standing.act action).size = standing.size := by
  funext object
  cases action with
  | enter other worker => rw [size, objects_act_enter, size]
  | leave => rw [size, objects_act_leave, size]
  | use other task =>
    by_cases same : other = object
    · subst same
      simp [act, size]
    · simp [act, size, Function.update_of_ne (Ne.symm same)]

/-- An action makes of a buffer what the task makes of it that the action performs there. -/
theorem slot_act (action : Action τ) :
    (standing.act action).slot object number =
      (standing.slot object number).map fun held =>
        (standing.taskOn? object number action).elim held (· held) := by
  cases action with
  | enter other worker => simp [slot, objects_act_enter, taskOn?]
  | leave => simp [slot, objects_act_leave, taskOn?]
  | use other task =>
    by_cases same : other = object
    · subst same
      simp only [slot, act, Function.update_self, getElem?_buffers_store, taskOn?, dite_true]
      split
      · next own => simp [getElem?_buffers_of_slotNumber? own]
      · simp
    · simp [slot, act, Function.update_of_ne (Ne.symm same), taskOn?, same]

/-! ## many actions -/

@[simp] theorem perform_nil : standing.perform [] = standing := rfl

@[simp] theorem perform_cons (action : Action τ) (actions : List (Action τ)) :
    standing.perform (action :: actions) = (standing.act action).perform actions := rfl

theorem perform_append (actions more : List (Action τ)) :
    standing.perform (actions ++ more) = (standing.perform actions).perform more :=
  List.foldl_append

@[simp] theorem size_perform (actions : List (Action τ)) (standing : Standing τ) :
    (standing.perform actions).size = standing.size := by
  induction actions generalizing standing with
  | nil => rfl
  | cons action actions ih => exact (ih (standing.act action)).trans (size_act action)

variable (object number) in
/-- Every task finds in a buffer what the task before it has left there. -/
theorem slot_perform (actions : List (Action τ)) (standing : Standing τ) :
    (standing.perform actions).slot object number =
      (standing.slot object number).map fun first =>
        (standing.tasksOn object number actions).foldl (fun held task => task held) first := by
  induction actions generalizing standing with
  | nil => simp [tasksOn]
  | cons action actions ih =>
    rw [perform_cons, ih, slot_act, Option.map_map]
    congr 1
    funext first
    rw [tasksOn, List.foldl_append]
    cases standing.taskOn? object number action <;> rfl

/-- A task that has the buffer with this number finds what it holds, and changes no other. -/
theorem use_of_slotNumber? (own : (standing.objects object).slotNumber? standing.registered = some number)
    (task : List (τ object) → List (τ object)) :
    standing.slot object number = some ((standing.objects object).contents standing.registered) ∧
    (standing.act (.use object task)).slot object number =
      some (task ((standing.objects object).contents standing.registered)) ∧
    ∀ other slot, other ≠ object ∨ slot ≠ number →
      (standing.act (.use object task)).slot other slot = standing.slot other slot := by
  have here := getElem?_buffers_of_slotNumber? own
  refine ⟨here, ?_, fun other slot elsewhere => ?_⟩
  · rw [slot_act, slot, here]
    simp [taskOn?, own]
  · have : standing.taskOn? other slot (.use object task) = none := by
      by_cases same : object = other
      · subst same
        have : number ≠ slot := by
          rintro rfl
          exact elsewhere.elim (· rfl) (· rfl)
        simp [taskOn?, own, this]
      · simp [taskOn?, same]
    simp [slot_act, this]

/-- Whether a use would get a fresh buffer and leave all buffers alone. -/
def Fresh (standing : Standing τ) (object : ι) : Prop :=
  (standing.objects object).contents standing.registered = [] ∧
    ∀ task, standing.act (.use object task) = standing

theorem fresh_of_slotNumber? (outside : (standing.objects object).slotNumber? standing.registered = none) :
    standing.Fresh object := by
  obtain ⟨empty, unchanged⟩ := Scratch.fresh_of_slotNumber? outside
  exact ⟨empty, fun task => by simp [act, unchanged]⟩

end Standing

/-! ## scopes that are closed again -/

variable [DecidableEq ι]

/-- Actions that drop every guard which they obtain, and no other.  Entering fails with a number for which the
sort has no buffer, and then there is no guard to drop. -/
inductive WellNested (size : ι → Nat) : List (Action τ) → Prop where
  | nil : WellNested size []
  | use {object : ι} {task : List (τ object) → List (τ object)} {rest : List (Action τ)}
      (next : WellNested size rest) : WellNested size (.use object task :: rest)
  | refused {object : ι} {worker : Nat} {rest : List (Action τ)} (outside : ¬worker < size object)
      (next : WellNested size rest) : WellNested size (.enter object worker :: rest)
  | scope {object : ι} {worker : Nat} {body rest : List (Action τ)} (inside : worker < size object)
      (within : WellNested size body) (next : WellNested size rest) :
      WellNested size (.enter object worker :: body ++ .leave :: rest)

open Standing

/-- Actions that close what they open leave the registration, and the live guards, as they were. -/
theorem WellNested.registered_perform {size : ι → Nat} {actions : List (Action τ)}
    (nested : WellNested size actions) {standing : Standing τ} (sizes : standing.size = size) :
    (standing.perform actions).registered = standing.registered ∧
      (standing.perform actions).scopes = standing.scopes := by
  induction nested generalizing standing with
  | nil => exact ⟨rfl, rfl⟩
  | use next ih => exact ih ((size_act _).trans sizes)
  | refused outside next ih =>
    rw [← sizes] at outside
    rw [perform_cons, act_enter_of_not_lt outside]
    exact ih sizes
  | @scope object worker body rest inside within next ihBody ihRest =>
    rw [← sizes] at inside
    obtain ⟨-, scopes⟩ := ihBody ((size_act (.enter object worker)).trans sizes)
    rw [act_enter inside] at scopes
    rw [perform_append, perform_cons, perform_cons, act_enter inside, act_leave scopes]
    exact ihRest ((size_perform _ _).trans sizes)

/-- Inside a sort the worker is registered with its number, and the guard holds what was registered outside. -/
theorem WellNested.inside {outside : Standing τ} {object : ι} {worker : Nat} {body : List (Action τ)}
    (nested : WellNested outside.size body) (inside : worker < outside.size object) :
    (outside.perform (.enter object worker :: body)).registered = some worker ∧
      (outside.perform (.enter object worker :: body)).scopes =
        ⟨object, worker, ⟨outside.registered⟩⟩ :: outside.scopes := by
  have kept := nested.registered_perform (size_act (.enter object worker))
  rw [act_enter inside] at kept
  rw [perform_cons, act_enter inside]
  exact kept

/-- Whatever a worker did `before`, with whatever registration it began, and whatever it does inside a sort that
it enters, sorts inside that sort included: when it leaves the sort, the registration is the one with which
it entered.  Until then its uses of the sort's buffers go to the one with the number it entered with.  A use
finds what all tasks that had this buffer made of it, one after the other, and changes this buffer alone.  A
worker that cannot enter is left as it was. -/
theorem registration_stacks (registered : Registration) (objects : (object : ι) → Scratch (τ object))
    (before body : List (Action τ)) (object : ι) (worker : Nat)
    (nested : WellNested (fun object => (objects object).buffers.size) body) :
    let outside := (start registered objects).perform before
    let inside := outside.perform (.enter object worker :: body)
    (¬worker < (objects object).buffers.size →
      (outside.objects object).enter worker outside.registered = .error .workerOutOfRange ∧
        outside.act (.enter object worker) = outside) ∧
    (worker < (objects object).buffers.size →
      (inside.act .leave).registered = outside.registered ∧ (inside.act .leave).scopes = outside.scopes ∧
      ∃ first, (objects object).buffers[worker]? = some first ∧
        let tasks := (start registered objects).tasksOn object worker (before ++ .enter object worker :: body)
        let held := tasks.foldl (fun held task => task held) first
        (inside.objects object).contents inside.registered = held ∧
        ∀ task, (inside.act (.use object task)).slot object worker = some (task held) ∧
          ∀ other number, other ≠ object ∨ number ≠ worker →
            (inside.act (.use object task)).slot other number = inside.slot other number) := by
  intro outside inside
  have sizes : outside.size = fun object => (objects object).buffers.size := size_perform ..
  constructor
  · intro beyond
    have beyond : ¬worker < outside.size object := by rwa [sizes]
    exact ⟨if_neg beyond, act_enter_of_not_lt beyond⟩
  · intro fits
    have fits' : worker < outside.size object := by rwa [sizes]
    obtain ⟨number, scopes⟩ := WellNested.inside (sizes ▸ nested) fits'
    have left := act_leave scopes
    have own : (inside.objects object).slotNumber? inside.registered = some worker := by
      have size : (inside.objects object).buffers.size = (objects object).buffers.size :=
        congrFun ((size_perform ..).trans sizes) object
      rw [number, slotNumber?_some, size, if_pos fits]
    have found : inside.slot object worker = some ((inside.objects object).contents inside.registered) :=
      getElem?_buffers_of_slotNumber? own
    have whole : inside = (start registered objects).perform (before ++ .enter object worker :: body) :=
      (perform_append ..).symm
    refine ⟨by rw [left], by rw [left], (objects object).buffers[worker], Array.getElem?_eq_getElem fits, ?_⟩
    have held :=
      slot_perform object worker (before ++ .enter object worker :: body) (start registered objects)
    rw [← whole, found, slot, start, Array.getElem?_eq_getElem fits, Option.map_some, Option.some.injEq] at held
    refine ⟨held, fun task => ?_⟩
    obtain ⟨-, after, others⟩ := use_of_slotNumber? own task
    exact ⟨by rw [after, held]; rfl, others⟩

/-- A worker with a registration from elsewhere enters one sort as its second worker and inside it another
sort as its first, fails to enter there as a third, and enters the outer sort once more and leaves it. -/
theorem registration_stacks_two_sorts :
    let objects : Bool → Scratch Nat := fun _ => ⟨#[[], []]⟩
    let before : List (Action fun _ : Bool => Nat) := [.enter false 1, .use false (· ++ [3])]
    let body : List (Action fun _ : Bool => Nat) :=
      [.use true (· ++ [7]), .enter true 2, .enter false 0, .use true (· ++ [8]), .leave]
    let outside := (start (some 5) objects).perform before
    let inside := outside.perform (.enter true 0 :: body)
    WellNested (fun object => (objects object).buffers.size) body ∧ 0 < (objects true).buffers.size ∧
    outside.registered = some 1 ∧ (inside.act .leave).registered = some 1 ∧
    (inside.objects true).contents inside.registered = [7, 8] ∧
    (inside.act (.use true List.reverse)).slot true 0 = some [8, 7] ∧
    (inside.act (.use true List.reverse)).slot false 1 = some [3] := by
  intro objects before body outside inside
  have scope : WellNested (fun object => (objects object).buffers.size)
      (.enter false 0 :: ([.use true (· ++ [8])] : List (Action fun _ : Bool => Nat)) ++ .leave :: []) :=
    .scope (by decide) (.use .nil) .nil
  have nested : WellNested (fun object => (objects object).buffers.size) body :=
    .use (.refused (by decide) scope)
  obtain ⟨-, entered⟩ := registration_stacks (some 5) objects before body true 0 nested
  obtain ⟨left, -, first, held, found, after⟩ := entered (by decide)
  cases held
  exact ⟨nested, by decide, rfl, left.trans rfl, found, (after _).1, ((after _).2 false 1 (by decide)).trans rfl⟩

/-! ## live guards of several sorts -/

/-- What is registered while these guards are live, and what was registered before them. -/
def innermost (first : Registration) : List (Scope ι) → Registration
  | [] => first
  | scope :: _ => some scope.worker

/-- Every live guard holds the number that the guard around it was obtained with. -/
def Stacked (first : Registration) : List (Scope ι) → Prop
  | [] => True
  | scope :: outer => scope.guard.previous = innermost first outer ∧ Stacked first outer

/-- The registration is that of the innermost live guard, and dropping the guard keeps this so. -/
theorem Standing.stacked_act {standing : Standing τ} {first : Registration}
    (registered : standing.registered = innermost first standing.scopes)
    (stacked : Stacked first standing.scopes) (action : Action τ) :
    (standing.act action).registered = innermost first (standing.act action).scopes ∧
      Stacked first (standing.act action).scopes := by
  cases action with
  | enter object worker =>
    by_cases inside : worker < standing.size object
    · rw [act_enter inside]
      exact ⟨rfl, registered, stacked⟩
    · rw [act_enter_of_not_lt inside]
      exact ⟨registered, stacked⟩
  | leave =>
    cases scopes : standing.scopes with
    | nil =>
      have : standing.act .leave = standing := by simp [act, scopes]
      rw [this]
      exact ⟨registered, stacked⟩
    | cons scope outer =>
      rw [act_leave scopes]
      rwa [scopes] at stacked
  | use object task => exact ⟨registered, stacked⟩

theorem Standing.stacked_perform {standing : Standing τ} {first : Registration}
    (registered : standing.registered = innermost first standing.scopes)
    (stacked : Stacked first standing.scopes) (actions : List (Action τ)) :
    (standing.perform actions).registered = innermost first (standing.perform actions).scopes ∧
      Stacked first (standing.perform actions).scopes := by
  induction actions generalizing standing with
  | nil => exact ⟨registered, stacked⟩
  | cons action actions ih =>
    obtain ⟨registered, stacked⟩ := stacked_act registered stacked action
    exact ih registered stacked

/-- Of a worker that began without a registration and has no live guard, tasks get a fresh buffer in every sort.
Otherwise all that matters is the number with which the innermost live guard was obtained, from whatever sort:
tasks get the buffer with that number in every sort that has one, and a fresh one in every other sort. -/
theorem registration_selects (objects : (object : ι) → Scratch (τ object)) (actions : List (Action τ))
    (object : ι) :
    let standing := (start none objects).perform actions
    (standing.scopes = [] → standing.Fresh object) ∧
    ∀ scope outer, standing.scopes = scope :: outer →
      (¬scope.worker < (objects object).buffers.size → standing.Fresh object) ∧
      (scope.worker < (objects object).buffers.size →
        ∃ held, standing.slot object scope.worker = some held ∧
          (standing.objects object).contents standing.registered = held ∧
          ∀ task, (standing.act (.use object task)).slot object scope.worker = some (task held) ∧
            ∀ other number, other ≠ object ∨ number ≠ scope.worker →
              (standing.act (.use object task)).slot other number = standing.slot other number) := by
  intro standing
  have size : (standing.objects object).buffers.size = (objects object).buffers.size :=
    congrFun (size_perform ..) object
  have begun : (start none objects).registered = innermost none (start none objects).scopes := rfl
  obtain ⟨registered, -⟩ := stacked_perform begun trivial actions
  constructor
  · intro none
    refine Standing.fresh_of_slotNumber? ?_
    rw [registered, none]
    rfl
  · intro scope outer scopes
    have number : (standing.objects object).slotNumber? standing.registered =
        if scope.worker < (objects object).buffers.size then some scope.worker else none := by
      rw [registered, scopes, innermost, slotNumber?_some, size]
    constructor
    · intro beyond
      exact Standing.fresh_of_slotNumber? (number.trans (if_neg beyond))
    · intro inside
      have own := number.trans (if_pos inside)
      exact ⟨_, getElem?_buffers_of_slotNumber? own, rfl, fun task => (use_of_slotNumber? own task).2⟩

/-- A worker that has entered a sort with two buffers, as its second worker, and no other sort: in a sort with one
buffer its tasks get a fresh one, and in another sort with two they get the second. -/
theorem registration_selects_elsewhere :
    let objects : Fin 3 → Scratch Nat := fun object => ⟨if object = 1 then #[[4]] else #[[5], [6]]⟩
    let standing := (start none objects).perform [Action.enter 0 1]
    (∃ scope, standing.scopes = [scope] ∧ scope.object = 0) ∧ standing.Fresh 1 ∧
      (standing.objects 2).contents standing.registered = [6] ∧
      (standing.act (.use 2 List.tail)).slot 2 1 = some [] := by
  intro objects standing
  obtain ⟨-, other⟩ := registration_selects objects [Action.enter 0 1] 1
  obtain ⟨-, same⟩ := registration_selects objects [Action.enter 0 1] 2
  obtain ⟨held, here, found, after⟩ := (same _ [] rfl).2 (by decide)
  cases here
  exact ⟨⟨_, rfl, rfl⟩, (other _ [] rfl).1 (by decide), found, (after _).1⟩

/-- Whether a worker whose live guards were all obtained from other sorts gets a fresh buffer of this one. -/
def Standing.KeepsApart (standing : Standing τ) (object : ι) : Prop :=
  (∀ scope ∈ standing.scopes, scope.object ≠ object) → standing.Fresh object

/-- A guard of another sort opens a buffer of this one, and what a task leaves there stays. -/
theorem foreign_guard_opens_buffer :
    let objects : Bool → Scratch Nat := fun _ => ⟨#[[]]⟩
    let standing := (start none objects).perform [.enter false 0, .use true (· ++ [7])]
    (∀ scope ∈ standing.scopes, scope.object ≠ true) ∧ standing.slot true 0 = some [7] ∧
      (standing.objects true).contents standing.registered = [7] ∧ ¬standing.KeepsApart true := by
  intro objects standing
  have foreign : ∀ scope ∈ standing.scopes, scope.object ≠ true := by
    intro scope live
    rw [List.mem_singleton.1 live]
    decide
  exact ⟨foreign, rfl, rfl, fun apart => absurd (apart foreign).1 (List.cons_ne_nil 7 [])⟩

end SortNetwork.Scratch
