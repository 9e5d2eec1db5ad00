import Mathlib
import SortNetwork.Proofs.Barrier.Attendance

/-!
# SortNetwork.Proofs.Barrier.Cycles

Callers of a barrier that counts its releases, each call for a number of participants of its own.

All arrivals are numbered as they come, and cut into cycles of given sizes (`InCycle`).  Each arrival is noted
with its caller, with how many calls the caller had made before, and with how often the marker had been moved
when the call took its snapshot (`arrivalLog`).  `Cycling` says that the arrivals of a cycle meet: all cycles
before the number of releases are complete, whoever waits for one of them or for the present one has its
number as snapshot, and nobody has returned from the present one.  Every step of a call keeps this as long as
an arrival in a cycle either has its caller back from the cycle before, or took its snapshot when that was
released (`Cycles.step`).
-/

namespace SortNetwork.Barrier

/-- Callers that each make calls for given numbers of participants. -/
def Crowd.summon (kind : BarrierKind) (marker : UInt32) (calls : Nat → List Nat) : Crowd where
  barrier := { kind, marker }
  callers w := { calls := calls w }

variable {past : List Act} {act : Act} {call next : Call} {u w c d i : Nat} {sizes : Nat → Nat}

/-! ## snapshots -/

/-- What was done since a caller last took a snapshot. -/
def sinceSnapshot (past : List Act) (w : Nat) : List Act := past.rtakeWhile fun act => act ≠ ⟨w, .entering⟩

/-- How often the marker had been moved when a caller last took a snapshot. -/
def seen (past : List Act) (w : Nat) : Nat :=
  releases (past.rdropWhile fun act => act ≠ ⟨w, .entering⟩)

/-- The marker was moved before the snapshot or since. -/
theorem seen_add_releases (past : List Act) (w : Nat) :
    seen past w + releases (sinceSnapshot past w) = releases past := by
  have whole := List.takeWhile_append_dropWhile (p := fun act : Act => act ≠ ⟨w, .entering⟩)
    (l := past.reverse)
  rw [seen, sinceSnapshot, releases, releases, releases, List.rtakeWhile, List.rdropWhile,
    List.countP_reverse, List.countP_reverse, Nat.add_comm, ← List.countP_append, whole,
    List.countP_reverse]

theorem seen_snoc : seen (past ++ [⟨w, call⟩]) =
    if call = .entering then Function.update (seen past) w (releases past) else seen past := by
  funext u
  by_cases enters : call = .entering
  · subst enters
    rw [if_pos rfl]
    by_cases same : u = w
    · subst same
      simp [seen, releases, Call.releases]
    · rw [Function.update_of_ne same]
      simp [seen, Ne.symm same]
  · simp [seen, enters]

/-! ## arrivals -/

/-- An arrival at the barrier. -/
structure Arrival where
  caller : Nat
  /-- how many calls the caller had made before -/
  number : Nat
  /-- how often the marker had been moved when the call took its snapshot -/
  seen : Nat
  deriving DecidableEq, Repr

/-- What stands in a list that was made longer by one. -/
theorem getElem?_snoc_eq_some {α : Type} {xs : List α} {x y : α} {i : Nat}
    (h : (xs ++ [x])[i]? = some y) : xs[i]? = some y ∨ i = xs.length ∧ y = x := by
  rw [List.getElem?_append] at h
  split at h
  · exact .inl h
  · obtain ⟨inside, eq⟩ := List.getElem?_eq_some_iff.1 h
    simp only [List.length_singleton] at inside
    exact .inr ⟨by omega, by simpa using eq.symm⟩

/-- All arrivals in their order. -/
def arrivalLog (past : List Act) : List Arrival :=
  (List.range past.length).filterMap fun t : Nat =>
    match past[t]? with
    | some ⟨w, .arriving _⟩ => some ⟨w, arrivalsOf (past.take t) w, Barrier.seen (past.take t) w⟩
    | _ => none

theorem arrivalLog_snoc : arrivalLog (past ++ [⟨w, call⟩]) =
    arrivalLog past ++ if call.arrives then [Arrival.mk w (arrivalsOf past w) (seen past w)] else [] := by
  have earlier : ∀ t ∈ List.range past.length,
      (past ++ [Act.mk w call])[t]? = past[t]? ∧ (past ++ [Act.mk w call]).take t = past.take t := by
    intro t member
    have inside := List.mem_range.1 member
    exact ⟨List.getElem?_append_left inside, List.take_append_of_le_length inside.le⟩
  rw [arrivalLog, List.length_append, List.length_singleton, List.range_succ, List.filterMap_append]
  congr 1
  · refine List.filterMap_congr fun t member => ?_
    rw [(earlier t member).1, (earlier t member).2]
  · cases call <;> simp [Call.arrives]

theorem length_arrivalLog (past : List Act) : (arrivalLog past).length = allArrivals past := by
  induction past using List.reverseRecOn with
  | nil => rfl
  | append_singleton past act ih =>
    rw [arrivalLog_snoc, List.length_append, ih, allArrivals, allArrivals, List.countP_append]
    cases arrives : act.call.arrives <;> simp [arrives]

/-- An arrival is noted with a call that its caller has made. -/
theorem number_lt {arrival : Arrival} (noted : arrival ∈ arrivalLog past) :
    arrival.number < arrivalsOf past arrival.caller := by
  induction past using List.reverseRecOn with
  | nil => simp [arrivalLog] at noted
  | append_singleton past act ih =>
    rw [arrivalLog_snoc] at noted
    rw [arrivalsOf_snoc]
    have later : arrivalsOf past arrival.caller ≤ Function.update (arrivalsOf past) act.caller
        (arrivalsOf past act.caller + act.call.arrives.toNat) arrival.caller := by
      by_cases own : arrival.caller = act.caller
      · simp [own]
      · simp [Function.update_of_ne own]
    rcases List.mem_append.1 noted with old | here
    · exact (ih old).trans_le later
    · split at here
      · next arrives =>
        obtain rfl := List.mem_singleton.1 here
        simp [arrives]
      · cases here

/-- Whatever call a caller has arrived in, the arrival is noted. -/
theorem exists_arrival (arrived : c < arrivalsOf past w) :
    ∃ (i : Nat) (arrival : Arrival), (arrivalLog past)[i]? = some arrival ∧ arrival.caller = w ∧
      arrival.number = c := by
  induction past using List.reverseRecOn with
  | nil => simp [arrivalsOf, tally] at arrived
  | append_singleton past act ih =>
    rw [arrivalLog_snoc]
    by_cases old : c < arrivalsOf past w
    · obtain ⟨i, arrival, noted, rest⟩ := ih old
      obtain ⟨inside, -⟩ := List.getElem?_eq_some_iff.1 noted
      exact ⟨i, arrival, by rw [List.getElem?_append_left inside, noted], rest⟩
    · rw [arrivalsOf_snoc] at arrived
      have own : w = act.caller := by
        by_contra other
        rw [Function.update_of_ne other] at arrived
        exact old arrived
      subst own
      rw [Function.update_self] at arrived
      cases arrives : act.call.arrives with
      | false =>
        rw [arrives] at arrived
        exact absurd arrived old
      | true =>
        rw [arrives, Bool.toNat_true] at arrived
        exact ⟨_, _, List.getElem?_concat_length, rfl, by dsimp only; omega⟩

/-- The arrivals of a caller are noted in the order of its calls. -/
theorem pairwise_arrivalLog (past : List Act) : (arrivalLog past).Pairwise fun arrival later =>
    arrival.caller = later.caller → arrival.number < later.number := by
  induction past using List.reverseRecOn with
  | nil => simp [arrivalLog]
  | append_singleton past act ih =>
    rw [arrivalLog_snoc, List.pairwise_append]
    refine ⟨ih, ?_, fun arrival noted later here own => ?_⟩
    · split <;> simp
    · split at here
      · obtain rfl := List.mem_singleton.1 here
        have := number_lt noted
        rw [own] at this
        exact this
      · cases here

/-- A call arrives once. -/
theorem eq_of_number_eq {j : Nat} {arrival other : Arrival} (noted : (arrivalLog past)[i]? = some arrival)
    (noted' : (arrivalLog past)[j]? = some other) (same : arrival.caller = other.caller)
    (number : arrival.number = other.number) : i = j := by
  obtain ⟨inside, rfl⟩ := List.getElem?_eq_some_iff.1 noted
  obtain ⟨inside', rfl⟩ := List.getElem?_eq_some_iff.1 noted'
  have ordered := List.pairwise_iff_getElem.1 (pairwise_arrivalLog past)
  rcases Nat.lt_trichotomy i j with before | here | after
  · exact absurd number (ordered i j inside inside' before same).ne
  · exact here
  · exact absurd number (ordered j i inside' inside after same.symm).ne'

/-! ## cycles of arrivals -/

/-- The number of the first arrival of a cycle. -/
def begins (sizes : Nat → Nat) (c : Nat) : Nat := ∑ d ∈ Finset.range c, sizes d

/-- Arrival number `i` belongs to cycle `c`. -/
def InCycle (sizes : Nat → Nat) (c i : Nat) : Prop := begins sizes c ≤ i ∧ i < begins sizes (c + 1)

instance : Decidable (InCycle sizes c i) := inferInstanceAs (Decidable (_ ∧ _))

theorem begins_succ (sizes : Nat → Nat) (c : Nat) : begins sizes (c + 1) = begins sizes c + sizes c :=
  Finset.sum_range_succ ..

theorem begins_mono (sizes : Nat → Nat) : Monotone (begins sizes) :=
  monotone_nat_of_le_succ fun c => by
    rw [begins_succ]
    exact Nat.le_add_right ..

/-- An arrival before the end of a cycle belongs to that cycle or to one before. -/
theorem InCycle.le_of_lt (here : InCycle sizes c i) (before : i < begins sizes (d + 1)) : c ≤ d := by
  by_contra later
  have := begins_mono sizes (show d + 1 ≤ c by omega)
  have := here.1
  omega

theorem InCycle.eq (here : InCycle sizes c i) (there : InCycle sizes d i) : c = d :=
  Nat.le_antisymm (here.le_of_lt there.2) (there.le_of_lt here.2)

/-- Every arrival before the end of a cycle belongs to a cycle. -/
theorem exists_inCycle (before : i < begins sizes d) : ∃ c < d, InCycle sizes c i := by
  induction d with
  | zero => simp [begins] at before
  | succ d ih =>
    by_cases here : i < begins sizes d
    · obtain ⟨c, early, inside⟩ := ih here
      exact ⟨c, by omega, inside⟩
    · exact ⟨d, by omega, by omega, before⟩

/-! ## the invariant -/

/-- How a call whose arrival belongs to cycle `c` stands, if it has not returned. -/
def Call.Stands (marker : UInt32) (released seen c : Nat) : Call → Prop
  | .polling snapshot => snapshot = marker + UInt32.ofNat c ∧ seen = c
  | .resetting _ | .releasing _ => c = released
  | _ => False

/-- How far the present cycle has come. -/
inductive Filling (sizes : Nat → Nat) (released arrived : Nat) (b : Barrier) (call : Nat → Call) : Prop where
  /-- some have not arrived -/
  | gathering (open_ : ∀ w, (call w).closing = false) (so_far : arrived = begins sizes released + b.arrivals)
      (short : b.arrivals < sizes released)
  /-- all have arrived, and the last one is about to reset the count -/
  | complete (w : Nat) (snapshot : UInt32) (last : call w = .resetting snapshot)
      (others : ∀ u, u ≠ w → (call u).closing = false) (all : arrived = begins sizes (released + 1))
  /-- the count is reset, and the last one is about to move the marker -/
  | ending (w : Nat) (snapshot : UInt32) (last : call w = .releasing snapshot)
      (others : ∀ u, u ≠ w → (call u).closing = false) (all : arrived = begins sizes (released + 1))
      (reset : b.arrivals = 0)

namespace Filling

variable {released arrived : Nat} {b : Barrier} {call : Nat → Call} {snapshot : UInt32}

/-- All arrivals of cycles that are released have been made, and none of a cycle after the present one. -/
theorem bounds (filling : Filling sizes released arrived b call) :
    begins sizes released ≤ arrived ∧ arrived ≤ begins sizes (released + 1) := by
  have next_cycle := begins_succ sizes released
  cases filling with
  | gathering _ so_far short => omega
  | complete _ _ _ _ all => omega
  | ending _ _ _ _ all _ => omega

/-- A call that neither begins nor ceases to release the cycle leaves it as it is. -/
theorem update (filling : Filling sizes released arrived b call) (before : (call w).closing = false)
    (after : next.closing = false) : Filling sizes released arrived b (Function.update call w next) := by
  have keeps : ∀ u, (call u).closing = false → (Function.update call w next u).closing = false := by
    intro u
    by_cases same : u = w
    · subst same
      simp [after]
    · simp [Function.update_of_ne same]
  cases filling with
  | gathering open_ so_far short => exact .gathering (fun u => keeps u (open_ u)) so_far short
  | complete v snapshot last others all =>
    have other : v ≠ w := by
      rintro rfl
      simp [last, Call.closing] at before
    exact .complete v snapshot (by rwa [Function.update_of_ne other]) (fun u hu => keeps u (others u hu)) all
  | ending v snapshot last others all reset =>
    have other : v ≠ w := by
      rintro rfl
      simp [last, Call.closing] at before
    exact .ending v snapshot (by rwa [Function.update_of_ne other]) (fun u hu => keeps u (others u hu)) all
      reset

theorem eq_of_closing {v : Nat} (others : ∀ u, u ≠ v → (call u).closing = false)
    (closes : (call w).closing = true) : v = w := by
  by_contra other
  simp [others w (Ne.symm other)] at closes

/-- Whoever resets the count is the last of a cycle that is complete. -/
theorem of_resetting (filling : Filling sizes released arrived b call) (now : call w = .resetting snapshot) :
    (∀ u, u ≠ w → (call u).closing = false) ∧ arrived = begins sizes (released + 1) := by
  have closes : (call w).closing = true := by rw [now, Call.closing]
  cases filling with
  | gathering open_ _ _ => simp [open_ w] at closes
  | complete v _ _ others all =>
    obtain rfl := eq_of_closing others closes
    exact ⟨others, all⟩
  | ending v _ last others _ _ =>
    obtain rfl := eq_of_closing others closes
    simp [now] at last

/-- Whoever moves the marker is the last of a cycle that is complete, and the count is reset. -/
theorem of_releasing (filling : Filling sizes released arrived b call) (now : call w = .releasing snapshot) :
    (∀ u, u ≠ w → (call u).closing = false) ∧ arrived = begins sizes (released + 1) ∧ b.arrivals = 0 := by
  have closes : (call w).closing = true := by rw [now, Call.closing]
  cases filling with
  | gathering open_ _ _ => simp [open_ w] at closes
  | complete v _ last others _ =>
    obtain rfl := eq_of_closing others closes
    simp [now] at last
  | ending v _ _ others all reset =>
    obtain rfl := eq_of_closing others closes
    exact ⟨others, all, reset⟩

end Filling

/-- Whether an arrival in cycle `c` is prepared for it: its call took its snapshot when all cycles before were
released, or its caller took part in the one before. -/
def Prepared (sizes : Nat → Nat) (log : List Arrival) (w seen c : Nat) : Prop :=
  c ≤ seen ∨ ∃ d j earlier, d + 1 = c ∧ log[j]? = some earlier ∧ InCycle sizes d j ∧ earlier.caller = w

/-- The arrivals of each cycle meet. -/
structure Cycling (sizes : Nat → Nat) (marker : UInt32) (log : List Arrival) (returned seen : Nat → Nat)
    (released : Nat) (b : Barrier) (call : Nat → Call) : Prop where
  kind : b.kind = .stepCounter
  marker_eq : b.marker = marker + UInt32.ofNat released
  /-- whoever is about to arrive has the snapshot that it took when it was back from all of its cycles -/
  fits : ∀ w snapshot, call w = .arriving snapshot → snapshot = marker + UInt32.ofNat (seen w) ∧
    seen w ≤ released ∧ ∀ i arrival c, log[i]? = some arrival → arrival.caller = w → InCycle sizes c i →
      c < seen w
  /-- the calls that have arrived have returned from a cycle that is released, or wait -/
  stands : ∀ i arrival c, log[i]? = some arrival → InCycle sizes c i →
    arrival.number < returned arrival.caller ∧ c < released ∨
      arrival.number = returned arrival.caller ∧
        (call arrival.caller).Stands marker released (seen arrival.caller) c
  filling : Filling sizes released log.length b call

namespace Cycling

variable {marker : UInt32} {log : List Arrival} {returned seen : Nat → Nat} {released : Nat} {b : Barrier}
  {call : Nat → Call} {arrival : Arrival} {snapshot : UInt32}

/-- No arrival belongs to a cycle that has not begun. -/
theorem le_released (cycling : Cycling sizes marker log returned seen released b call)
    (noted : log[i]? = some arrival) (here : InCycle sizes c i) : c ≤ released := by
  obtain ⟨inside, -⟩ := List.getElem?_eq_some_iff.1 noted
  exact here.le_of_lt (inside.trans_le cycling.filling.bounds.2)

/-- Whoever does not wait has returned from all cycles in which it arrived, and they are released. -/
theorem of_away (cycling : Cycling sizes marker log returned seen released b call)
    (away : ∀ c, ¬(call w).Stands marker released (seen w) c) (noted : log[i]? = some arrival)
    (own : arrival.caller = w) (here : InCycle sizes c i) : arrival.number < returned w ∧ c < released := by
  subst own
  rcases cycling.stands i arrival c noted here with done | ⟨-, stands⟩
  · exact done
  · exact absurd stands (away c)

/-- What the calls of all others come to is not touched by one whose arrivals are all from cycles that it has
returned from. -/
theorem stands_update (cycling : Cycling sizes marker log returned seen released b call)
    (next : Call) {released' returned' : Nat} (seen' : Nat) (more : released ≤ released')
    (done : ∀ i arrival c, log[i]? = some arrival → arrival.caller = w → InCycle sizes c i →
      arrival.number < returned' ∧ c < released')
    (still : ∀ u, u ≠ w → ∀ c, (call u).Stands marker released (seen u) c →
      (call u).Stands marker released' (seen u) c) :
    ∀ i arrival c, log[i]? = some arrival → InCycle sizes c i →
      arrival.number < Function.update returned w returned' arrival.caller ∧ c < released' ∨
        arrival.number = Function.update returned w returned' arrival.caller ∧
          (Function.update call w next arrival.caller).Stands marker released'
            (Function.update seen w seen' arrival.caller) c := by
  intro i arrival c noted here
  by_cases own : arrival.caller = w
  · rw [own, Function.update_self]
    exact .inl (done i arrival c noted own here)
  · simp only [Function.update_of_ne own]
    rcases cycling.stands i arrival c noted here with ⟨fewer, early⟩ | ⟨last, stands⟩
    · exact .inl ⟨fewer, early.trans_le more⟩
    · exact .inr ⟨last, still _ own c stands⟩

/-- All others that are about to arrive stand as they should when a call goes on to something else. -/
theorem fits_update (cycling : Cycling sizes marker log returned seen released b call)
    (quiet : ∀ snapshot, next ≠ .arriving snapshot)
    (arriving : Function.update call w next u = .arriving snapshot) :
    u ≠ w ∧ snapshot = marker + UInt32.ofNat (seen u) ∧ seen u ≤ released ∧
      ∀ i arrival c, log[i]? = some arrival → arrival.caller = u → InCycle sizes c i → c < seen u := by
  have other : u ≠ w := by
    rintro rfl
    rw [Function.update_self] at arriving
    exact quiet snapshot arriving
  rw [Function.update_of_ne other] at arriving
  exact ⟨other, cycling.fits u snapshot arriving⟩

/-- A call takes its snapshot. -/
theorem entered (cycling : Cycling sizes marker log returned seen released b call)
    (now : call w = .entering) :
    Cycling sizes marker log returned (Function.update seen w released) released b
      (Function.update call w (.arriving b.marker)) := by
  have done : ∀ i arrival c, log[i]? = some arrival → arrival.caller = w → InCycle sizes c i →
      arrival.number < returned w ∧ c < released := fun i arrival c =>
    cycling.of_away fun c => by simp [now, Call.Stands]
  refine ⟨cycling.kind, cycling.marker_eq, fun u snapshot arriving => ?_, ?_,
    cycling.filling.update (by simp [now, Call.closing]) rfl⟩
  · by_cases same : u = w
    · subst same
      simp only [Function.update_self, Call.arriving.injEq] at arriving ⊢
      exact ⟨by rw [← arriving, cycling.marker_eq], le_rfl, fun i arrival c noted own here =>
        (done i arrival c noted own here).2⟩
    · simp only [Function.update_of_ne same] at arriving ⊢
      exact cycling.fits u snapshot arriving
  · have kept := cycling.stands_update (.arriving b.marker) released le_rfl done
      fun _ _ _ => id
    rwa [Function.update_eq_self] at kept

/-- Whoever arrives prepared finds the cycle open that its arrival belongs to, and took its snapshot when all
cycles before were released. -/
theorem of_prepared (cycling : Cycling sizes marker log returned seen released b call)
    (some_ : ∀ c, 0 < sizes c) (now : call w = .arriving snapshot)
    (prepared : ∀ c, InCycle sizes c log.length → Prepared sizes log w (seen w) c) :
    (∀ u, (call u).closing = false) ∧ log.length = begins sizes released + b.arrivals ∧
      b.arrivals < sizes released ∧ seen w = released := by
  obtain ⟨-, caught, after⟩ := cycling.fits w snapshot now
  -- the number of the cycle is at most that of the releases that were seen
  have at_most : ∀ c, InCycle sizes c log.length → c ≤ seen w := by
    intro c here
    rcases prepared c here with early | ⟨d, j, earlier, rfl, noted, there, own⟩
    · exact early
    · exact after j earlier d noted own there
  have next_cycle : log.length = begins sizes (released + 1) → False := by
    intro all
    have here : InCycle sizes (released + 1) log.length := by
      refine ⟨all.ge, ?_⟩
      rw [all, begins_succ sizes (released + 1)]
      exact Nat.lt_add_of_pos_right (some_ _)
    have := at_most _ here
    omega
  cases cycling.filling with
  | gathering open_ so_far short =>
    have here : InCycle sizes released log.length := by
      refine ⟨by omega, ?_⟩
      rw [begins_succ, so_far]
      omega
    exact ⟨open_, so_far, short, Nat.le_antisymm caught (at_most _ here)⟩
  | complete _ _ _ _ all => exact (next_cycle all).elim
  | ending _ _ _ _ all _ => exact (next_cycle all).elim

/-- A call arrives. -/
theorem arrived (cycling : Cycling sizes marker log returned seen released b call)
    (some_ : ∀ c, 0 < sizes c) (now : call w = .arriving snapshot)
    (prepared : ∀ c, InCycle sizes c log.length → Prepared sizes log w (seen w) c) :
    Cycling sizes marker (log ++ [⟨w, returned w, seen w⟩]) returned seen released b.arrive
      (Function.update call w
        (if b.completes (sizes released) then .resetting snapshot else .polling snapshot)) := by
  obtain ⟨open_, so_far, short, level⟩ := cycling.of_prepared some_ now prepared
  obtain ⟨rfl, -, -⟩ := cycling.fits w _ now
  have full : b.completes (sizes released) = true ↔ b.arrivals + 1 = sizes released := by
    rw [completes, decide_eq_true_eq]
    omega
  have others : ∀ {next} u, u ≠ w → (Function.update call w next u).closing = false := by
    intro next u other
    rw [Function.update_of_ne other]
    exact open_ u
  refine ⟨cycling.kind, cycling.marker_eq, fun u snapshot arriving => ?_,
    fun i arrival c noted here => ?_, ?_⟩
  · obtain ⟨other, own, caught, after⟩ := cycling.fits_update (by intro s; split <;> simp) arriving
    refine ⟨own, caught, fun i arrival c noted mine here => ?_⟩
    rcases getElem?_snoc_eq_some noted with old | ⟨-, rfl⟩
    · exact after i arrival c old mine here
    · exact absurd mine.symm other
  · have away : ∀ c, ¬(call w).Stands marker released (seen w) c := by simp [now, Call.Stands]
    rcases getElem?_snoc_eq_some noted with old | ⟨rfl, rfl⟩
    · by_cases own : arrival.caller = w
      · exact .inl (own ▸ cycling.of_away away old own here)
      · simpa only [Function.update_of_ne own] using cycling.stands i arrival c old here
    · -- the new arrival belongs to the cycle that is open
      have number : c = released := by
        refine here.eq ⟨by omega, ?_⟩
        rw [begins_succ]
        omega
      subst number
      refine .inr ⟨rfl, ?_⟩
      rw [Function.update_self]
      split
      · rfl
      · exact ⟨by rw [level], level⟩
  · rw [List.length_append, List.length_singleton]
    by_cases last : b.completes (sizes released) = true
    · rw [if_pos last]
      refine .complete w _ (Function.update_self ..) others ?_
      rw [begins_succ, ← full.1 last]
      omega
    · rw [if_neg last]
      refine .gathering (fun u => ?_) (by simp only [arrive]; omega) ?_
      · by_cases same : u = w
        · subst same
          rw [Function.update_self]
          rfl
        · exact others u same
      · have := mt full.2 last
        simp only [arrive]
        omega

/-- The last arrival resets the count. -/
theorem reset (cycling : Cycling sizes marker log returned seen released b call)
    (now : call w = .resetting snapshot) :
    Cycling sizes marker log returned seen released b.reset
      (Function.update call w (.releasing snapshot)) := by
  refine ⟨cycling.kind, cycling.marker_eq, fun u _ arriving => (cycling.fits_update (by simp) arriving).2,
    fun i arrival c noted here => ?_, ?_⟩
  · have before := cycling.stands i arrival c noted here
    by_cases own : arrival.caller = w
    · subst own
      rw [now] at before
      rwa [Function.update_self]
    · rwa [Function.update_of_ne own]
  · obtain ⟨others, all⟩ := cycling.filling.of_resetting now
    refine .ending w _ (Function.update_self ..) (fun u other => ?_) all rfl
    rw [Function.update_of_ne other]
    exact others u other

/-- A poll sees that the marker was moved. -/
theorem left_of_polling (cycling : Cycling sizes marker log returned seen released b call)
    (now : call w = .polling snapshot) (moved : b.marker ≠ snapshot) :
    Cycling sizes marker log (Function.update returned w (returned w + 1)) seen released b
      (Function.update call w .entering) := by
  have done : ∀ i arrival c, log[i]? = some arrival → arrival.caller = w → InCycle sizes c i →
      arrival.number < returned w + 1 ∧ c < released := by
    intro i arrival c noted own here
    subst own
    rcases cycling.stands i arrival c noted here with ⟨fewer, early⟩ | ⟨last, stands⟩
    · exact ⟨by omega, early⟩
    · rw [now] at stands
      have other : c ≠ released := by
        rintro rfl
        exact moved (cycling.marker_eq.trans stands.1.symm)
      have := cycling.le_released noted here
      omega
  have kept := cycling.stands_update .entering (seen w) le_rfl done fun _ _ _ => id
  rw [Function.update_eq_self] at kept
  exact ⟨cycling.kind, cycling.marker_eq, fun u _ arriving => (cycling.fits_update (by simp) arriving).2,
    kept, cycling.filling.update (by simp [now, Call.closing]) rfl⟩

/-- The last arrival moves the marker, and the next cycle begins. -/
theorem left_of_releasing (cycling : Cycling sizes marker log returned seen released b call)
    (some_ : ∀ c, 0 < sizes c) (now : call w = .releasing snapshot) :
    Cycling sizes marker log (Function.update returned w (returned w + 1)) seen (released + 1)
      (b.release snapshot) (Function.update call w .entering) := by
  obtain ⟨others, all, reset⟩ := cycling.filling.of_releasing now
  have done : ∀ i arrival c, log[i]? = some arrival → arrival.caller = w → InCycle sizes c i →
      arrival.number < returned w + 1 ∧ c < released + 1 := by
    intro i arrival c noted own here
    subst own
    rcases cycling.stands i arrival c noted here with ⟨fewer, early⟩ | ⟨last, stands⟩
    · omega
    · rw [now] at stands
      have : c = released := stands
      omega
  have after : b.release snapshot = { b with marker := b.marker + 1 } := by
    rw [release, cycling.kind]
  refine ⟨?_, ?_, fun u _ arriving => ?_, ?_, .gathering (fun u => ?_) ?_ ?_⟩
  · rw [kind_release, cycling.kind]
  · rw [after, cycling.marker_eq, UInt32.add_assoc, UInt32.ofNat_add]
    rfl
  · obtain ⟨-, own, caught, after⟩ := cycling.fits_update (by simp) arriving
    exact ⟨own, by omega, after⟩
  · have kept := cycling.stands_update .entering (seen w) (Nat.le_succ _) done ?_
    · rwa [Function.update_eq_self] at kept
    · intro u other c stands
      have open_ := others u other
      cases here : call u with
      | polling =>
        rw [here] at stands
        exact stands
      | resetting => simp [here, Call.closing] at open_
      | releasing => simp [here, Call.closing] at open_
      | _ =>
        rw [here] at stands
        exact stands.elim
  · by_cases same : u = w
    · subst same
      rw [Function.update_self]
      rfl
    · rw [Function.update_of_ne same]
      exact others u same
  · rw [after, all, reset]
    rfl
  · rw [after, reset]
    exact some_ _

end Cycling

/-! ## the callers -/

/-- The arrivals of the callers meet in cycles. -/
def Cycles (sizes : Nat → Nat) (marker : UInt32) (past : List Act) (crowd : Crowd) : Prop :=
  Cycling sizes marker (arrivalLog past) (returnsOf past) (seen past) (releases past) crowd.barrier
    fun w => (crowd.callers w).call

/-- All arrivals of a cycle have been made before a call returns that arrived in it. -/
def NobodyEarly (sizes : Nat → Nat) (past : List Act) : Prop :=
  ∀ i arrival c, (arrivalLog past)[i]? = some arrival → InCycle sizes c i →
    arrival.number < returnsOf past arrival.caller → begins sizes (c + 1) ≤ allArrivals past

variable {marker : UInt32} {calls : Nat → List Nat} {crowd after : Crowd} {n : Nat}

theorem Cycles.nobodyEarly (cycles : Cycles sizes marker past crowd) : NobodyEarly sizes past := by
  intro i arrival c noted here returned
  rcases cycles.stands i arrival c noted here with ⟨-, released⟩ | ⟨present, -⟩
  · rw [← length_arrivalLog]
    exact (begins_mono sizes released).trans cycles.filling.bounds.1
  · omega

theorem cycles_start (marker : UInt32) (some_ : ∀ c, 0 < sizes c) :
    Cycles sizes marker [] (.summon .stepCounter marker calls) :=
  ⟨rfl, by simp [releases, Crowd.summon], by simp [Crowd.summon], by simp [arrivalLog],
    .gathering (fun _ => rfl) (by simp [arrivalLog, begins, releases, Crowd.summon]) (some_ _)⟩

/-- Whoever is about to arrive has arrived in all calls that have returned, and in no other. -/
theorem Passage.arrivalsOf_of_arriving (passage : Passage n (.summon .stepCounter marker calls) past crowd)
    {snapshot : UInt32} (now : (crowd.callers w).call = .arriving snapshot) :
    arrivalsOf past w = returnsOf past w := by
  rw [passage.arrivalsOf_eq (fun _ => rfl) w, now]
  rfl

/-- The call of a caller is the first of those that have not returned. -/
theorem Passage.getElem?_calls (passage : Passage n (.summon .stepCounter marker calls) past crowd)
    {participants : Nat} {later : List Nat} (here : (crowd.callers w).calls = participants :: later) :
    (calls w)[returnsOf past w]? = some participants := by
  have rest : (crowd.callers w).calls = (calls w).drop (returnsOf past w) := (passage.calls_eq w).1
  rw [← List.head?_drop, ← rest, here]
  rfl

/-- A step keeps the cycles, if it is no arrival, or one that is prepared for its cycle and of its size. -/
theorem Cycles.step (cycles : Cycles sizes marker past crowd)
    (passage : Passage n (.summon .stepCounter marker calls) past crowd) (some_ : ∀ c, 0 < sizes c)
    (moved : crowd.step w = .progress after)
    (due : ∀ snapshot, (crowd.callers w).call = .arriving snapshot →
      ∀ c, InCycle sizes c (arrivalLog past).length →
        (calls w)[returnsOf past w]? = some (sizes c) ∧
          Prepared sizes (arrivalLog past) w (seen past w) c) :
    Cycles sizes marker (past ++ [⟨w, (crowd.callers w).call⟩]) after := by
  obtain ⟨participants, later, here, step⟩ := Crowd.exists_of_progress moved
  unfold Cycles at cycles ⊢
  rw [arrivalLog_snoc, returnsOf_snoc, seen_snoc, releases_snoc]
  cases now : (crowd.callers w).call with
  | entering =>
    rw [now] at step
    obtain ⟨b, next, goes, rfl⟩ | ⟨b, returned, rfl⟩ := step
    · cases goes
      simpa [callOf_update, Call.arrives, Call.returns, Call.releases] using cycles.entered now
    · cases returned
  | arriving snapshot =>
    rw [now] at step
    obtain ⟨b, next, goes, rfl⟩ | ⟨b, returned, rfl⟩ := step
    · cases goes
      have prepared c inside := (due snapshot now c inside).2
      obtain ⟨-, so_far, short, -⟩ := cycles.of_prepared some_ now prepared
      -- the arrival belongs to the cycle that is open, and so its call is for the size of that
      have size : participants = sizes (releases past) := by
        refine Option.some.inj ((passage.getElem?_calls here).symm.trans (due snapshot now _ ⟨?_, ?_⟩).1)
        · omega
        · rw [begins_succ]
          omega
      have arrived := cycles.arrived some_ now prepared
      rw [← size] at arrived
      simpa [callOf_update, Call.arrives, Call.returns, Call.releases, passage.arrivalsOf_of_arriving now]
        using arrived
    · cases returned
  | polling snapshot =>
    rw [now] at step
    obtain ⟨b, next, goes, rfl⟩ | ⟨b, returned, rfl⟩ := step
    · simp only [Barrier.step] at goes
      split at goes <;> cases goes
    · simp only [Barrier.step] at returned
      split at returned <;> cases returned
      next other =>
        simpa [callOf_update, Call.arrives, Call.returns, Call.releases] using
          cycles.left_of_polling now other
  | resetting snapshot =>
    rw [now] at step
    obtain ⟨b, next, goes, rfl⟩ | ⟨b, returned, rfl⟩ := step
    · cases goes
      simpa [callOf_update, Call.arrives, Call.returns, Call.releases] using cycles.reset now
    · cases returned
  | releasing snapshot =>
    rw [now] at step
    obtain ⟨b, next, goes, rfl⟩ | ⟨b, returned, rfl⟩ := step
    · cases goes
    · cases returned
      simpa [callOf_update, Call.arrives, Call.returns, Call.releases] using
        cycles.left_of_releasing some_ now

end SortNetwork.Barrier
