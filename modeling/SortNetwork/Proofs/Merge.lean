import Mathlib
import SortNetwork.Merge.Loop
import SortNetwork.Proofs.Network.Runs

/-!
# SortNetwork.Proofs.Merge

What a merge leaves of two segments.

Of any two lists it leaves an interleaving: every element of both, those of each list in the order in which
it is read (`merge_interleaves`).  This needs nothing of the lists or of the comparison.

Of two sorted runs it leaves the stable sort of the second run followed by the first (`merge_stable`).  A
stable sort is determined by two things: its order, and what it holds of each class of equal elements, in
which order (`eq_of_ties`).  A merge of runs and a sort of both together agree in these.
-/

namespace SortNetwork

variable {α : Type} {cmp : α → α → Ordering}

/-! ## interleavings -/

/-- The third list holds the elements of the other two, those of each in their order. -/
inductive Interleaved : List α → List α → List α → Prop where
  | nil : Interleaved [] [] []
  | first (x : α) {xs ys zs : List α} (rest : Interleaved xs ys zs) : Interleaved (x :: xs) ys (x :: zs)
  | second (y : α) {xs ys zs : List α} (rest : Interleaved xs ys zs) : Interleaved xs (y :: ys) (y :: zs)

namespace Interleaved

variable {xs ys zs : List α}

theorem only_first (xs : List α) : Interleaved xs [] xs := by
  induction xs with
  | nil => exact .nil
  | cons x xs ih => exact .first x ih

theorem only_second (ys : List α) : Interleaved [] ys ys := by
  induction ys with
  | nil => exact .nil
  | cons y ys ih => exact .second y ih

/-- Whichever head a merge takes, it takes the head of one of the lists. -/
theorem merge (wins : α → α → Bool) (xs ys : List α) : Interleaved xs ys (xs.merge ys wins) := by
  fun_induction List.merge xs ys wins with
  | case1 ys => exact only_second ys
  | case2 xs nonempty => exact only_first xs
  | case3 x xs y ys _ ih => exact .first x ih
  | case4 x xs y ys _ ih => exact .second y ih

theorem perm (h : Interleaved xs ys zs) : zs.Perm (xs ++ ys) := by
  induction h with
  | nil => exact .refl _
  | first x rest ih => exact ih.cons x
  | second y rest ih => exact (ih.cons y).trans List.perm_middle.symm

end Interleaved

/-- What a merge that reads two segments in the orders `reading₁` and `reading₂` leaves of them. -/
structure Interleaves (reading₁ reading₂ segment₁ segment₂ : List α) (merged : Merged α) : Prop where
  length_first : merged.first.length = segment₁.length
  length_second : merged.second.length = segment₂.length
  append_eq : merged.first ++ merged.second = merged.buffer
  interleaved : Interleaved reading₁ reading₂ merged.buffer
  perm : merged.buffer.Perm (segment₁ ++ segment₂)

theorem interleaves_mergeFrom (cmp : α → α → Ordering) (target orientation₁ orientation₂ : Direction)
    (segment₁ segment₂ : List α) :
    Interleaves (readTowards target orientation₁ segment₁) (readTowards target orientation₂ segment₂)
      segment₁ segment₂ (mergeFrom cmp target orientation₁ orientation₂ segment₁ segment₂) where
  length_first := length_first_mergeFrom ..
  length_second := length_second_mergeFrom ..
  append_eq := mergeFrom_first_append_second ..
  interleaved := .merge ..
  perm := buffer_mergeFrom_perm ..

/-- A merge loses nothing, whatever the two lists hold, however long they are, whatever the comparison
says and whatever the buffer held before: it leaves an interleaving of both, each in the order in which it
is read, and the buffer it began with leaves no trace.  So does a merge that finds out the orientations for
itself, of segments of equal length. -/
theorem merge_interleaves (cmp : α → α → Ordering) (target : Direction) (segment₁ segment₂ : List α) :
    (∀ orientation₁ orientation₂, ∃ merged,
      (∀ buffer,
        mergeThrough cmp target orientation₁ orientation₂ segment₁ segment₂ buffer = .ok merged) ∧
      Interleaves (readTowards target orientation₁ segment₁)
        (readTowards target orientation₂ segment₂) segment₁ segment₂ merged) ∧
    (segment₁.length = segment₂.length → 0 < segment₁.length → ∃ merged,
      (∀ buffer, merge cmp target segment₁ segment₂ buffer = .ok merged) ∧
      (∀ buffer, mergeThrough cmp target (.ofRun cmp segment₁) (.ofRun cmp segment₂) segment₁ segment₂
        buffer = .ok merged) ∧
      Interleaves (readTowards target (.ofRun cmp segment₁) segment₁)
        (readTowards target (.ofRun cmp segment₂) segment₂) segment₁ segment₂ merged) := by
  constructor
  · intro orientation₁ orientation₂
    exact ⟨_, fun buffer => mergeThrough_eq_ok .., interleaves_mergeFrom ..⟩
  · intro same nonempty
    exact ⟨_, merge_eq_ok cmp target same nonempty, fun buffer => mergeThrough_eq_ok ..,
      interleaves_mergeFrom ..⟩

/-- Zero goes before one, one before two, and two before zero. -/
def cyclic (a b : Fin 3) : Ordering := if a = b then .eq else if a + 1 = b then .lt else .gt

/-- A comparison that is not transitive, lists of different lengths, and segments that are not sorted. -/
theorem merge_interleaves_cyclic :
    (∀ buffer, mergeThrough cyclic .descending .ascending .descending [0, 2, 1] [1] buffer =
      .ok ⟨[1, 1, 2], [0], [1, 1, 2, 0]⟩) ∧
    Interleaves [(1 : Fin 3), 2, 0] [1] [0, 2, 1] [1] ⟨[1, 1, 2], [0], [1, 1, 2, 0]⟩ ∧
    [(0 : Fin 3), 2].length = [(1 : Fin 3), 1].length ∧ 0 < [(0 : Fin 3), 2].length ∧
    (∀ buffer, merge cyclic .ascending [0, 2] [1, 1] buffer = .ok ⟨[1, 1], [2, 0], [1, 1, 2, 0]⟩) ∧
    Interleaves [(2 : Fin 3), 0] [1, 1] [0, 2] [1, 1] ⟨[1, 1], [2, 0], [1, 1, 2, 0]⟩ := by
  obtain ⟨merged, through, left⟩ :=
    (merge_interleaves cyclic .descending [0, 2, 1] [1]).1 .ascending .descending
  obtain ⟨merged', alone, -, left'⟩ :=
    (merge_interleaves cyclic .ascending [0, 2] [1, 1]).2 rfl (by decide)
  have run : mergeThrough cyclic .descending .ascending .descending [0, 2, 1] [1] [] =
      .ok ⟨[1, 1, 2], [0], [1, 1, 2, 0]⟩ := by cbv
  have run' : merge cyclic .ascending [0, 2] [1, 1] [] = .ok ⟨[1, 1], [2, 0], [1, 1, 2, 0]⟩ := by cbv
  obtain rfl := Except.ok.inj ((through []).symm.trans run)
  obtain rfl := Except.ok.inj ((alone []).symm.trans run')
  have falls : Direction.ofRun cyclic [0, 2] = .descending := by decide
  have constant : Direction.ofRun cyclic [1, 1] = .ascending := by decide
  simp only [falls, constant] at left'
  exact ⟨through, left, rfl, by decide, alone, left'⟩

/-! ## ties -/

section Ties

variable {le : α → α → Bool} {xs ys : List α}

/-- The elements of a list that may stand before and after `a`, in their order. -/
def ties (le : α → α → Bool) (a : α) (xs : List α) : List α := xs.filter fun b => le a b && le b a

theorem mem_ties {a b : α} : b ∈ ties le a xs ↔ b ∈ xs ∧ le a b = true ∧ le b a = true := by
  rw [ties, List.mem_filter, Bool.and_eq_true]

theorem ties_append (a : α) (xs ys : List α) : ties le a (xs ++ ys) = ties le a xs ++ ties le a ys :=
  List.filter_append ..

theorem ties_cons (a x : α) (xs : List α) : ties le a (x :: xs) = ties le a [x] ++ ties le a xs :=
  ties_append a [x] xs

variable (trans : ∀ a b c, le a b = true → le b c = true → le a c = true)
  (total : ∀ a b, (le a b || le b a) = true)

include total in
theorem le_self_of_total (a : α) : le a a = true := by simpa using total a a

include trans total in
/-- Among equal elements, a merge puts those of the first run before those of the second. -/
theorem ties_merge (sorted : xs.Pairwise fun a b => le a b = true) (ys : List α) (a : α) :
    ties le a (xs.merge ys le) = ties le a xs ++ ties le a ys := by
  fun_induction List.merge xs ys le with
  | case1 ys => rfl
  | case2 xs nonempty => exact (List.append_nil _).symm
  | case3 x xs y ys _ ih =>
    rw [ties_cons, ih (List.pairwise_cons.1 sorted).2, ties_cons a x xs, List.append_assoc]
  | case4 x xs y ys loses ih =>
    rw [ties_cons, ih sorted, ties_cons a y ys, ← List.append_assoc, ← List.append_assoc]
    congr 1
    -- if `y` is one of the equal elements, then all of the first run come after them
    by_cases tied : le a y = true ∧ le y a = true
    · have none : ties le a (x :: xs) = [] := by
        rw [List.eq_nil_iff_forall_not_mem]
        intro z member
        obtain ⟨here, -, below⟩ := mem_ties.1 member
        have first : le x z = true := by
          rcases List.mem_cons.1 here with rfl | later
          · exact le_self_of_total total z
          · exact (List.pairwise_cons.1 sorted).1 z later
        exact loses (trans x z y first (trans z a y below tied.1))
      rw [none, List.nil_append, List.append_nil]
    · have none : ties le a [y] = [] := by
        rw [List.eq_nil_iff_forall_not_mem]
        intro z member
        obtain ⟨here, both⟩ := mem_ties.1 member
        obtain rfl := List.mem_singleton.1 here
        exact tied both
      rw [none, List.nil_append, List.append_nil]

include trans total in
/-- A stable sort keeps equal elements in their order. -/
theorem ties_mergeSort (xs : List α) (a : α) : ties le a (xs.mergeSort le) = ties le a xs := by
  have all_equal : (ties le a xs).Pairwise fun b c => le b c = true := by
    apply List.pairwise_of_forall_mem_list
    intro b hb c hc
    exact trans b a c (mem_ties.1 hb).2.2 (mem_ties.1 hc).2.1
  have kept : (ties le a xs).Sublist (xs.mergeSort le) :=
    List.sublist_mergeSort trans total all_equal List.filter_sublist
  have within : (ties le a xs).Sublist (ties le a (xs.mergeSort le)) := by
    have := kept.filter fun b => le a b && le b a
    simp only [ties, List.filter_filter, Bool.and_self] at this
    exact this
  have many : (ties le a xs).length = (ties le a (xs.mergeSort le)).length :=
    ((List.mergeSort_perm xs le).filter _).length_eq.symm
  exact (within.eq_of_length many).symm

include total in
theorem mem_of_ties (same : ∀ a, ties le a xs = ties le a ys) {a : α} (member : a ∈ xs) : a ∈ ys := by
  have self := le_self_of_total total a
  have tied : a ∈ ties le a ys := same a ▸ mem_ties.2 ⟨member, self, self⟩
  exact (mem_ties.1 tied).1

include total in
/-- A sorted list is determined by what it holds of each class of equal elements, in which order. -/
theorem eq_of_ties (first : xs.Pairwise fun a b => le a b = true)
    (second : ys.Pairwise fun a b => le a b = true) (same : ∀ a, ties le a xs = ties le a ys) :
    xs = ys := by
  induction xs generalizing ys with
  | nil =>
    cases ys with
    | nil => rfl
    | cons y ys => cases mem_of_ties total (fun a => (same a).symm) (List.mem_cons_self (a := y))
  | cons x xs ih =>
    cases ys with
    | nil => cases mem_of_ties total same (List.mem_cons_self (a := x))
    | cons y ys =>
      have least : ∀ {x y : α} {xs : List α}, (x :: xs).Pairwise (fun a b => le a b = true) →
          y ∈ x :: xs → le x y = true := by
        intro x y xs sorted member
        rcases List.mem_cons.1 member with rfl | later
        · exact le_self_of_total total y
        · exact (List.pairwise_cons.1 sorted).1 y later
      have below := least first (mem_of_ties total (fun a => (same a).symm) (List.mem_cons_self (a := y)))
      have above := least second (mem_of_ties total same (List.mem_cons_self (a := x)))
      have heads := same x
      simp only [ties, List.filter_cons, le_self_of_total total x, below, above, Bool.and_self,
        if_true] at heads
      obtain rfl := List.head_eq_of_cons_eq heads
      congr 1
      refine ih (List.pairwise_cons.1 first).2 (List.pairwise_cons.1 second).2 fun a => ?_
      have := same a
      rw [ties_cons, ties_cons a x ys] at this
      exact List.append_cancel_left this

include trans total in
/-- A merge of two sorted runs is the stable sort of the first followed by the second. -/
theorem merge_eq_mergeSort (first : xs.Pairwise fun a b => le a b = true)
    (second : ys.Pairwise fun a b => le a b = true) :
    xs.merge ys le = (xs ++ ys).mergeSort le := by
  refine eq_of_ties total (List.pairwise_merge trans total xs ys first second)
    (List.pairwise_mergeSort trans total _) fun a => ?_
  rw [ties_merge trans total first, ties_mergeSort trans total, ties_append]

end Ties

/-! ## merging sorted runs -/

namespace Direction

variable {d : Direction} {run : List α} {a b : α}

/-- A run is sorted if no element stands the wrong way round with its neighbour. -/
theorem isSorted_iff [Std.TransCmp cmp] : d.isSorted cmp run = true ↔ SortedTowards cmp d run := by
  induction run with
  | nil => exact ⟨fun _ => .nil, fun _ => rfl⟩
  | cons a run ih =>
    cases run with
    | nil => exact ⟨fun _ => List.pairwise_singleton .., fun _ => rfl⟩
    | cons b run =>
      rw [isSorted_cons_cons, Bool.and_eq_true, ih]
      constructor
      · rintro ⟨first, rest⟩
        refine List.pairwise_cons.2 ⟨fun c member => ?_, rest⟩
        rcases List.mem_cons.1 member with rfl | later
        · exact first
        · exact allows_trans first ((List.pairwise_cons.1 rest).1 c later)
      · intro sorted
        obtain ⟨above, rest⟩ := List.pairwise_cons.1 sorted
        exact ⟨above b List.mem_cons_self, rest⟩

/-- Elements that may stand in either order are equal. -/
theorem allows_and_allows [Std.OrientedCmp cmp] :
    (d.allows cmp a b && d.allows cmp b a) = (cmp a b == .eq) := by
  have swapped : cmp a b = (cmp b a).swap := Std.OrientedCmp.eq_swap
  cases d <;> simp only [allows, swapped] <;> cases cmp b a <;> rfl

theorem ties_allows [Std.OrientedCmp cmp] :
    ties (d.allows cmp) a run = run.filter fun b => cmp a b == .eq := by
  simp only [ties, allows_and_allows]

end Direction

/-- The buffer after a merge of sorted runs is the stable sort of the second followed by the first. -/
theorem buffer_eq_mergeSort [Std.TransCmp cmp] (target : Direction) {run₁ run₂ : List α}
    (sorted₁ : ∃ d, SortedTowards cmp d run₁) (sorted₂ : ∃ d, SortedTowards cmp d run₂) :
    (mergeFrom cmp target (.ofRun cmp run₁) (.ofRun cmp run₂) run₁ run₂).buffer =
      (readTowards target (.ofRun cmp run₂) run₂ ++
        readTowards target (.ofRun cmp run₁) run₁).mergeSort (target.allows cmp) := by
  obtain ⟨_, sorted₁⟩ := sorted₁
  obtain ⟨_, sorted₂⟩ := sorted₂
  have read₁ := sortedTowards_readTowards target (sortedTowards_ofRun sorted₁)
  have read₂ := sortedTowards_readTowards target (sortedTowards_ofRun sorted₂)
  rw [← merge_eq_mergeSort (fun _ _ _ => Direction.allows_trans) (fun _ _ => Direction.allows_total)
    read₂ read₁, mergeFrom]
  simp only [Direction.before_eq_not_allows, merge_not]

/-- A merge of two sorted segments leaves the stable sort of the second followed by the first, both read in
the direction of the merge, whatever the buffer held before.  So all of it is sorted, nothing is lost, and
of equal elements those of the second segment come first, those of each segment as they were read. -/
theorem merge_stable (cmp : α → α → Ordering) [Std.TransCmp cmp] (target : Direction)
    {segment₁ segment₂ : List α} (same : segment₁.length = segment₂.length)
    (nonempty : 0 < segment₁.length) (sorted₁ : ∃ d : Direction, d.isSorted cmp segment₁ = true)
    (sorted₂ : ∃ d : Direction, d.isSorted cmp segment₂ = true) :
    let reading₁ := if Direction.ofRun cmp segment₁ = target then segment₁ else segment₁.reverse
    let reading₂ := if Direction.ofRun cmp segment₂ = target then segment₂ else segment₂.reverse
    ∃ merged, (∀ buffer, merge cmp target segment₁ segment₂ buffer = .ok merged) ∧
      merged.first.length = segment₁.length ∧ merged.second.length = segment₂.length ∧
      merged.first ++ merged.second = merged.buffer ∧
      merged.buffer = (reading₂ ++ reading₁).mergeSort (target.allows cmp) ∧
      target.isSorted cmp merged.buffer = true ∧
      merged.buffer.Perm (segment₁ ++ segment₂) ∧
      ∀ a, merged.buffer.filter (fun b => cmp a b == .eq) =
        reading₂.filter (fun b => cmp a b == .eq) ++ reading₁.filter (fun b => cmp a b == .eq) := by
  intro reading₁ reading₂
  simp only [Direction.isSorted_iff] at sorted₁ sorted₂ ⊢
  have left := interleaves_mergeFrom cmp target (.ofRun cmp segment₁) (.ofRun cmp segment₂) segment₁ segment₂
  have stable := buffer_eq_mergeSort target sorted₁ sorted₂
  refine ⟨_, merge_eq_ok cmp target same nonempty, left.length_first, left.length_second, left.append_eq,
    stable, sortedTowards_buffer target sorted₁ sorted₂, left.perm, fun a => ?_⟩
  have tied : ties (target.allows cmp) a ((reading₂ ++ reading₁).mergeSort (target.allows cmp)) =
      ties (target.allows cmp) a (reading₂ ++ reading₁) :=
    ties_mergeSort (fun _ _ _ => Direction.allows_trans) (fun _ _ => Direction.allows_total) _ a
  simp only [Direction.ties_allows, List.filter_append] at tied
  exact stable ▸ tied

/-- Pairs that are compared by their first part, so that the second tells equal elements apart. -/
theorem merge_stable_pairs :
    [(1, 0), (2, 1), (2, 2)].length = [(2, 3), (2, 4), (1, 5)].length ∧
    Direction.ascending.isSorted (compareOn (Prod.fst : Nat × Nat → Nat)) [(1, 0), (2, 1), (2, 2)] = true ∧
    Direction.descending.isSorted (compareOn (Prod.fst : Nat × Nat → Nat)) [(2, 3), (2, 4), (1, 5)] = true ∧
    (∀ buffer, merge (compareOn (Prod.fst : Nat × Nat → Nat)) .ascending [(1, 0), (2, 1), (2, 2)]
        [(2, 3), (2, 4), (1, 5)] buffer =
      .ok ⟨[(1, 5), (1, 0), (2, 4)], [(2, 3), (2, 1), (2, 2)],
        [(1, 5), (1, 0), (2, 4), (2, 3), (2, 1), (2, 2)]⟩) ∧
    [(1, 5), (1, 0), (2, 4), (2, 3), (2, 1), (2, 2)] =
      [(1, 5), (2, 4), (2, 3), (1, 0), (2, 1), (2, 2)].mergeSort
        (Direction.ascending.allows (compareOn (Prod.fst : Nat × Nat → Nat))) := by
  have first : Direction.ascending.isSorted (compareOn (Prod.fst : Nat × Nat → Nat))
      [(1, 0), (2, 1), (2, 2)] = true := by decide
  have second : Direction.descending.isSorted (compareOn (Prod.fst : Nat × Nat → Nat))
      [(2, 3), (2, 4), (1, 5)] = true := by decide
  obtain ⟨merged, done, -, -, -, stable, -⟩ := merge_stable (compareOn (Prod.fst : Nat × Nat → Nat))
    .ascending (show [(1, 0), (2, 1), (2, 2)].length = [(2, 3), (2, 4), (1, 5)].length from rfl) (by decide)
    ⟨_, first⟩ ⟨_, second⟩
  have run : merge (compareOn (Prod.fst : Nat × Nat → Nat)) .ascending [(1, 0), (2, 1), (2, 2)]
      [(2, 3), (2, 4), (1, 5)] [] = .ok ⟨[(1, 5), (1, 0), (2, 4)], [(2, 3), (2, 1), (2, 2)],
        [(1, 5), (1, 0), (2, 4), (2, 3), (2, 1), (2, 2)]⟩ := by cbv
  obtain rfl := Except.ok.inj ((done []).symm.trans run)
  exact ⟨rfl, first, second, done, stable⟩

end SortNetwork
