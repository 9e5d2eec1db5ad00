import Mathlib
import SortNetwork.Proofs.Network.Weights

/-!
# SortNetwork.Proofs.Network.Runs

The network sorts elements, and it sorts segments.

A merge of two sorted runs is sorted (`sortedTowards_buffer`), and it moves as many elements above a
bound to one side as fit there.  Counting those elements turns the network on segments into the network
on weights, which leaves a heap in each block for every bound.  If two elements of a block stood the wrong
way round, the heap for one of them as the bound would be broken.

So the stages of a network of `2 ^ x` sort every block of as many, in alternating directions; the whole of
a larger network is its only block.

* `sortedTowards_block_runs`: the segments of a block are sorted, each and together.
* `sortedTowards_block_elements`: the same of single elements.
-/

namespace SortNetwork

variable {α : Type} {cmp : α → α → Ordering}

/-! ## directions as orders -/

namespace Direction

variable {d : Direction} {a b c : α}

theorem allows_trans [Std.TransCmp cmp] (first : d.allows cmp a b = true)
    (second : d.allows cmp b c = true) : d.allows cmp a c = true := by
  cases d with
  | ascending =>
    simp only [allows, bne_iff_ne, ne_eq, ← Ordering.isLE_iff_ne_gt] at *
    exact Std.TransCmp.isLE_trans first second
  | descending =>
    simp only [allows, bne_iff_ne, ne_eq, ← Ordering.isGE_iff_ne_lt] at *
    exact Std.TransCmp.isGE_trans first second

theorem allows_opposite [Std.OrientedCmp cmp] : d.opposite.allows cmp a b = d.allows cmp b a := by
  have swapped : cmp a b = (cmp b a).swap := Std.OrientedCmp.eq_swap
  cases d <;> simp only [opposite, allows, swapped] <;> cases cmp b a <;> rfl

/-- An element must go first exactly if the other may not. -/
theorem before_eq_not_allows [Std.OrientedCmp cmp] : d.before cmp a b = !d.allows cmp b a := by
  have swapped : cmp a b = (cmp b a).swap := Std.OrientedCmp.eq_swap
  cases d <;> simp only [before, allows, swapped] <;> cases cmp b a <;> rfl

theorem allows_total [Std.OrientedCmp cmp] : (d.allows cmp a b || d.allows cmp b a) = true := by
  have swapped : cmp a b = (cmp b a).swap := Std.OrientedCmp.eq_swap
  cases d <;> simp only [allows, swapped] <;> cases cmp b a <;> rfl

theorem ascending_allows : Direction.ascending.allows cmp a b = (cmp a b).isLE := by
  simp only [allows]
  cases cmp a b <;> rfl

end Direction

/-- A run sorted in a direction. -/
def SortedTowards (cmp : α → α → Ordering) (d : Direction) (run : List α) : Prop :=
  run.Pairwise fun a b => d.allows cmp a b = true

theorem SortedTowards.reverse [Std.OrientedCmp cmp] {d : Direction} {run : List α}
    (sorted : SortedTowards cmp d run) : SortedTowards cmp d.opposite run.reverse := by
  refine List.pairwise_reverse.2 (sorted.imp ?_)
  intro a b allowed
  rw [Direction.allows_opposite]
  exact allowed

section Ends

variable [Std.TransCmp cmp] {d : Direction} {run : List α} {a first last : α}

theorem SortedTowards.allows_of_head (sorted : SortedTowards cmp d run) (starts : run.head? = some first)
    (member : a ∈ run) : d.allows cmp first a = true := by
  cases run with
  | nil => cases starts
  | cons b rest =>
    obtain rfl := Option.some.inj starts
    rcases List.mem_cons.1 member with rfl | tail
    · simpa using @Direction.allows_total _ cmp d a a _
    · exact (List.pairwise_cons.1 sorted).1 a tail

theorem SortedTowards.allows_getLast (sorted : SortedTowards cmp d run)
    (ends : run.getLast? = some last) (member : a ∈ run) : d.allows cmp a last = true := by
  have back := sorted.reverse.allows_of_head (a := a) (by rw [List.head?_reverse, ends])
    (List.mem_reverse.2 member)
  rwa [Direction.allows_opposite] at back

/-- A sorted run whose last element may also go before the first is sorted both ways. -/
theorem SortedTowards.opposite (sorted : SortedTowards cmp d run) (starts : run.head? = some first)
    (ends : run.getLast? = some last) (constant : d.allows cmp last first = true) :
    SortedTowards cmp d.opposite run := by
  apply List.pairwise_of_forall_mem_list
  intro a ha b hb
  have before := sorted.allows_getLast ends hb
  have after := sorted.allows_of_head starts ha
  rw [Direction.allows_opposite]
  exact Direction.allows_trans before (Direction.allows_trans constant after)

/-- A run sorted in some direction is sorted in the one read off its ends. -/
theorem sortedTowards_ofRun (sorted : SortedTowards cmp d run) :
    SortedTowards cmp (.ofRun cmp run) run := by
  unfold Direction.ofRun
  split
  · next first last starts ends =>
    have outer := sorted.allows_of_head starts (List.mem_of_getLast? ends)
    split
    · next falls =>
      cases d with
      | ascending => simp [Direction.allows, falls] at outer
      | descending => exact sorted
    · next rises =>
      cases d with
      | ascending => exact sorted
      | descending =>
        apply sorted.opposite starts ends
        rw [← Direction.allows_opposite]
        simpa [Direction.opposite, Direction.allows] using rises
  · next empty =>
    cases run with
    | nil => exact .nil
    | cons a rest => exact absurd List.getLast?_cons (empty a _ rfl)

end Ends

/-! ## merging sorted runs -/

section Merge

variable [Std.TransCmp cmp] {d : Direction} {run run₁ run₂ : List α} (target : Direction)

/-- A merge reads a sorted run in the direction it merges towards. -/
theorem sortedTowards_readTowards (sorted : SortedTowards cmp d run) :
    SortedTowards cmp target (readTowards target d run) := by
  unfold readTowards
  split
  · next same => exact same ▸ sorted
  · next other =>
    have : target = d.opposite := by cases target <;> cases d <;> first | rfl | exact absurd rfl other
    exact this ▸ sorted.reverse

omit [Std.TransCmp cmp] in
/-- A merge that prefers the second run on ties is the merge of the runs in the other order that prefers
the first. -/
theorem merge_not (le : α → α → Bool) (xs ys : List α) :
    (xs.merge ys fun a b => !le b a) = ys.merge xs le := by
  induction xs generalizing ys with
  | nil => simp
  | cons x xs ihx =>
    induction ys with
    | nil => simp
    | cons y ys ihy =>
      rw [List.cons_merge_cons, List.cons_merge_cons]
      cases le y x with
      | true => simpa using ihy
      | false => simpa using ihx (y :: ys)

/-- A merge of sorted runs is sorted. -/
theorem sortedTowards_buffer (sorted₁ : ∃ d, SortedTowards cmp d run₁)
    (sorted₂ : ∃ d, SortedTowards cmp d run₂) :
    SortedTowards cmp target
      (mergeFrom cmp target (.ofRun cmp run₁) (.ofRun cmp run₂) run₁ run₂).buffer := by
  obtain ⟨_, sorted₁⟩ := sorted₁
  obtain ⟨_, sorted₂⟩ := sorted₂
  have read₁ := sortedTowards_readTowards target (sortedTowards_ofRun sorted₁)
  have read₂ := sortedTowards_readTowards target (sortedTowards_ofRun sorted₂)
  unfold mergeFrom
  simp only [Direction.before_eq_not_allows, merge_not]
  exact List.pairwise_merge (fun _ _ _ => Direction.allows_trans) (fun _ _ => Direction.allows_total)
    _ _ read₂ read₁

end Merge

/-! ## counting above a bound -/

/-- A predicate that holds of everything above an element of which it holds. -/
def UpClosed (cmp : α → α → Ordering) (p : α → Bool) : Prop :=
  ∀ a b, (cmp a b).isLE = true → p a = true → p b = true

section Count

variable {p : α → Bool} {run : List α}

/-- The elements above a bound stand at the end of an ascending run. -/
theorem countP_drop_of_ascending (up : UpClosed cmp p) (sorted : SortedTowards cmp .ascending run)
    (k : Nat) : (run.drop k).countP p = min (run.length - k) (run.countP p) := by
  induction run generalizing k with
  | nil => simp
  | cons a run ih =>
    obtain ⟨above, rest⟩ := List.pairwise_cons.1 sorted
    have few := List.countP_le_length (p := p) (l := run)
    cases k with
    | zero =>
      have := List.countP_le_length (p := p) (l := a :: run)
      simp only [List.drop_zero, Nat.sub_zero]
      omega
    | succ k =>
      rw [List.drop_succ_cons, ih rest, List.length_cons, List.countP_cons]
      by_cases ha : p a = true
      · have all : run.countP p = run.length := by
          rw [List.countP_eq_length]
          intro b hb
          exact up a b (by simpa [Direction.ascending_allows] using above b hb) ha
        rw [if_pos ha]
        omega
      · rw [if_neg ha]
        omega

theorem countP_take_of_ascending (up : UpClosed cmp p) (sorted : SortedTowards cmp .ascending run)
    (k : Nat) : (run.take k).countP p = run.countP p - (run.length - k) := by
  have whole : run.countP p = (run.take k).countP p + (run.drop k).countP p := by
    rw [← List.countP_append, List.take_append_drop]
  rw [countP_drop_of_ascending up sorted] at whole
  omega

/-- The elements above a bound stand at the beginning of a descending run. -/
theorem countP_take_of_descending [Std.OrientedCmp cmp] (up : UpClosed cmp p)
    (sorted : SortedTowards cmp .descending run) {k : Nat} (within : k ≤ run.length) :
    (run.take k).countP p = min k (run.countP p) := by
  have turned := countP_drop_of_ascending up sorted.reverse (run.length - k)
  rw [List.drop_reverse, List.countP_reverse, List.countP_reverse, List.length_reverse] at turned
  rw [show run.length - (run.length - k) = k by omega] at turned
  exact turned

end Count

/-! ## the network -/

variable {order : ElementOrder α} {m x q : Nat}

/-- A run of a size that is sorted in some direction. -/
def IsRun (cmp : α → α → Ordering) (size : Nat) (run : List α) : Prop :=
  run.length = size ∧ ∃ d, SortedTowards cmp d run

/-- Both halves of a merge of two runs are sorted towards the direction of the merge. -/
theorem sortedTowards_merge_runs {size : Nat} {d : Direction} {run₁ run₂ : List α}
    (is₁ : IsRun order.cmp size run₁) (is₂ : IsRun order.cmp size run₂) :
    SortedTowards order.cmp d ((Rule.runs order).merge d run₁ run₂).1 ∧
      SortedTowards order.cmp d ((Rule.runs order).merge d run₁ run₂).2 := by
  have := order.trans_cmp
  have sorted := sortedTowards_buffer d is₁.2 is₂.2
  exact ⟨sorted.take, sorted.drop⟩

/-- Counting the elements above a bound follows the rule of weights. -/
theorem agree_runs {p : α → Bool} (up : UpClosed order.cmp p) (size : Nat) :
    Rule.Agree (Rule.runs order) (Rule.weights size) (List.countP p) (IsRun order.cmp size) := by
  have := order.trans_cmp
  have counts : ∀ d run₁ run₂, IsRun order.cmp size run₁ → IsRun order.cmp size run₂ →
      (((Rule.runs order).merge d run₁ run₂).1.countP p,
        ((Rule.runs order).merge d run₁ run₂).2.countP p) =
        (Rule.weights size).merge d (run₁.countP p) (run₂.countP p) := by
    intro d run₁ run₂ is₁ is₂
    let buffer := (mergeFrom order.cmp d (.ofRun order.cmp run₁) (.ofRun order.cmp run₂) run₁ run₂).buffer
    have sorted : SortedTowards order.cmp d buffer := sortedTowards_buffer d is₁.2 is₂.2
    have long : buffer.length = size + size := by
      simp only [buffer, length_buffer_mergeFrom, is₁.1, is₂.1]
    have all : buffer.countP p = run₁.countP p + run₂.countP p := by
      rw [(buffer_mergeFrom_perm ..).countP_eq, List.countP_append]
    have both := congrArg (List.countP p) (List.take_append_drop size buffer)
    rw [List.countP_append, all] at both
    have halves : (Rule.runs order).merge d run₁ run₂ = (buffer.take size, buffer.drop size) := by
      simp only [Rule.runs, mergeFrom, is₁.1, buffer]
    rw [halves]
    cases d with
    | ascending =>
      have := countP_take_of_ascending up sorted size
      rw [all, long] at this
      simp only [Rule.weights, Prod.mk.injEq]
      omega
    | descending =>
      have := countP_take_of_descending up sorted (show size ≤ buffer.length by omega)
      rw [all] at this
      simp only [Rule.weights, Prod.mk.injEq]
      omega
  exact {
    occurs_fst := fun d a b ha hb =>
      ⟨by simp [Rule.runs, ha.1], d, (sortedTowards_merge_runs ha hb).1⟩
    occurs_snd := fun d a b ha hb =>
      ⟨by simp [Rule.runs, hb.1], d, (sortedTowards_merge_runs ha hb).2⟩
    map_fst := fun d a b ha hb => congrArg Prod.fst (counts d a b ha hb)
    map_snd := fun d a b ha hb => congrArg Prod.snd (counts d a b ha hb) }

/-- Whether an element lies above a bound follows the rule of weights, with cells of capacity one. -/
theorem agree_elements [Std.TransCmp cmp] {p : α → Bool} (up : UpClosed cmp p) :
    Rule.Agree (Rule.elements cmp) (Rule.weights 1) (fun a => (p a).toNat) fun _ => True := by
  have weights : ∀ d a b,
      ((p ((Rule.elements cmp).merge d a b).1).toNat, (p ((Rule.elements cmp).merge d a b).2).toNat) =
        (Rule.weights 1).merge d (p a).toNat (p b).toNat := by
    intro d a b
    have swapped : cmp a b = (cmp b a).swap := Std.OrientedCmp.eq_swap
    have forwards := up a b
    have backwards := up b a
    rw [swapped] at forwards
    simp only [Rule.elements, Direction.before_eq_not_allows, Direction.allows_opposite]
    cases d <;> simp only [Direction.allows, Rule.weights, swapped] <;>
      cases hc : cmp b a <;> cases ha : p a <;> cases hb : p b <;> simp_all
  exact {
    occurs_fst := fun _ _ _ _ _ => trivial
    occurs_snd := fun _ _ _ _ _ => trivial
    map_fst := fun d a b _ _ => congrArg Prod.fst (weights d a b)
    map_snd := fun d a b _ _ => congrArg Prod.snd (weights d a b) }

/-- The elements at or above a bound. -/
theorem upClosed_above (cmp : α → α → Ordering) [Std.TransCmp cmp] (bound : α) :
    UpClosed cmp fun a => (cmp bound a).isLE :=
  fun _ _ below above => Std.TransCmp.isLE_trans above below

/-- Cells that a rule of weights describes are heaped up in each block, so weight in a cell fills all cells
of its block that come after it. -/
theorem full_of_agree {β : Type} {rule : Rule β} {L : Nat} {f : β → Nat} {Occurs : β → Prop}
    (agree : Rule.Agree rule (Rule.weights L) f Occurs) (pos : 0 < L) (fits : 2 ^ m < Word.capacity)
    (within : x ≤ m) (bounded : ∀ a, Occurs a → f a ≤ L) {cells : Nat → β}
    (occurs : ∀ i < 2 ^ m, Occurs (cells i)) {i j : Nat} (block : 2 ^ x * q + 2 ^ x ≤ 2 ^ m)
    (first : i < 2 ^ x) (second : j < 2 ^ x) (precedes : (Direction.ofBlock q).Precedes i j)
    (filled : 0 < f (rule.through cells (stages (2 ^ x)) (2 ^ x * q + i))) :
    f (rule.through cells (stages (2 ^ x)) (2 ^ x * q + j)) = L := by
  let weights : Nat → Nat := fun i => if i < 2 ^ m then f (cells i) else 0
  have same : ∀ i < 2 ^ m, f (cells i) = weights i := fun i h => (if_pos h).symm
  have small : ∀ i, weights i ≤ L := by
    intro i
    simp only [weights]
    split
    · next h => exact bounded _ (occurs i h)
    · exact Nat.zero_le L
  have image := fun i inside =>
    (Rule.map_through agree fits (mem_stages_of_le fits within) occurs same (i := i) inside).2
  have few := two_pow_lt_capacity fits within
  obtain ⟨T, -, heap⟩ := heaped_through_stages (n := 2 ^ m) pos few small q block
  rw [image _ (by omega), heap i first] at filled
  rw [image _ (by omega), heap j second]
  exact heaped_full first second precedes filled

/-- What comes before in the direction of a block may stand before it. -/
theorem allows_of_precedes [Std.OrientedCmp cmp] {d : Direction} {i j : Nat} {a b : α} (before : i < j)
    (ascending : d.Precedes i j → (cmp a b).isLE = true)
    (descending : d.Precedes j i → (cmp b a).isLE = true) : d.allows cmp a b = true := by
  cases d with
  | ascending =>
    rw [Direction.ascending_allows]
    exact ascending before
  | descending =>
    have turned := @Direction.allows_opposite _ cmp .ascending a b _
    rw [Direction.ascending_allows] at turned
    exact turned.trans (descending before)

section Segments

variable {size : Nat} {cells : Nat → List α}

/-- The stages of a network keep runs of a size what they are. -/
theorem isRun_through_stages (fits : 2 ^ m < Word.capacity) {sts : List Stage}
    (listed : ∀ stage ∈ sts, stage ∈ stages (2 ^ m)) (are : ∀ i < 2 ^ m, IsRun order.cmp size (cells i))
    {i : Nat} (inside : i < 2 ^ m) : IsRun order.cmp size ((Rule.runs order).through cells sts i) := by
  have agree : Rule.Agree (Rule.runs order) _ (List.countP fun _ => true) _ :=
    agree_runs (fun _ _ _ _ => rfl) size
  exact (Rule.map_through agree fits listed are (fun _ _ => rfl) inside).1

/-- The elements of two segments of a block stand as the direction of the block says. -/
theorem allows_through_stages_runs (pos : 0 < size) (fits : 2 ^ m < Word.capacity) (within : x ≤ m)
    (are : ∀ i < 2 ^ m, IsRun order.cmp size (cells i)) (block : 2 ^ x * q + 2 ^ x ≤ 2 ^ m) {i j : Nat}
    (before : i < j) (inside : j < 2 ^ x) {a b : α}
    (ha : a ∈ (Rule.runs order).through cells (stages (2 ^ x)) (2 ^ x * q + i))
    (hb : b ∈ (Rule.runs order).through cells (stages (2 ^ x)) (2 ^ x * q + j)) :
    (Direction.ofBlock q).allows order.cmp a b = true := by
  have := order.trans_cmp
  -- a segment that holds an element at or above a bound leaves none below the bound in those after it
  have rises : ∀ i j a b, i < 2 ^ x → j < 2 ^ x → (Direction.ofBlock q).Precedes i j →
      a ∈ (Rule.runs order).through cells (stages (2 ^ x)) (2 ^ x * q + i) →
      b ∈ (Rule.runs order).through cells (stages (2 ^ x)) (2 ^ x * q + j) →
      (order.cmp a b).isLE = true := by
    intro i j a b first second precedes ha hb
    have agree := agree_runs (upClosed_above order.cmp a) size
    have filled := List.countP_pos_iff (p := fun b => (order.cmp a b).isLE).2 ⟨a, ha, Std.ReflCmp.isLE_rfl⟩
    have full := full_of_agree agree pos fits within (fun run is => is.1 ▸ List.countP_le_length) are
      block first second precedes filled
    have long := (isRun_through_stages fits (mem_stages_of_le fits within) are
      (i := 2 ^ x * q + j) (by omega)).1
    exact List.countP_eq_length.1 (full.trans long.symm) b hb
  exact allows_of_precedes before (fun precedes => rises i j a b (by omega) inside precedes ha hb)
    fun precedes => rises j i b a inside (by omega) precedes hb ha

/-- The last stage of a network merges in every block of its size in the direction of the block. -/
theorem exists_last_stage (fits : 2 ^ (x + 1) < Word.capacity) :
    ∃ sts last, stages (2 ^ (x + 1)) = sts ++ [last] ∧
      ∀ i, (last.pairAt i).direction = .ofBlock (i / 2 ^ (x + 1)) := by
  refine ⟨(List.range' 1 x).flatMap (fun x => phase x x) ++
    ((List.range x).reverse.map fun y => ⟨2 ^ (x + 1), 2 ^ (y + 1)⟩), ⟨2 ^ (x + 1), 2 ^ 0⟩, ?_, ?_⟩
  · rw [stages_eq fits, Nat.log2_two_pow, List.range'_concat, List.flatMap_append, List.append_assoc]
    congr 1
    simp [List.range_succ_eq_map, Nat.add_comm 1 x, Function.comp_def]
  · intro i
    have direction := Stage.direction_two_pow (x := x + 1) (y := 0)
      (i := (Stage.pairAt ⟨2 ^ (x + 1), 2 ^ 0⟩ i).lower)
    have same : (Stage.pairAt ⟨2 ^ (x + 1), 2 ^ 0⟩ i).lower / 2 ^ (x + 1) = i / 2 ^ (x + 1) := by
      rw [Stage.lower_pairAt]
      rcases min_choice i (i ^^^ 2 ^ 0) with h | h
      · rw [h]
      · rw [h, xor_div_of_lt (Nat.succ_pos x)]
    rw [same] at direction
    exact direction

/-- After its last stage every segment is sorted in the direction of its block. -/
theorem sortedTowards_through_stages_runs (fits : 2 ^ m < Word.capacity) (within : x + 1 ≤ m)
    (are : ∀ i < 2 ^ m, IsRun order.cmp size (cells i)) {i : Nat} (inside : i < 2 ^ m) :
    SortedTowards order.cmp (.ofBlock (i / 2 ^ (x + 1)))
      ((Rule.runs order).through cells (stages (2 ^ (x + 1))) i) := by
  obtain ⟨sts, last, split, points⟩ :=
    exists_last_stage (two_pow_lt_capacity fits within)
  have listed := mem_stages_of_le fits within
  rw [split] at listed
  have reach := fun i inside => isRun_through_stages fits
    (fun stage member => listed stage (List.mem_append_left _ member)) are (i := i) inside
  have final : last ∈ stages (2 ^ m) := listed last (List.mem_append_right _ (by simp))
  have high := Stage.upper_pairAt_lt fits final inside
  have low := Nat.lt_trans (Stage.lower_lt_upper_pairAt (i := i) fits final) high
  have merged := sortedTowards_merge_runs (d := .ofBlock (i / 2 ^ (x + 1))) (reach _ low) (reach _ high)
  rw [split, Rule.through_append, Rule.through_cons, Rule.through_nil]
  simp only [Stage.apply, points i]
  split
  · exact merged.1
  · exact merged.2

/-- The stages of a network of `2 ^ x` segments sort every block of as many in its direction.  Where there
are no stages, that is so of blocks that ascend. -/
theorem sortedTowards_block_runs (pos : 0 < size) (fits : 2 ^ m < Word.capacity) (within : x ≤ m)
    (turns : 0 < x ∨ q = 0)
    (are : ∀ i < 2 ^ m, (cells i).length = size ∧ SortedTowards order.cmp .ascending (cells i))
    (block : 2 ^ x * q + 2 ^ x ≤ 2 ^ m) :
    SortedTowards order.cmp (.ofBlock q)
      ((List.range' (2 ^ x * q) (2 ^ x)).flatMap
        ((Rule.runs order).through cells (stages (2 ^ x)))) := by
  have runs : ∀ i < 2 ^ m, IsRun order.cmp size (cells i) := fun i inside =>
    ⟨(are i inside).1, _, (are i inside).2⟩
  rw [List.range'_eq_map_range, List.flatMap_map]
  refine List.pairwise_flatMap.2 ⟨fun r member => ?_, ?_⟩
  · have low := List.mem_range.1 member
    cases x with
    | zero =>
      obtain rfl : q = 0 := by omega
      exact (are _ (by omega)).2
    | succ x =>
      have here : (2 ^ (x + 1) * q + r) / 2 ^ (x + 1) = q := by
        rw [Nat.mul_add_div (Nat.two_pow_pos _), Nat.div_eq_of_lt low, Nat.add_zero]
      have sorted :=
        sortedTowards_through_stages_runs fits within runs (i := 2 ^ (x + 1) * q + r) (by omega)
      rwa [here] at sorted
  · rw [List.pairwise_iff_getElem]
    intro i j hi hj before a ha b hb
    rw [List.length_range] at hj
    rw [List.getElem_range] at ha hb
    exact allows_through_stages_runs pos fits within runs block before hj ha hb

end Segments

/-- The stages of a network of `2 ^ x` elements sort every block of as many in its direction. -/
theorem sortedTowards_block_elements [Std.TransCmp cmp] (fits : 2 ^ m < Word.capacity) (within : x ≤ m)
    (cells : Nat → α) (block : 2 ^ x * q + 2 ^ x ≤ 2 ^ m) :
    SortedTowards cmp (.ofBlock q)
      ((List.range' (2 ^ x * q) (2 ^ x)).map
        ((Rule.elements cmp).through cells (stages (2 ^ x)))) := by
  let final := (Rule.elements cmp).through cells (stages (2 ^ x))
  have rises : ∀ i j, i < 2 ^ x → j < 2 ^ x → (Direction.ofBlock q).Precedes i j →
      (cmp (final (2 ^ x * q + i)) (final (2 ^ x * q + j))).isLE = true := by
    intro i j first second precedes
    have agree := agree_elements (upClosed_above cmp (final (2 ^ x * q + i)))
    have positive : 0 < ((cmp (final (2 ^ x * q + i)) (final (2 ^ x * q + i))).isLE).toNat := by
      rw [Std.ReflCmp.isLE_rfl]
      exact Nat.one_pos
    have filled := full_of_agree agree Nat.one_pos fits within (fun _ _ => Bool.toNat_le _)
      (fun _ _ => trivial) block first second precedes positive
    exact Bool.toNat_eq_one.1 filled
  rw [List.range'_eq_map_range, List.map_map]
  refine List.pairwise_map.2 (List.pairwise_iff_getElem.2 fun i j hi hj before => ?_)
  rw [List.length_range] at hj
  rw [List.getElem_range, List.getElem_range]
  exact allows_of_precedes before (rises i j (by omega) hj) (rises j i hj (by omega))

end SortNetwork
