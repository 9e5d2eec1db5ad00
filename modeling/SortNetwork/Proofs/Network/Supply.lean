import Mathlib
import SortNetwork.Proofs.Network.Shape

/-!
# SortNetwork.Proofs.Network.Supply

The stages, each worked out when it is asked for.

A block size is followed by its double, if that fits into a word, and a stage by the one at half its distance,
down to distance one.  The supply of stages takes block sizes as long as they do not exceed the number of
segments, and hands out all stages of one before it asks for the next.  It holds no count of what is left: it
runs dry because block sizes grow towards the end of the word and distances shrink.  `stages` bounds the number
of doublings and of halvings by the bits of a word, and neither bound is ever reached.

* `Succession.finite`: a sequence in which every element decides what follows ends if no chain of followers
  goes on for ever.
* `toList_narrowings`, `takeWhile_doublings`: the bounds of `halvings` and `doublings` are large enough.
* `toList_stageSupply`: the supply hands out the stages of the network.
* `stages_on_demand`: which stages these are, in which order, and how many.
-/

namespace SortNetwork

open Std (Iterator Iter IterM)

/-! ## successions -/

/-- What has not been handed out of a sequence in which every element decides what follows it. -/
structure Succession {α : Type} (follow : α → Option α) where
  upcoming : Option α

namespace Succession

variable {α : Type} {follow : α → Option α}

/-- An element is handed out and its follower is next, until nothing follows. -/
instance : Iterator (Succession follow) Id α where
  IsPlausibleStep it
    | .yield later a => it.internalState.upcoming = some a ∧ later = ⟨⟨follow a⟩⟩
    | .skip _ => False
    | .done => it.internalState.upcoming = none
  step it := pure <| .deflate <|
    match it.internalState.upcoming with
    | none => .done rfl
    | some a => .yield ⟨⟨follow a⟩⟩ a ⟨rfl, rfl⟩

/-- The sequence that begins with `first`. -/
def iter (follow : α → Option α) (first : Option α) : Iter (α := Succession follow) α := ⟨⟨first⟩⟩

theorem step_iter_none : (iter follow none).step = .done rfl := by
  simp [iter, Iter.step, IterM.step, Iterator.step]

theorem step_iter_some (a : α) :
    (iter follow (some a)).step = .yield (iter follow (follow a)) a ⟨rfl, rfl⟩ := by
  simp [iter, Iter.step, IterM.step, Iterator.step, IterM.toIter]

/-- Where no chain of followers goes on for ever, every sequence comes to its end. -/
theorem finite (ends : WellFounded fun later earlier => follow earlier = some later) :
    Std.Iterators.Finite (Succession follow) Id := by
  refine .of_finitenessRelation {
    Rel := InvImage (Option.lt fun later earlier => follow earlier = some later)
      fun it => it.internalState.upcoming
    wf := InvImage.wf _ (Option.wellFounded_lt ends)
    subrelation := ?_ }
  rintro it after ⟨step, successor, answered⟩
  cases step with
  | yield later a =>
    obtain ⟨here, rfl⟩ := answered
    cases successor
    simp only [InvImage, here]
    -- `Option.lt` has the end of the sequence, where nothing is upcoming, below all elements
    cases next : follow a with
    | none => trivial
    | some b => exact next
  | skip => cases answered
  | done => cases successor

variable [Std.Iterators.Finite (Succession follow) Id]

theorem toList_iter_none : (iter follow none).toList = [] := by
  rw [Iter.toList_eq_match_step, step_iter_none]

theorem toList_iter_some (a : α) :
    (iter follow (some a)).toList = a :: (iter follow (follow a)).toList := by
  rw [Iter.toList_eq_match_step, step_iter_some]

end Succession

/-! ## distances -/

namespace Stage

/-- The stage of the same blocks at half the distance, unless the distance is one. -/
def narrowed? (stage : Stage) : Option Stage :=
  if 1 < stage.j then some ⟨stage.k, stage.j / 2⟩ else none

instance : Std.Iterators.Finite (Succession narrowed?) Id := by
  refine Succession.finite (Subrelation.wf ?_ (measure Stage.j).wf)
  intro later earlier next
  obtain ⟨large, same⟩ := Option.ite_none_right_eq_some.1 next
  obtain rfl := Option.some.inj same
  exact Nat.div_lt_self (by omega) (by decide)

end Stage

/-- A number below `2 ^ (left + 1)` is halved no more than `left` times, so `halvings` lists all distances. -/
theorem toList_narrowings {left j : Nat} (k : Nat) (enough : j < 2 ^ (left + 1)) :
    (Succession.iter Stage.narrowed? (some ⟨k, j⟩)).toList =
      (halvings (left + 1) j).map fun j => ⟨k, j⟩ := by
  induction left generalizing j with
  | zero =>
    have last : ¬1 < j := by omega
    rw [Succession.toList_iter_some, Stage.narrowed?, halvings, List.map_cons, if_neg last, if_neg last,
      Succession.toList_iter_none, List.map_nil]
  | succ left ih =>
    rw [Succession.toList_iter_some, Stage.narrowed?, halvings, List.map_cons]
    by_cases large : 1 < j
    · rw [if_pos large, if_pos large, ih (j := j / 2) (by omega)]
    · rw [if_neg large, if_neg large, Succession.toList_iter_none, List.map_nil]

/-! ## block sizes -/

/-- How many segments a block consists of: at least one. -/
@[ext]
structure BlockSize where
  segments : Nat
  pos : 0 < segments

namespace BlockSize

/-- Twice a block size, if that fits into a word. -/
def doubled? (size : BlockSize) : Option BlockSize :=
  match made : Word.mul size.segments 2 with
  | .ok double => some ⟨double, (Word.mul_eq_ok_iff.1 made).2 ▸ Nat.mul_pos size.pos (by decide)⟩
  | .error _ => none

theorem doubled?_eq_some_iff {size later : BlockSize} :
    size.doubled? = some later ↔ Word.mul size.segments 2 = .ok later.segments := by
  unfold doubled?
  split
  · next double made => simp [made, BlockSize.ext_iff]
  · next made => simp [made]

theorem doubled?_eq_none_iff {size : BlockSize} :
    size.doubled? = none ↔ ∃ fault, Word.mul size.segments 2 = .error fault := by
  unfold doubled?
  split
  · next double made => simp [made]
  · next fault made => simp [made]

instance : Std.Iterators.Finite (Succession doubled?) Id := by
  refine Succession.finite (Subrelation.wf ?_ (measure fun size => Word.capacity - size.segments).wf)
  intro later earlier next
  obtain ⟨fits, same⟩ := Word.mul_eq_ok_iff.1 (doubled?_eq_some_iff.1 next)
  have := earlier.pos
  show Word.capacity - later.segments < Word.capacity - earlier.segments
  omega

end BlockSize

variable {n : Nat}

/-- If doubling `left` times leads past the end of a word, `doublings` lists all block sizes up to the limit. -/
theorem takeWhile_doublings (left : Nat) (size : BlockSize) (fits : n < Word.capacity)
    (enough : Word.capacity ≤ size.segments * 2 ^ left) :
    ((Succession.iter BlockSize.doubled? (some size)).toList.takeWhile fun size =>
      size.segments ≤ n).map BlockSize.segments = doublings left size.segments n := by
  induction left generalizing size with
  | zero =>
    -- the bound is used up only past the limit, where nothing is listed anyway
    have beyond : ¬size.segments ≤ n := by omega
    rw [Succession.toList_iter_some, List.takeWhile_cons_of_neg (by simpa using beyond)]
    rfl
  | succ left ih =>
    rw [Succession.toList_iter_some, doublings]
    by_cases within : size.segments ≤ n
    · rw [List.takeWhile_cons_of_pos (by simpa using within), if_pos within, List.map_cons]
      congr 1
      cases next : size.doubled? with
      | some later =>
        have made := BlockSize.doubled?_eq_some_iff.1 next
        obtain ⟨-, same⟩ := Word.mul_eq_ok_iff.1 made
        rw [made]
        exact ih later (by rwa [same, Nat.mul_assoc, ← Nat.pow_succ'])
      | none =>
        obtain ⟨fault, made⟩ := BlockSize.doubled?_eq_none_iff.1 next
        rw [made, Succession.toList_iter_none]
        rfl
    · rw [List.takeWhile_cons_of_neg (by simpa using within), if_neg within]
      rfl

/-! ## the stages -/

/-- The stages for `n` segments, each worked out when it is asked for. -/
def stageSupply (n : Nat) :=
  ((Succession.iter BlockSize.doubled? (some ⟨2, by decide⟩)).takeWhile fun size : BlockSize =>
    size.segments ≤ n).flatMap fun size =>
      Succession.iter Stage.narrowed? (some ⟨size.segments, size.segments / 2⟩)

/-- The supply hands out the stages of the network and then runs dry. -/
theorem toList_stageSupply (fits : n < Word.capacity) : (stageSupply n).toList = stages n := by
  have sizes := takeWhile_doublings Word.bits ⟨2, by decide⟩ fits (by decide)
  rw [stageSupply, Iter.toList_flatMap, Iter.toList_map, Iter.toList_takeWhile_of_finite, ← List.flatMap_def,
    stages, ← sizes, List.flatMap_map]
  apply List.flatMap_congr
  intro size handed
  have within : size.segments ≤ n := by simpa using List.mem_takeWhile_imp handed
  exact toList_narrowings size.segments ((Nat.div_le_self ..).trans_lt (within.trans_lt fits))

/-- A stage pairs segments of the same block, and its blocks are no larger than the network. -/
theorem bounds_of_mem_stages (fits : n < Word.capacity) {stage : Stage} (listed : stage ∈ stages n) :
    stage.j < stage.k ∧ stage.k ≤ n := by
  obtain ⟨x, y, below, high, rfl⟩ := (mem_stages_iff fits).1 listed
  have pos : n ≠ 0 := by
    rintro rfl
    rw [Nat.log2_zero] at high
    omega
  exact ⟨Nat.pow_lt_pow_right (by decide) below, (Nat.le_log2 pos).1 high⟩

/-- The stages of any number of segments, be it a power of two or not, can be worked out one at a time: the
supply comes to an end when it has handed out the list, and every number in it is a word.  They are those at
distance `2 ^ y` in blocks of `2 ^ x` segments, for all blocks that are no larger than the network and all
distances within such a block; blocks grow, distances shrink, and no stage is repeated.  There are as many as
`stageCount` says, which needs no number beyond a word either. -/
theorem stages_on_demand (fits : n < Word.capacity) :
    (stageSupply n).ensureTermination.toList = stages n ∧
      (∀ stage, stage ∈ stages n ↔ ∃ x y, 1 ≤ x ∧ 2 ^ x ≤ n ∧ y < x ∧ stage = ⟨2 ^ x, 2 ^ y⟩) ∧
      (stages n).Pairwise Stage.Before ∧ (stages n).Nodup ∧
      (∀ stage ∈ stages n, stage.j < stage.k ∧ stage.k < Word.capacity) ∧
      (stages n).length = stageCount n ∧ n.log2 * (n.log2 + 1) < Word.capacity := by
  refine ⟨?_, fun stage => ⟨fun listed => ?_, ?_⟩, pairwise_before_stages fits, nodup_stages fits, ?_,
    length_stages fits, ?_⟩
  · rw [Iter.toList_ensureTermination, toList_stageSupply fits]
  · obtain ⟨x, y, below, -, rfl⟩ := (mem_stages_iff fits).1 listed
    exact ⟨x, y, by omega, (bounds_of_mem_stages fits listed).2, below, rfl⟩
  · rintro ⟨x, y, -, within, below, rfl⟩
    have pos : n ≠ 0 := Nat.ne_of_gt ((Nat.two_pow_pos x).trans_le within)
    exact (mem_stages_iff fits).2 ⟨x, y, below, (Nat.le_log2 pos).2 within, rfl⟩
  · intro stage listed
    obtain ⟨near, within⟩ := bounds_of_mem_stages fits listed
    exact ⟨near, within.trans_lt fits⟩
  · have few : n.log2 < Word.bits := log2_lt_bits fits
    exact (Nat.mul_le_mul few.le (Nat.succ_le_of_lt few)).trans_lt (by decide)

/-- The largest number in a word is no power of two, and the last block size in its supply is one that cannot
be doubled in a word. -/
theorem stages_on_demand_largest :
    2 ^ 64 - 1 < Word.capacity ∧ Word.mul (2 ^ 63) 2 = .error .multiplicationOverflow ∧
      (stageSupply (2 ^ 64 - 1)).ensureTermination.toList = stages (2 ^ 64 - 1) ∧
      ⟨2 ^ 63, 1⟩ ∈ stages (2 ^ 64 - 1) ∧ (stages (2 ^ 64 - 1)).length = 2016 := by
  have fits : 2 ^ 64 - 1 < Word.capacity := by decide
  obtain ⟨supplied, listed, -, -, -, count, -⟩ := stages_on_demand fits
  have last : ⟨2 ^ 63, 1⟩ ∈ stages (2 ^ 64 - 1) :=
    (listed _).2 ⟨63, 0, by decide, by decide, by decide, rfl⟩
  exact ⟨fits, by decide, supplied, last, count.trans (by decide)⟩

end SortNetwork
