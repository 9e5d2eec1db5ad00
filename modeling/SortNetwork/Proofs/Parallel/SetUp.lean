import Mathlib
import SortNetwork.Proofs.Parallel.Orderly
import SortNetwork.Parallel.Routine

/-!
# SortNetwork.Proofs.Parallel.SetUp

The first state of a sort.

If the workers divide the segments, every check of the set-up passes but perhaps that of the buffers, and
the outline of the state can be written down (`exists_setUp`, `exists_firstState`).  The shares follow each
other without gaps, so the workers have all tasks before them (`pending_outline`).
-/

namespace SortNetwork.Parallel

variable {α : Type} {threads n w : Nat}

/-! ## shares and peers -/

/-- The share of a worker, if the workers divide the segments. -/
def shareOf (threads n w : Nat) : Partition := ⟨w, w * (n / threads), w * (n / threads) + n / threads⟩

/-- The other workers, starting with the next one and going round. -/
def peersOf (threads w : Nat) :
    List Nat := (List.range' 1 (threads - 1)).map fun offset => (w + offset) % threads

/-- Every share ends within the segments. -/
theorem high_shareOf_le (inside : w < threads) : w * (n / threads) + n / threads ≤ n := by
  have : (w + 1) * (n / threads) ≤ threads * (n / threads) := Nat.mul_le_mul_right _ inside
  rw [Nat.succ_mul] at this
  exact this.trans (Nat.mul_div_le n threads)

theorem share_eq_ok (fits : n < Word.capacity) (inside : w < threads) :
    Partition.share w threads n = .ok (shareOf threads n w) := by
  rw [Partition.share_eq_ok_iff]
  exact ⟨by omega, (high_shareOf_le inside).trans_lt fits, rfl⟩

theorem peers_eq_ok (fits : 2 * threads ≤ Word.capacity) (inside : w < threads) :
    peers w threads = .ok (peersOf threads w) := by
  refine mapM_eq_ok fun offset member => ?_
  have := (List.mem_range'_1.1 member).2
  rw [Word.add, if_pos (by omega)]
  simp only [bind, Except.bind]
  rw [Word.rem, if_neg (by omega)]

theorem mem_peersOf {owner : Nat} (inside : w < threads) (member : owner ∈ peersOf threads w) :
    owner < threads ∧ owner ≠ w := by
  obtain ⟨offset, within, rfl⟩ := List.mem_map.1 member
  obtain ⟨positive, below⟩ := List.mem_range'_1.1 within
  refine ⟨Nat.mod_lt _ (by omega), fun same => ?_⟩
  by_cases wraps : w + offset < threads
  · rw [Nat.mod_eq_of_lt wraps] at same
    omega
  · rw [Nat.mod_eq_sub_mod (by omega), Nat.mod_eq_of_lt (by omega)] at same
    omega

theorem segments_shareOf :
    (shareOf threads n w).segments = List.range' (w * (n / threads)) (n / threads) := by
  simp [shareOf, Partition.segments]

theorem lt_of_mem_shareOf {i : Nat} (inside : w < threads) (member : i ∈ (shareOf threads n w).segments) :
    i < n := by
  rw [segments_shareOf, List.mem_range'_1] at member
  exact member.2.trans_le (high_shareOf_le inside)

/-- The shares follow each other without gaps. -/
theorem flatMap_segments_shareOf (divides : threads ∣ n) :
    (List.range threads).flatMap (fun w => (shareOf threads n w).segments) = List.range n := by
  simp only [segments_shareOf]
  rw [flatMap_range', Nat.mul_div_cancel' divides]

/-- The pairs of all workers are the pairs of the stage, in order. -/
theorem flatMap_pairs_shareOf (divides : threads ∣ n) (stage : Stage) :
    (List.range threads).flatMap (fun w => (shareOf threads n w).pairs stage) = stage.pairs n := by
  rw [Stage.pairs, ← flatMap_segments_shareOf divides]
  simp only [Partition.pairs, Stage.pairsAmong, List.filterMap_flatMap]

/-- The pairs of a share are merges of the sort. -/
theorem merge_mem_tasks_of_share {stage : Stage} {pair : Pair} (inside : w < threads)
    (listed : stage ∈ stages n)
    (member : pair ∈ (shareOf threads n w).pairs stage) : SegmentTask.merge pair ∈ tasks n := by
  obtain ⟨owned, rfl, partner⟩ := Stage.mem_pairsAmong_iff.1 member
  refine merge_mem_tasks_iff.2 ⟨listed, Stage.mem_pairsAmong_iff.2 ⟨?_, rfl, partner⟩⟩
  exact List.mem_range.2 (lt_of_mem_shareOf inside owned)

/-! ## the tasks of all workers -/

/-- The tasks of a share, in the order in which its worker comes to them. -/
def shareTasks (share : Partition) (stages : List Stage) : List SegmentTask :=
  share.segments.map .sort ++ stages.flatMap fun stage => (share.pairs stage).map .merge

/-- The tasks of all shares are the tasks of the sort. -/
theorem flatMap_shareTasks_perm (divides : threads ∣ n) :
    ((List.range threads).flatMap fun w => shareTasks (shareOf threads n w) (stages n)).Perm
      (tasks n) := by
  let segments := fun w => (shareOf threads n w).segments
  have sorts : (List.range threads).flatMap (fun w => (segments w).map SegmentTask.sort) =
      (List.range n).map .sort := by
    rw [← List.map_flatMap, flatMap_segments_shareOf divides]
  have merges : ∀ stage : Stage,
      (List.range threads).flatMap (fun w => ((shareOf threads n w).pairs stage).map SegmentTask.merge) =
        (stage.pairs n).map .merge := by
    intro stage
    rw [← List.map_flatMap, flatMap_pairs_shareOf divides]
  refine (List.flatMap_append_perm _ _ _).symm.trans ?_
  rw [sorts, tasks, schedule, List.map_flatMap]
  refine ((flatMap_flatMap_perm _ _ _).trans ?_).append_left _
  simp only [merges]
  exact .refl _

/-! ## the first state -/

namespace Routine

/-- The outline of the first state. -/
def outline (routine : Routine) (threads n : Nat) (kind : BarrierKind) : Outline where
  code w := if w < threads then routine.code (shareOf threads n w) (peersOf threads w) (stages n) else []
  between w := if w < threads then routine.between (peersOf threads w) else []
  queue _ := []
  stages _ := 0
  counts _ := 0
  barrier := { kind }

theorem pending_outline {routine : Routine} {kind : BarrierKind} (divides : threads ∣ n)
    (given : ∀ share peers stages, planned (routine.code share peers stages) = shareTasks share stages) :
    ((routine.outline threads n kind).pending threads).Perm (tasks n) := by
  have shares : (routine.outline threads n kind).pending threads =
      (List.range threads).flatMap fun w => shareTasks (shareOf threads n w) (stages n) := by
    refine List.flatMap_congr fun w member => ?_
    simp only [outline, if_pos (List.mem_range.1 member), given, List.append_nil]
  rw [shares]
  exact flatMap_shareTasks_perm divides

/-- What holds of no instructions, and of what each worker has to do at first, holds of the first code. -/
theorem forall_code {routine : Routine} {kind : BarrierKind} {P : Nat → List Instruction → Prop}
    (idle : ∀ w, P w [])
    (busy : ∀ w < threads, P w (routine.code (shareOf threads n w) (peersOf threads w) (stages n)))
    (w : Nat) :
    P w ((routine.outline threads n kind).code w) := by
  simp only [outline]
  split
  · next inside => exact busy w inside
  · exact idle w

/-- A sort starts orderly if its workers have all tasks between them, each tidy. -/
theorem orderly_outline {routine : Routine} {kind : BarrierKind} (divides : threads ∣ n)
    (within : ∀ w < threads, ∀ x ∈ routine.code (shareOf threads n w) (peersOf threads w) (stages n),
      x.Within n threads)
    (tidy : ∀ w < threads, Tidy w (routine.code (shareOf threads n w) (peersOf threads w) (stages n)))
    (looks : ∀ peers, ∀ x ∈ routine.between peers, ∃ owner ∈ peers,
      x = .drain owner ∨ x = .drainIfBehind owner)
    (given : ∀ share peers stages, planned (routine.code share peers stages) = shareTasks share stages) :
    (routine.outline threads n kind).Orderly n threads [] where
  helps := by
    intro w x member
    simp only [outline] at member
    split at member
    · next inside =>
      obtain ⟨owner, peer, here⟩ := looks _ x member
      exact ⟨owner, (mem_peersOf inside peer).1, (mem_peersOf inside peer).2, here⟩
    · cases member
  within := forall_code (P := fun _ code => ∀ x ∈ code, x.Within n threads) (by simp) within
  tended := ⟨forall_code (fun _ => trivial) tidy, fun w holds => absurd rfl holds⟩
  all := pending_outline divides given
  admissible := .nil

/-- What a worker starts with. -/
def workerOf (routine : Routine) (threads n w : Nat) : Worker where
  code := routine.code (shareOf threads n w) (peersOf threads w) (stages n)
  between := routine.between (peersOf threads w)

/-- The first state of a sort of these segments. -/
def firstState (routine : Routine) (threads n : Nat) (kind : BarrierKind) (segments : Segments α) :
    State α where
  store :=
    { segments
      segmentCounts := .start n
      workerCounts := .start threads
      barrier := { kind }
      queues := Array.replicate threads .empty
      scratch := ⟨Array.replicate threads []⟩ }
  workers := ((List.range threads).map (routine.workerOf threads n)).toArray

variable {size k : Nat} {data : List α} {segments : Segments α}

theorem outline_firstState (routine : Routine) (kind : BarrierKind) (segments : Segments α) :
    (routine.firstState threads n kind segments).outline = routine.outline threads n kind := by
  have workers : ∀ w, (routine.firstState threads n kind segments).workers[w]? =
      if w < threads then some (routine.workerOf threads n w) else none := by
    intro w
    simp only [firstState, List.getElem?_toArray, List.getElem?_map]
    split
    · next inside => rw [List.getElem?_range inside]; rfl
    · next outside => rw [List.getElem?_eq_none (by simpa using outside)]; rfl
  have zeros : ∀ size i : Nat, (StageCounts.start size).counts[i]?.getD 0 = 0 := by
    intro size i
    simp only [StageCounts.start, Array.getElem?_replicate]
    split <;> rfl
  simp only [State.outline, outline, workers]
  congr 1
  · funext w
    split <;> rfl
  · funext w
    split <;> rfl
  · funext w
    simp only [firstState, Array.getElem?_replicate]
    split <;> rfl
  · funext w
    exact zeros _ _
  · funext i
    exact zeros _ _

theorem shaped_firstState (routine : Routine) (order : ElementOrder α) (kind : BarrierKind) :
    (routine.firstState threads n kind segments).Shaped (routine.machine order threads) n := by
  constructor <;> simp [firstState, machine, StageCounts.size, StageCounts.start]

/-- A sort whose workers divide the segments can be set up exactly if a word holds the size of a merge
buffer. -/
theorem setUp_eq (routine : Routine) (kind : BarrierKind) (small : 2 ^ k < Word.capacity)
    (count : data.length / size = 2 ^ k) (divides : threads ∣ 2 ^ k) :
    ∃ segments, Segments.ofList size data = .ok segments ∧
      routine.setUp threads size kind (.start (data.length / size)) data =
        if 2 * size < Word.capacity then .ok (routine.firstState threads (2 ^ k) kind segments)
        else .error .multiplicationOverflow := by
  have some_size : 0 < size := by
    by_contra none_left
    obtain rfl : size = 0 := by omega
    rw [Nat.div_zero] at count
    exact (Nat.two_pow_pos k).ne count
  obtain ⟨segments, cut⟩ := Segments.exists_ofList some_size data
  have positive : 0 < threads := Nat.pos_of_dvd_of_pos divides (Nat.two_pow_pos k)
  have many : threads ≤ 2 ^ k := Nat.le_of_dvd (Nat.two_pow_pos k) divides
  have twice : 2 * threads ≤ Word.capacity := by
    -- the largest power of two in a word is half its capacity
    have exponent : k ≤ 63 := by
      by_contra large
      have := Nat.pow_le_pow_right (show 0 < 2 by decide) (show 64 ≤ k by omega)
      simp only [Word.capacity, UInt64.size] at small
      omega
    have := Nat.pow_le_pow_right (show 0 < 2 by decide) exponent
    simp only [Word.capacity, UInt64.size]
    omega
  have crew : routine.crew threads (2 ^ k) =
    .ok ((List.range threads).map (routine.workerOf threads (2 ^ k))) := by
    rw [Routine.crew, Nat.max_eq_right positive]
    refine mapM_eq_ok fun w member => ?_
    have inside := List.mem_range.1 member
    rw [Routine.worker, share_eq_ok small inside]
    simp only [bind, Except.bind, peers_eq_ok twice inside, pure, Except.pure, workerOf]
  have counts : (StageCounts.start (2 ^ k)).size = 2 ^ k := by simp [StageCounts.start, StageCounts.size]
  have scratch : (Scratch.create threads size : Except Fault (Scratch α)) = if 2 * size < Word.capacity then
      .ok ⟨Array.replicate threads []⟩ else .error .multiplicationOverflow := by
    rw [Scratch.create, if_neg positive.ne', Word.mul]
    by_cases room : 2 * size < Word.capacity
    · rw [if_pos room, if_pos room]
    · rw [if_neg room, if_neg room]
  refine ⟨segments, cut, ?_⟩
  simp only [setUp, cut, Segments.count_of_ofList cut, count, counts, scratch, crew, bind, Except.bind, pure,
    Except.pure, bne_self_eq_false, Bool.and_false, Bool.false_eq_true, if_false]
  by_cases room : 2 * size < Word.capacity
  · simp only [if_pos room, firstState]
  · simp only [if_neg room]

/-- A sort whose workers divide the segments can be set up. -/
theorem exists_setUp (routine : Routine) (kind : BarrierKind) (suits : Suits size k data)
    (divides : threads ∣ 2 ^ k) :
    ∃ segments : Segments α,
      routine.setUp threads size kind (.start (data.length / size)) data =
        .ok (routine.firstState threads (2 ^ k) kind segments) ∧
      segments.Holds (2 ^ k) size (data.drop (2 ^ k * size)) (Segments.slice size data) ∧
      segments.toList = data := by
  obtain ⟨segments, cut, ready⟩ := setUp_eq routine kind suits.small suits.count_eq divides
  rw [if_pos suits.twice_size] at ready
  have holds := Segments.holds_of_ofList cut
  rw [suits.count_eq] at holds
  exact ⟨segments, ready, holds, Segments.toList_ofList cut⟩

/-- A sort that has been set up starts from the first state of some segments.  If the length is a word, so
are their number and the places in them. -/
theorem exists_firstState {start : State α} {routine : Routine} {kind : BarrierKind}
    (word : data.length < 2 ^ 64) (power : (data.length / size).isPowerOfTwo)
    (divides : threads ∣ data.length / size)
    (ready : routine.setUp threads size kind (.start (data.length / size)) data = .ok start) :
    ∃ (k : Nat) (segments : Segments α), data.length / size = 2 ^ k ∧ threads ∣ 2 ^ k ∧
      2 ^ k < Word.capacity ∧ 2 ^ k * size < Word.capacity ∧
      start = routine.firstState threads (2 ^ k) kind segments ∧
      segments.Holds (2 ^ k) size (data.drop (2 ^ k * size)) (Segments.slice size data) := by
  obtain ⟨k, count⟩ := power
  have few := Nat.div_le_self data.length size
  have covered := Nat.div_mul_le_self data.length size
  rw [count] at divides few covered
  obtain ⟨segments, cut, outcome⟩ := setUp_eq routine kind (few.trans_lt word) count divides
  have holds := Segments.holds_of_ofList cut
  rw [count] at holds
  rw [outcome] at ready
  split at ready
  · exact ⟨k, segments, count, divides, few.trans_lt word, covered.trans_lt word,
      (Except.ok.inj ready).symm, holds⟩
  · cases ready

end Routine

end SortNetwork.Parallel
