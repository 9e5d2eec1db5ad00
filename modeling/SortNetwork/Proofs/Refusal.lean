import Mathlib
import SortNetwork.Sort

/-!
# SortNetwork.Proofs.Refusal

Which sorts are refused, and why.

The checks of a configuration are made one after the other, each on the strength of those before it.
Together they say what the length must look like (`SortConfig.Accepts`).  That workers with shares must
number a power of two is never checked: only a power of two divides a power of two.  Where some check fails,
the refusal names the first that does (`SortConfig.FailsFirst`).
-/

namespace SortNetwork

variable {α : Type} {config : SortConfig} {length : Nat} {error other : SortError}

/-! ## what fits -/

/-- The lengths that a configuration fits: of as many segments as the strategy can do with. -/
def SortConfig.Accepts (config : SortConfig) (length : Nat) : Prop :=
  match config.strategy with
  | .elementwise => ∃ m, length = 2 ^ m
  | .sequential => 1 ≤ config.segmentSize ∧ ∃ m, length = config.segmentSize * 2 ^ m
  | .delegated =>
    1 ≤ config.segmentSize ∧ (∃ m, length = config.segmentSize * 2 ^ m) ∧ 1 ≤ config.threads
  | .blocking | .lockFree | .stealing | .waitFree =>
    1 ≤ config.segmentSize ∧
      ∃ m t, length = config.segmentSize * 2 ^ m ∧ config.threads = 2 ^ t ∧ t ≤ m

namespace SortConfig

/-- A list is cut into as many segments, without a rest, if that many of them make its length. -/
theorem mod_eq_zero_and_div_eq_iff {size count : Nat} (positive : 0 < size) :
    length % size = 0 ∧ length / size = count ↔ length = size * count := by
  constructor
  · rintro ⟨whole, rfl⟩
    exact (Nat.mul_div_cancel' (Nat.dvd_of_mod_eq_zero whole)).symm
  · rintro rfl
    exact ⟨Nat.mul_mod_right .., Nat.mul_div_cancel_left _ positive⟩

/-- Workers that share a power of two of segments evenly number a power of two themselves. -/
theorem mod_two_pow_eq_zero_iff {m threads : Nat} :
    threads ≠ 0 ∧ 2 ^ m % threads = 0 ↔ ∃ t, threads = 2 ^ t ∧ t ≤ m := by
  rw [← Nat.dvd_iff_mod_eq_zero, Nat.dvd_prime_pow Nat.prime_two]
  constructor
  · rintro ⟨-, t, few, rfl⟩
    exact ⟨t, rfl, few⟩
  · rintro ⟨t, rfl, few⟩
    exact ⟨(Nat.two_pow_pos t).ne', t, few, rfl⟩

/-- The checks together, with the number of segments at hand. -/
theorem validate_eq_ok_iff_exists :
    config.validate length = .ok () ↔
      0 < config.effectiveSegmentSize ∧ ∃ m, length = config.effectiveSegmentSize * 2 ^ m ∧
        config.effectiveThreads ≠ 0 ∧
        (config.strategy.partitions = true → 2 ^ m % config.effectiveThreads = 0) := by
  rw [validate_eq_ok_iff, ← Nat.pos_iff_ne_zero]
  constructor
  · rintro ⟨positive, workers, whole, ⟨m, count⟩, even⟩
    exact ⟨positive, m, (mod_eq_zero_and_div_eq_iff positive).1 ⟨whole, count⟩, workers, count ▸ even⟩
  · rintro ⟨positive, m, long, workers, even⟩
    obtain ⟨whole, count⟩ := (mod_eq_zero_and_div_eq_iff positive).2 long
    exact ⟨positive, workers, whole, ⟨m, count⟩, count ▸ even⟩

/-- A configuration passes its checks for the lengths that it fits. -/
theorem validate_eq_ok_iff_accepts : config.validate length = .ok () ↔ config.Accepts length := by
  rw [validate_eq_ok_iff_exists]
  obtain ⟨strategy, threads, size, _, _, _⟩ := config
  cases strategy with
  | elementwise =>
    simp [Accepts, effectiveSegmentSize, effectiveThreads, Strategy.partitions]
  | sequential | delegated =>
    simp [Accepts, effectiveSegmentSize, effectiveThreads, Strategy.partitions, Nat.one_le_iff_ne_zero,
      Nat.pos_iff_ne_zero]
  | blocking | lockFree | stealing | waitFree =>
    simp only [Accepts, effectiveSegmentSize, effectiveThreads, Strategy.partitions, forall_const,
      mod_two_pow_eq_zero_iff, exists_and_left, Nat.succ_le_iff]

/-- Workers with shares number a power of two. -/
theorem Accepts.isPowerOfTwo_threads (h : config.Accepts length)
    (shared : config.strategy.partitions = true) : config.threads.isPowerOfTwo := by
  obtain ⟨strategy, threads, size, _, _, _⟩ := config
  cases strategy with
  | elementwise | sequential | delegated => cases shared
  | blocking | lockFree | stealing | waitFree =>
    obtain ⟨-, _, t, -, workers, -⟩ := h
    exact ⟨t, workers⟩

end SortConfig

/-! ## what does not fit -/

/-- The checks that fail for a length, and what a refusal says of each. -/
inductive SortConfig.Fails (config : SortConfig) (length : Nat) : SortError → Prop where
  | zeroSegmentSize (zero : config.effectiveSegmentSize = 0) : config.Fails length .zeroSegmentSize
  | zeroThreads (zero : config.effectiveThreads = 0) : config.Fails length .zeroThreads
  | indivisibleLength (rest : ¬config.effectiveSegmentSize ∣ length) :
      config.Fails length (.indivisibleLength length config.effectiveSegmentSize)
  | segmentCountNotPowerOfTwo (other : ¬(length / config.effectiveSegmentSize).isPowerOfTwo) :
      config.Fails length (.segmentCountNotPowerOfTwo (length / config.effectiveSegmentSize))
  | unevenPartition (shared : config.strategy.partitions = true)
      (uneven : ¬config.effectiveThreads ∣ length / config.effectiveSegmentSize) :
      config.Fails length
        (.unevenPartition (length / config.effectiveSegmentSize) config.effectiveThreads)

/-- The place of a check among all, in the order in which they are made. -/
def SortError.place : SortError → Nat
  | .zeroSegmentSize => 0
  | .zeroThreads => 1
  | .indivisibleLength .. => 2
  | .segmentCountNotPowerOfTwo .. => 3
  | .unevenPartition .. => 4

/-- A check fails, and none that is made before it does. -/
structure SortConfig.FailsFirst (config : SortConfig) (length : Nat) (error : SortError) : Prop where
  fails : config.Fails length error
  first : ∀ other, config.Fails length other → error.place ≤ other.place

namespace SortConfig

/-- The checks before the first that fails pass, and that one gives the refusal. -/
theorem FailsFirst.validate_eq (h : config.FailsFirst length error) :
    config.validate length = .error error := by
  obtain ⟨fails, first⟩ := h
  have passes : ∀ other, other.place < error.place → ¬config.Fails length other :=
    fun _ earlier fails => absurd (first _ fails) (Nat.not_le.2 earlier)
  have size : 0 < error.place → config.effectiveSegmentSize ≠ 0 :=
    fun later zero => passes .zeroSegmentSize later (.zeroSegmentSize zero)
  have workers : 1 < error.place → config.effectiveThreads ≠ 0 :=
    fun later zero => passes .zeroThreads later (.zeroThreads zero)
  have whole : 2 < error.place → config.effectiveSegmentSize ∣ length :=
    fun later => not_not.1 fun rest => passes (.indivisibleLength ..) later (.indivisibleLength rest)
  have count : 3 < error.place → (length / config.effectiveSegmentSize).isPowerOfTwo :=
    fun later => not_not.1 fun other =>
      passes (.segmentCountNotPowerOfTwo _) later (.segmentCountNotPowerOfTwo other)
  simp only [validate, ← Nat.dvd_iff_mod_eq_zero, ne_eq]
  cases fails with
  | zeroSegmentSize zero => rw [if_pos zero]
  | zeroThreads zero => rw [if_neg (size (by decide : 0 < 1)), if_pos zero]
  | indivisibleLength rest =>
    rw [if_neg (size (by decide : 0 < 2)), if_neg (workers (by decide : 1 < 2)), if_pos rest]
  | segmentCountNotPowerOfTwo other =>
    rw [if_neg (size (by decide : 0 < 3)), if_neg (workers (by decide : 1 < 3)),
      if_neg (not_not.2 (whole (by decide : 2 < 3))), if_pos other]
  | unevenPartition shared uneven =>
    have remainder : (config.strategy.partitions &&
        length / config.effectiveSegmentSize % config.effectiveThreads != 0) = true :=
      Bool.and_eq_true_iff.2 ⟨shared, bne_iff_ne.2 (mt Nat.dvd_of_mod_eq_zero uneven)⟩
    rw [if_neg (size (by decide : 0 < 4)), if_neg (workers (by decide : 1 < 4)),
      if_neg (not_not.2 (whole (by decide : 2 < 4))), if_neg (not_not.2 (count (by decide : 3 < 4))),
      if_pos remainder]

/-- If a configuration does not fit, some check fails first. -/
theorem exists_failsFirst (refused : config.validate length ≠ .ok ()) :
    ∃ error, config.FailsFirst length error := by
  have failing : ∃ error, config.Fails length error := by
    by_contra passes
    rw [not_exists] at passes
    exact refused (validate_eq_ok_iff.2
      ⟨fun zero => passes _ (.zeroSegmentSize zero), fun zero => passes _ (.zeroThreads zero),
        Nat.mod_eq_zero_of_dvd (not_not.1 fun rest => passes _ (.indivisibleLength rest)),
        not_not.1 fun other => passes _ (.segmentCountNotPowerOfTwo other),
        fun shared => Nat.mod_eq_zero_of_dvd (not_not.1 fun uneven =>
          passes _ (.unevenPartition shared uneven))⟩)
  obtain ⟨error, fails, least⟩ :=
    (measure SortError.place).wf.has_min {error | config.Fails length error} failing
  exact ⟨error, fails, fun other fails' => Nat.not_lt.1 (least other fails')⟩

/-- A configuration is refused for the first check that fails. -/
theorem validate_eq_error_iff : config.validate length = .error error ↔ config.FailsFirst length error := by
  refine ⟨fun refused => ?_, FailsFirst.validate_eq⟩
  obtain ⟨reason, first⟩ : ∃ reason, config.FailsFirst length reason := exists_failsFirst (by simp [refused])
  cases refused.symm.trans first.validate_eq
  exact first

end SortConfig

/-! ## sorts that are refused -/

variable {order : ElementOrder α} {data : List α}

/-- A computation on one list ends or faults. -/
theorem verdict_ofRun_ne_refused (events : List Event) (run : Except (Halted (List α)) (List α))
    (error : SortError) : (SortReport.ofRun events run).verdict ≠ .refused error := by
  cases run <;> exact nofun

/-- Workers that share the segments out end, fault or wait for ever. -/
theorem Parallel.Routine.verdict_sort_ne_refused (routine : Routine) (order : ElementOrder α)
    (threads size : Nat) (barrier : BarrierKind) (counts : StageCounts) (data : List α)
    (error : SortError) :
    (routine.sort order threads size barrier counts data).verdict ≠ .refused error := by
  unfold sort
  split
  · exact nofun
  · dsimp only
    split <;> exact nofun

/-- A strategy that is performed refuses nothing. -/
theorem verdict_perform_ne_refused (order : ElementOrder α) (config : SortConfig) (data : List α)
    (error : SortError) : (perform order config data).verdict ≠ .refused error := by
  unfold perform
  dsimp only
  split
  · split <;> apply verdict_ofRun_ne_refused
  · apply Parallel.Routine.verdict_sort_ne_refused

/-- Only the checks refuse a sort, and only where there is something to sort. -/
theorem verdict_sort_eq_refused_iff :
    (sort order config data).verdict = .refused error ↔
      2 ≤ data.length ∧ config.validate data.length = .error error := by
  unfold sort
  dsimp only
  split
  · next few => simp [Nat.not_le.2 (Nat.lt_succ_of_le few)]
  next many =>
  have enough : 2 ≤ data.length := Nat.not_le.1 many
  cases config.validate data.length with
  | error reason => simp [enough]
  | ok _ => simp [verdict_perform_ne_refused]

/-- A refused sort leaves the list alone. -/
theorem data_sort_of_refused (refused : (sort order config data).verdict = .refused error) :
    (sort order config data).data = data := by
  obtain ⟨enough, invalid⟩ := verdict_sort_eq_refused_iff.1 refused
  rw [sort, if_neg (Nat.not_le.2 enough), invalid]

/-- A sort is refused exactly if there are elements to put in order and the configuration does not fit them,
for the first check that fails, and leaves the list alone.  So workers with shares that do not number a
power of two are refused always. -/
theorem sort_refuses (order : ElementOrder α) (config : SortConfig) (data : List α) :
    ((∃ error, (sort order config data).verdict = .refused error) ↔
      2 ≤ data.length ∧ ¬config.Accepts data.length) ∧
    (∀ error, (sort order config data).verdict = .refused error ↔
      2 ≤ data.length ∧ config.FailsFirst data.length error) ∧
    (∀ error, (sort order config data).verdict = .refused error → (sort order config data).data = data) ∧
    (2 ≤ data.length → config.strategy.partitions = true → ¬config.threads.isPowerOfTwo →
      ∃ error, (sort order config data).verdict = .refused error) := by
  have refused_iff : (∃ error, (sort order config data).verdict = .refused error) ↔
      2 ≤ data.length ∧ ¬config.Accepts data.length := by
    simp only [verdict_sort_eq_refused_iff, exists_and_left, ← SortConfig.validate_eq_ok_iff_accepts]
    cases config.validate data.length <;> simp
  refine ⟨refused_iff, fun error => ?_, fun error => data_sort_of_refused, fun enough shared odd => ?_⟩
  · rw [verdict_sort_eq_refused_iff, SortConfig.validate_eq_error_iff]
  · refine refused_iff.2 ⟨enough, fun accepts => odd ?_⟩
    exact accepts.isPowerOfTwo_threads shared

/-- Three workers would share eight segments of two elements. -/
theorem sort_refuses_three_workers :
    2 ≤ (List.range 16).length ∧ Strategy.blocking.partitions = true ∧ ¬Nat.isPowerOfTwo 3 ∧
    (sort (.ofCmp compare) ⟨.blocking, 3, 2, .yield, .senseReversal, .locked⟩ (List.range 16)).verdict =
      .refused (.unevenPartition 8 3) ∧
    (sort (.ofCmp compare) ⟨.blocking, 3, 2, .yield, .senseReversal, .locked⟩ (List.range 16)).data =
      List.range 16 := by
  have odd : ¬Nat.isPowerOfTwo 3 := by decide
  obtain ⟨-, first, kept, always⟩ := sort_refuses (.ofCmp (compare : Nat → Nat → Ordering))
    ⟨.blocking, 3, 2, .yield, .senseReversal, .locked⟩ (List.range 16)
  obtain ⟨error, refused⟩ := always (by decide) rfl odd
  have reason := SortConfig.validate_eq_error_iff.2 ((first error).1 refused).2
  cases reason.symm.trans (show _ = .error (.unevenPartition 8 3) by decide)
  exact ⟨by decide, rfl, odd, refused, kept _ refused⟩

end SortNetwork
