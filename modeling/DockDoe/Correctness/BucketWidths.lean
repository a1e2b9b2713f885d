import DockDoe.Model.Bucketer
import DockDoe.Model.Config

/-! Which settings of the bucket width a collector survives. The width is scaled to milliseconds
once, modulo 2^64, and every cycle divides by it.
-/

namespace DockDoe

namespace Bucketer

/-- The width is scaled without overflow. -/
def Scales (bucketSecs : ℕ) : Prop :=
  max bucketSecs 1 * 1000 < 2 ^ 64

/-- No number of cycles divides by zero. -/
def Survives (bucketSecs : ℕ) (host : String) : Prop :=
  ∀ cycles, ((Bucketer.new bucketSecs host).pushAll cycles).isSome = true

variable {b : Bucketer}

/-- A cycle keeps the width, whether it closes a bucket or not. -/
theorem feed_bucketMs (snap : Snapshot) : (b.feed snap).1.bucketMs = b.bucketMs := by
  unfold feed
  cases b.currentStart with
  | none => rfl
  | some current =>
      by_cases later : current < bucketStart b.bucketMs snap.tsMs
      · simp [later, close]
      · simp [later]

/-- A bucketer with a width gets through every cycle, by induction on the cycles. -/
theorem pushAll_isSome (positive : b.bucketMs ≠ 0) (cycles : List Snapshot)
    : (b.pushAll cycles).isSome = true := by
  induction cycles generalizing b with
  | nil => rfl
  | cons snap rest ih =>
      have next : (b.feed snap).1.bucketMs ≠ 0 := by rwa [feed_bucketMs]
      obtain ⟨result, ran⟩ := Option.isSome_iff_exists.mp (ih next)
      simp [pushAll, push, positive, ran]

/-- The collector survives exactly the settings whose scaled width is not zero: with zero the
first cycle divides by it, and otherwise no push fails.
-/
theorem survives_iff (bucketSecs : ℕ) (host : String)
    : Survives bucketSecs host ↔ max bucketSecs 1 * 1000 % 2 ^ 64 ≠ 0 := by
  constructor
  · intro survives zero
    have width : (Bucketer.new bucketSecs host).bucketMs = 0 := zero
    have ran := survives [{ tsMs := 0, containers := [] }]
    rw [pushAll, push, if_pos width] at ran
    cases ran
  · intro positive cycles
    exact pushAll_isSome positive cycles

/-- A multiple of 1000 vanishes modulo 2^64 exactly when the factor is a multiple of 2^61. -/
theorem scaled_eq_zero_iff (n : ℕ) : n * 1000 % 2 ^ 64 = 0 ↔ 2 ^ 61 ∣ n := by
  have factors : n * 1000 = 125 * n * 2 ^ 3 := by ring
  have coprime : Nat.Coprime (2 ^ 61) 125 := Nat.Coprime.pow_left 61 (by decide)
  rw [← Nat.dvd_iff_mod_eq_zero, factors, Nat.pow_add 2 61 3,
    Nat.mul_dvd_mul_iff_right (by decide), coprime.dvd_mul_left]

/-- A width is scaled without overflow and survived by the collector exactly up to the largest
number of seconds whose milliseconds fit into 64 bits. Beyond, it is survived nevertheless unless
it is a multiple of 2^61, for only then the product wraps to zero.
-/
theorem scales_and_survives_iff (bucketSecs : ℕ) (host : String)
    : (Scales bucketSecs ∧ Survives bucketSecs host ↔ bucketSecs ≤ 18446744073709551)
      ∧ (Survives bucketSecs host ↔ bucketSecs = 0 ∨ ¬ 2 ^ 61 ∣ bucketSecs) := by
  rw [survives_iff]
  unfold Scales
  constructor
  · constructor
    · intro h
      rcases h with ⟨scales, _⟩
      omega
    · intro small
      have scales : max bucketSecs 1 * 1000 < 2 ^ 64 := by omega
      rw [Nat.mod_eq_of_lt scales]
      exact ⟨scales, by omega⟩
  · rw [Ne, scaled_eq_zero_iff]
    omega

end Bucketer

/-- A start with a file that consists of a bucket width of 2^61 seconds. -/
def hugeWidth : Startup where
  readToString _ := .ok "trend_bucket_secs = 2305843009213693952\n".toList
  fromToml _ := .ok { trendBucketSecs := some (2 ^ 61) }
  dockerHost := none

/-- The width is accepted, scaled to nothing and divided by in the first cycle. -/
theorem hugeWidth_divides
    : ∃ cfg,
        hugeWidth.load (some "config.toml".toList) {} = .ok cfg
        ∧ ¬ Bucketer.Scales cfg.trendBucketSecs
        ∧ (Bucketer.new cfg.trendBucketSecs "local").push { tsMs := 0, containers := [] }
          = none := by
  refine ⟨_, rfl, ?_, ?_⟩
  · change ¬ max (2 ^ 61) 1 * 1000 < 2 ^ 64
    decide
  · rfl

end DockDoe
