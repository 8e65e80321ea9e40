/-
  How `socache_shmcb_init` cuts the shared memory segment up: the sizes of an LP64
  platform, where the header takes 88 bytes, a subcache 16 and an index 24.
-/
import Cnam.Httpd.ShmcbEntries
import Mathlib.Tactic.Ring

namespace Httpd.Shmcb

/-- `APR_ALIGN_DEFAULT`: up to a multiple of 8. -/
def alignDefault (size : ℕ) : ℕ := (size + 7) / 8 * 8

/-- Down to a multiple of 8. -/
def alignedDown (size : ℕ) : ℕ :=
  if size ≠ alignDefault size then alignDefault size - alignDefault 1 else size

/-- `ALIGNED_HEADER_SIZE`. -/
def alignedHeaderSize : ℕ := alignDefault 88

/-- `ALIGNED_SUBCACHE_SIZE`. -/
def alignedSubcacheSize : ℕ := alignDefault 16

/-- `ALIGNED_INDEX_SIZE`. -/
def alignedIndexSize : ℕ := alignDefault 24

/-- The loop that halves the number of subcaches as long as it is large for the number of
    indexes; it ends in a division by zero where there are less than two of these. -/
def halveSubcaches (numIdx : ℕ) : (fuel numSubcache : ℕ) → Option ℕ
  | 0, _ => none
  | _, 0 => none
  | fuel + 1, numSubcache =>
    if numIdx / numSubcache < 2 * numSubcache then halveSubcaches numIdx fuel (numSubcache / 2)
    else some numSubcache

/-- `avg_obj_size + avg_id_len`, as the hints give them: zero where they do not. -/
def hinted (avgObjSize avgIdLen : ℕ) : ℕ :=
  (if avgObjSize ≠ 0 then avgObjSize else 150) + (if avgIdLen ≠ 0 then avgIdLen else 30)

/-- Why there is no cache: the segment is too small, or the server has died of a division. -/
inductive InitError
  | enospc
  | divisionByZero
deriving DecidableEq

/-- The geometry the header gets, its counters at zero. The segment has the size asked for,
    an `unsigned int`. -/
def socacheInit (shmSize avgObjSize avgIdLen : ℕ) : Except InitError Header :=
  if shmSize < 5 * alignedHeaderSize then .error .enospc
  else
    let shmSegsize := shmSize - alignedHeaderSize
    let numIdx := shmSegsize / hinted avgObjSize avgIdLen
    match halveSubcaches numIdx 10 256 with
    | none => .error .divisionByZero
    | some numSubcache =>
      let numIdx := numIdx / numSubcache
      if numIdx < 5 then .error .enospc
      else
        let subcacheSize := alignedDown (shmSegsize / numSubcache)
        let subcacheDataOffset := add32 alignedSubcacheSize (numIdx * alignedIndexSize)
        .ok
          { statStores := 0
            statReplaced := 0
            statExpiries := 0
            statScrolled := 0
            statRetrievesHit := 0
            statRetrievesMiss := 0
            statRemovesHit := 0
            statRemovesMiss := 0
            subcacheNum := numSubcache
            indexNum := numIdx
            subcacheSize := subcacheSize
            subcacheDataOffset := subcacheDataOffset
            subcacheDataSize := sub32 subcacheSize subcacheDataOffset }

theorem alignedDown_spec (size : ℕ) :
    alignedDown size ≤ size ∧ size < alignedDown size + 8 ∧ 8 ∣ alignedDown size := by
  rw [alignedDown]
  split
  · simp only [alignDefault] at *
    omega
  · simp only [alignDefault] at *
    omega

/-- The loop ends on the largest power of two it may, unless there are too few indexes. -/
theorem halveSubcaches_spec (numIdx : ℕ) : ∀ {j fuel : ℕ}, j + 2 ≤ fuel →
    (∃ i ≤ j, halveSubcaches numIdx fuel (2 ^ j) = some (2 ^ i) ∧ 2 * 2 ^ i * 2 ^ i ≤ numIdx ∧
      (i < j → numIdx < 8 * 2 ^ i * 2 ^ i)) ∨
    halveSubcaches numIdx fuel (2 ^ j) = none ∧ numIdx < 2
  | j, 0, hfuel => by omega
  | j, fuel + 1, hfuel => by
    have hpos : 0 < 2 ^ j := Nat.two_pow_pos j
    obtain ⟨k, hk⟩ : ∃ k, 2 ^ j = k + 1 := ⟨2 ^ j - 1, by omega⟩
    have hstep : halveSubcaches numIdx (fuel + 1) (2 ^ j) =
        if numIdx / 2 ^ j < 2 * 2 ^ j then halveSubcaches numIdx fuel (2 ^ j / 2)
        else some (2 ^ j) := by
      rw [hk, halveSubcaches]
      exact Nat.succ_ne_zero k
    have hlarge : numIdx / 2 ^ j < 2 * 2 ^ j ↔ numIdx < 2 * 2 ^ j * 2 ^ j :=
      Nat.div_lt_iff_lt_mul hpos
    rw [hstep]
    by_cases hlt : numIdx / 2 ^ j < 2 * 2 ^ j
    · rw [if_pos hlt]
      rw [hlarge] at hlt
      rcases j with _ | j
      · right
        obtain ⟨fuel, rfl⟩ : ∃ f, fuel = f + 1 := ⟨fuel - 1, by omega⟩
        exact ⟨rfl, by simpa using hlt⟩
      · have hhalf : 2 ^ (j + 1) / 2 = 2 ^ j := by
          rw [Nat.pow_succ, Nat.mul_div_cancel _ Nat.two_pos]
        rw [hhalf]
        have hleft : j + 2 ≤ fuel := by omega
        rcases halveSubcaches_spec numIdx hleft with ⟨i, hi, heq, hge, hbound⟩ | hnone
        · refine Or.inl ⟨i, by omega, heq, hge, fun _ => ?_⟩
          rcases Nat.lt_or_eq_of_le hi with hi | rfl
          · exact hbound hi
          · rw [Nat.pow_succ] at hlt
            calc numIdx < 2 * (2 ^ i * 2) * (2 ^ i * 2) := hlt
              _ = 8 * 2 ^ i * 2 ^ i := by ring
        · exact Or.inr hnone
    · rw [if_neg hlt]
      rw [hlarge, not_lt] at hlt
      exact Or.inl ⟨j, le_rfl, rfl, hlt, fun hjj => absurd hjj (lt_irrefl j)⟩

/-- The number of objects of the mean size the segment has room for. -/
def meanObjects (shmSize avgObjSize avgIdLen : ℕ) : ℕ :=
  (shmSize - 88) / hinted avgObjSize avgIdLen

/-- **The segment is cut up** exactly when it has room for five objects of the mean size, but
    neither for eight nor for nine; the areas then fit: they are not empty, small enough for
    the sums of offsets, one behind the other in each subcache, and the subcaches in the
    segment. With room for less than two objects the server divides by zero. -/
theorem socacheInit_sound {shmSize avgObjSize avgIdLen : ℕ} (hsize : shmSize < 2 ^ 32)
    (hlow : 29 ≤ hinted avgObjSize avgIdLen) (hhigh : hinted avgObjSize avgIdLen ≤ 2 ^ 28) :
    ((∃ h, socacheInit shmSize avgObjSize avgIdLen = .ok h) ↔
      5 * 88 ≤ shmSize ∧ 5 ≤ meanObjects shmSize avgObjSize avgIdLen ∧
        meanObjects shmSize avgObjSize avgIdLen ≠ 8 ∧
        meanObjects shmSize avgObjSize avgIdLen ≠ 9) ∧
    (∀ h, socacheInit shmSize avgObjSize avgIdLen = .ok h →
      h.Sound ∧ (∃ j ≤ 8, h.subcacheNum = 2 ^ j) ∧
        h.subcacheDataOffset = 16 + h.indexNum * 24 ∧
        h.subcacheDataOffset + h.subcacheDataSize = h.subcacheSize ∧ 8 ∣ h.subcacheSize ∧
        88 + h.subcacheNum * h.subcacheSize ≤ shmSize) ∧
    (socacheInit shmSize avgObjSize avgIdLen = .error .divisionByZero ↔
      5 * 88 ≤ shmSize ∧ meanObjects shmSize avgObjSize avgIdLen < 2) := by
  have hheader : alignedHeaderSize = 88 := rfl
  have hsub : alignedSubcacheSize = 16 := rfl
  have hindex : alignedIndexSize = 24 := rfl
  simp only [socacheInit, hheader, hsub, hindex, meanObjects]
  by_cases hsmall : shmSize < 5 * 88
  · simp [hsmall]
  · rw [if_neg hsmall]
    generalize hinted avgObjSize avgIdLen = mean at hlow hhigh ⊢
    have hleast : 29 * ((shmSize - 88) / mean) ≤ shmSize - 88 :=
      (Nat.mul_le_mul_right _ hlow).trans (Nat.mul_div_le _ _)
    have hmost : shmSize - 88 < 2 ^ 28 * ((shmSize - 88) / mean + 1) :=
      (Nat.lt_mul_div_succ _ (by omega)).trans_le (Nat.mul_le_mul_right _ hhigh)
    generalize (shmSize - 88) / mean = n at hleast hmost ⊢
    have hloop : (∃ i ≤ 8, halveSubcaches n 10 256 = some (2 ^ i) ∧ 2 * 2 ^ i * 2 ^ i ≤ n ∧
        (i < 8 → n < 8 * 2 ^ i * 2 ^ i)) ∨ halveSubcaches n 10 256 = none ∧ n < 2 :=
      halveSubcaches_spec n (by norm_num : 8 + 2 ≤ 10)
    rcases hloop with ⟨i, hi, heq, hge, hbound⟩ | ⟨hnone, hfew⟩
    · have hk : 0 < 2 ^ i := Nat.two_pow_pos i
      have hindexes : 2 * 2 ^ i ≤ n / 2 ^ i := (Nat.le_div_iff_mul_le hk).2 hge
      have hquotient : n / 2 ^ i ≤ n := Nat.div_le_self n (2 ^ i)
      have hfits : 29 * (n / 2 ^ i) ≤ (shmSize - 88) / 2 ^ i :=
        (Nat.mul_div_le_mul_div_assoc 29 n (2 ^ i)).trans (Nat.div_le_div_right hleast)
      have hinside : 2 ^ i * ((shmSize - 88) / 2 ^ i) ≤ shmSize - 88 := Nat.mul_div_le _ _
      have hhalf : (shmSize - 88) / 2 ^ i < 2 ^ 31 := by
        rcases i with _ | i
        · have hn := hbound (by norm_num)
          rw [Nat.pow_zero, Nat.div_one]
          omega
        · have htwo : 2 ≤ 2 ^ (i + 1) := by
            rw [Nat.pow_succ]
            have := Nat.two_pow_pos i
            omega
          have := Nat.mul_le_mul_right ((shmSize - 88) / 2 ^ (i + 1)) htwo
          omega
      have hone' : 2 ^ i = 1 → n < 8 := by
        intro hi1
        have hlast : i ≠ 8 := by
          rintro rfl
          norm_num at hi1
        have hn := hbound (by omega)
        rwa [hi1] at hn
      have hfive : 5 ≤ n / 2 ^ i ↔ 5 ≤ n ∧ n ≠ 8 ∧ n ≠ 9 := by
        generalize 2 ^ i = k at hk hge hindexes hone' ⊢
        rcases (by omega : k = 1 ∨ k = 2 ∨ 3 ≤ k) with rfl | rfl | h3
        · have := hone' rfl
          omega
        · omega
        · have := Nat.mul_le_mul (Nat.mul_le_mul_left 2 h3) h3
          omega
      simp only [heq]
      by_cases hfew : n / 2 ^ i < 5
      · simp only [if_pos hfew, reduceCtorEq, exists_false, false_iff, Except.error.injEq]
        refine ⟨by omega, fun h hh => hh.elim, by omega⟩
      · simp only [if_neg hfew, Except.ok.injEq, exists_eq', true_iff, reduceCtorEq, false_iff]
        refine ⟨⟨by omega, hfive.1 (by omega)⟩, ?_, by omega⟩
        rintro h rfl
        generalize (shmSize - 88) / 2 ^ i = size at hfits hinside hhalf ⊢
        obtain ⟨hle, hlt, hdvd⟩ := alignedDown_spec size
        generalize n / 2 ^ i = m at hfits hfew ⊢
        have hoffset : add32 16 (m * 24) = 16 + m * 24 := add32_eq (by omega)
        have hdata : sub32 (alignedDown size) (16 + m * 24) = alignedDown size - (16 + m * 24) :=
          sub32_eq (by omega) (by omega)
        have hwhole := Nat.mul_le_mul_left (2 ^ i) hle
        simp only [hoffset, hdata]
        have hindexNum : 0 < m ∧ 2 * m ≤ 2 ^ 32 := by omega
        have hdataSize : 0 < alignedDown size - (16 + m * 24) ∧
            2 * (alignedDown size - (16 + m * 24)) ≤ 2 ^ 32 := by omega
        have hbehind : 16 + m * 24 + (alignedDown size - (16 + m * 24)) = alignedDown size := by
          omega
        have hsegment : 88 + 2 ^ i * alignedDown size ≤ shmSize := by omega
        exact ⟨⟨hk, hindexNum.1, hindexNum.2, hdataSize.1, hdataSize.2⟩, ⟨i, hi, rfl⟩, trivial,
          hbehind, hdvd, hsegment⟩
    · simp only [hnone, reduceCtorEq, exists_false, false_iff, true_iff]
      exact ⟨by omega, fun h hh => hh.elim, by omega⟩

/-- The segment of 512 KB, without hints. -/
theorem socacheInit_default : ∃ h, socacheInit (1024 * 512) 0 0 = .ok h :=
  (socacheInit_sound (by omega) (by simp [hinted]) (by simp [hinted])).1.2
    (by simp [meanObjects, hinted])

end Httpd.Shmcb
