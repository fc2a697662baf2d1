import Bustub.Replacer.Basic

/-! # What `Evict`'s scan computes

`Evict` walks `frame_map_` once and keeps a running victim. Whatever the order of the
walk, the victim it ends with is ranked first by `VictimLe`: records with fewer than `k`
timestamps (infinite backward distance) before all others, then by earliest `front()`.
For a record with `k` timestamps `front()` is its `k`-th most recent access, so the
earliest `front()` is the largest backward distance.

The scan needs two facts about every evictable record (`Scannable`): its list is not
empty, and its first timestamp lies before the clock. Then every finite distance is
positive and beats the initial `max_backward_dist = 0`.
-/

namespace Bustub

/-- The first timestamp of a record, `front()` of its list. -/
def FrameInfo.front (i : FrameInfo) : Nat := i.accessTimestamps.headD 0

namespace LRUKReplacer

/-- The backward distance the scan gives an evictable record. -/
def backwardDist (currentTimestamp k : Nat) (i : FrameInfo) : ℕ∞ :=
  if i.accessTimestamps.length < k then ⊤ else ((currentTimestamp - i.front : ℕ) : ℕ∞)

/-- `VictimLe k i j`: `Evict` ranks `i` before `j`, or level with it. -/
def VictimLe (k : Nat) (i j : FrameInfo) : Prop :=
  i.accessTimestamps.length < k ∧ (j.accessTimestamps.length < k → i.front ≤ j.front) ∨
    k ≤ i.accessTimestamps.length ∧ k ≤ j.accessTimestamps.length ∧ i.front ≤ j.front

theorem VictimLe.refl (k : Nat) (i : FrameInfo) : VictimLe k i i := by
  unfold VictimLe; omega

theorem VictimLe.trans {k : Nat} {a b c : FrameInfo} (hab : VictimLe k a b)
    (hbc : VictimLe k b c) : VictimLe k a c := by
  unfold VictimLe at *; omega

/-- Every evictable record can be read by the scan: its list is not empty and its first
timestamp is before the clock. -/
def Scannable (r : LRUKReplacer) : Prop :=
  ∀ f i, r.frameMap f = some i → i.evictable →
    i.accessTimestamps ≠ [] ∧ i.front < r.currentTimestamp

/-- Frame `v` holds an evictable record ranked first among all evictable records. -/
def IsVictim (r : LRUKReplacer) (v : Nat) : Prop :=
  ∃ iv, r.frameMap v = some iv ∧ iv.evictable ∧
    ∀ f i, r.frameMap f = some i → i.evictable → VictimLe r.k iv i

/-- What the scan's locals say after it has visited the keys `seen`. -/
def ScanInv (r : LRUKReplacer) (seen : List Nat) (acc : EvictScan) : Prop :=
  match acc.victimFid with
  | none => acc.maxBackwardDist = 0 ∧ ∀ f ∈ seen, r.isEvictable f = false
  | some v => ∃ iv, r.frameMap v = some iv ∧ iv.evictable ∧ v ∈ seen ∧
      acc.maxBackwardDist = backwardDist r.currentTimestamp r.k iv ∧
      (iv.accessTimestamps.length < r.k → acc.earliestFirstTs = iv.front) ∧
      ∀ f ∈ seen, ∀ i, r.frameMap f = some i → i.evictable → VictimLe r.k iv i

section Scan

variable {r : LRUKReplacer} {seen : List Nat} {acc : EvictScan} {fid : Nat}

theorem scanInv_nil : ScanInv r [] {} := by simp [ScanInv]

/-- A turn that keeps the running victim. -/
theorem scanInv_keep (hinv : ScanInv r seen acc)
    (hnone : acc.victimFid = none → r.isEvictable fid = false)
    (hsome : ∀ v iv, acc.victimFid = some v → r.frameMap v = some iv →
      ∀ i, r.frameMap fid = some i → i.evictable → VictimLe r.k iv i) :
    ScanInv r (seen ++ [fid]) acc := by
  unfold ScanInv at *
  split at hinv <;> rename_i hv <;> simp only [hv] at hnone hsome ⊢
  · refine ⟨hinv.1, fun f hf => ?_⟩
    rcases List.mem_append.1 hf with hf | hf
    · exact hinv.2 f hf
    · simp only [List.mem_singleton] at hf; subst hf; exact hnone trivial
  · obtain ⟨iv, hiv, hev, hmem, hmax, hfirst, hle⟩ := hinv
    refine ⟨iv, hiv, hev, List.mem_append_left _ hmem, hmax, hfirst, fun f hf i hi he => ?_⟩
    rcases List.mem_append.1 hf with hf | hf
    · exact hle f hf i hi he
    · simp only [List.mem_singleton] at hf; subst hf; exact hsome _ iv rfl hiv i hi he

/-- A turn that makes `fid`, with record `i`, the running victim. -/
theorem scanInv_take {i : FrameInfo} {acc' : EvictScan} (hinv : ScanInv r seen acc)
    (hi : r.frameMap fid = some i) (he : i.evictable) (hv : acc'.victimFid = some fid)
    (hmax : acc'.maxBackwardDist = backwardDist r.currentTimestamp r.k i)
    (hfirst : i.accessTimestamps.length < r.k → acc'.earliestFirstTs = i.front)
    (hbeat : ∀ v iv, acc.victimFid = some v → r.frameMap v = some iv → VictimLe r.k i iv) :
    ScanInv r (seen ++ [fid]) acc' := by
  simp only [ScanInv, hv]
  refine ⟨i, hi, he, by simp, hmax, hfirst, fun f hf j hj hje => ?_⟩
  rcases List.mem_append.1 hf with hf | hf
  · unfold ScanInv at hinv
    split at hinv <;> rename_i hw
    · have := hinv.2 f hf; simp [isEvictable, hj, hje] at this
    · obtain ⟨iv, hiv, -, -, -, -, hle⟩ := hinv
      exact (hbeat _ iv hw hiv).trans (hle f hf j hj hje)
  · simp only [List.mem_singleton] at hf; subst hf
    rw [hi] at hj; cases hj; exact VictimLe.refl _ _

theorem ScanInv.maxBackwardDist_of_none (hinv : ScanInv r seen acc) (hv : acc.victimFid = none) :
    acc.maxBackwardDist = 0 := by
  unfold ScanInv at hinv; simp only [hv] at hinv; exact hinv.1

theorem ScanInv.of_some {v : Nat} (hinv : ScanInv r seen acc) (hv : acc.victimFid = some v) :
    ∃ iv, r.frameMap v = some iv ∧ iv.evictable ∧
      acc.maxBackwardDist = backwardDist r.currentTimestamp r.k iv ∧
      (iv.accessTimestamps.length < r.k → acc.earliestFirstTs = iv.front) := by
  unfold ScanInv at hinv; simp only [hv] at hinv
  obtain ⟨iv, h1, h2, -, h3, h4, -⟩ := hinv
  exact ⟨iv, h1, h2, h3, h4⟩

/-- One turn of the loop keeps `ScanInv`, at every key. -/
theorem scanInv_step (hr : r.Scannable) (hinv : ScanInv r seen acc) (fid : Nat) :
    ∃ acc', r.evictStep acc fid = .ok acc' ∧ ScanInv r (seen ++ [fid]) acc' := by
  unfold evictStep
  cases hfid : r.frameMap fid with
  | none => exact ⟨acc, rfl, scanInv_keep hinv (by simp [isEvictable, hfid]) (by simp [hfid])⟩
  | some i =>
    by_cases he : i.evictable
    swap
    · refine ⟨acc, by simp [he], scanInv_keep hinv (by simp [isEvictable, hfid, he]) ?_⟩
      simp [hfid, he]
    obtain ⟨hne, hlt⟩ := hr fid i hfid he
    obtain ⟨front, rest, hts⟩ := List.exists_cons_of_ne_nil hne
    have hfront : i.front = front := by simp [FrameInfo.front, hts]
    -- the running victim, when there is one
    have hold : ∀ v iv, acc.victimFid = some v → r.frameMap v = some iv →
        iv.front < r.currentTimestamp ∧
        acc.maxBackwardDist = backwardDist r.currentTimestamp r.k iv ∧
        (iv.accessTimestamps.length < r.k → acc.earliestFirstTs = iv.front) := by
      intro v iv hv hiv
      obtain ⟨iv', hiv', hev, hmax, hfirst⟩ := hinv.of_some hv
      rw [hiv] at hiv'; cases hiv'
      exact ⟨(hr v iv hiv hev).2, hmax, hfirst⟩
    simp only [he, Bool.not_true, hts]
    by_cases hk : i.accessTimestamps.length < r.k
    · -- infinite backward distance
      have hbd : backwardDist r.currentTimestamp r.k i = ⊤ := by rw [backwardDist, if_pos hk]
      simp only [hts ▸ hk, if_true]
      by_cases hm : acc.maxBackwardDist = ⊤
      · obtain ⟨v, hv⟩ : ∃ v, acc.victimFid = some v := by
          cases hv : acc.victimFid with
          | none => simp [hinv.maxBackwardDist_of_none hv] at hm
          | some v => exact ⟨v, rfl⟩
        obtain ⟨iv, hiv, -, -, -⟩ := hinv.of_some hv
        obtain ⟨-, hmax, hfirst⟩ := hold v iv hv hiv
        have hinf : iv.accessTimestamps.length < r.k := by
          by_contra h; rw [hmax, backwardDist, if_neg h] at hm; exact ENat.coe_ne_top _ hm
        simp only [hm, gt_iff_lt, lt_self_iff_false, if_false, true_and, hfirst hinf,
          ENat.coe_lt_coe]
        by_cases hf : front < iv.front
        · refine ⟨_, if_pos hf, scanInv_take hinv hfid he rfl (by simp [hbd, hm])
            (fun _ => by simp [hfront]) fun w jw hw hjw => ?_⟩
          rw [hv] at hw; cases hw; rw [hiv] at hjw; cases hjw
          unfold VictimLe; omega
        · refine ⟨_, if_neg hf, scanInv_keep hinv (by simp [hv]) fun w jw hw hjw j hj _ => ?_⟩
          rw [hv] at hw; cases hw; rw [hiv] at hjw; cases hjw; rw [hfid] at hj; cases hj
          unfold VictimLe; omega
      · refine ⟨_, if_pos (lt_top_iff_ne_top.2 hm), scanInv_take hinv hfid he rfl hbd.symm
          (fun _ => by simp [hfront]) fun w jw hw hjw => ?_⟩
        obtain ⟨-, hmax, -⟩ := hold w jw hw hjw
        have hfin : ¬ jw.accessTimestamps.length < r.k :=
          fun h => hm (by rw [hmax, backwardDist, if_pos h])
        unfold VictimLe; omega
    · -- finite backward distance `current_timestamp_ - front`
      have hbd : backwardDist r.currentTimestamp r.k i =
          ((r.currentTimestamp - front : ℕ) : ℕ∞) := by
        rw [backwardDist, if_neg hk, hfront]
      simp only [hts ▸ hk, if_false]
      by_cases hd : ((r.currentTimestamp - front : ℕ) : ℕ∞) > acc.maxBackwardDist
      · refine ⟨_, if_pos hd, scanInv_take hinv hfid he rfl hbd.symm (fun h => absurd h hk)
          fun w jw hw hjw => ?_⟩
        obtain ⟨hjlt, hmax, -⟩ := hold w jw hw hjw
        by_cases hjk : jw.accessTimestamps.length < r.k
        · rw [hmax, backwardDist, if_pos hjk] at hd; exact absurd hd not_top_lt
        · rw [hmax, backwardDist, if_neg hjk, gt_iff_lt, ENat.coe_lt_coe] at hd
          unfold VictimLe; omega
      · refine ⟨_, if_neg hd, scanInv_keep hinv (fun hv => ?_) fun w jw hw hjw j hj _ => ?_⟩
        · rw [hinv.maxBackwardDist_of_none hv] at hd
          exact absurd (ENat.coe_lt_coe.2 (by omega : 0 < r.currentTimestamp - front)) hd
        · rw [hfid] at hj; cases hj
          obtain ⟨hjlt, hmax, -⟩ := hold w jw hw hjw
          by_cases hjk : jw.accessTimestamps.length < r.k
          · unfold VictimLe; omega
          · rw [hmax, backwardDist, if_neg hjk, gt_iff_lt, ENat.coe_lt_coe] at hd
            unfold VictimLe; omega

/-- The rest of the walk returns, and `ScanInv` holds over every key it visited. -/
theorem scanInv_foldlM (hr : r.Scannable) (order : List Nat) :
    ∀ (seen : List Nat) (acc : EvictScan), ScanInv r seen acc →
      ∃ acc', order.foldlM r.evictStep acc = .ok acc' ∧ ScanInv r (seen ++ order) acc' := by
  induction order with
  | nil => exact fun seen acc h => ⟨acc, rfl, by simpa using h⟩
  | cons fid order ih =>
    intro seen acc h
    obtain ⟨acc₁, h₁, hinv₁⟩ := scanInv_step hr h fid
    obtain ⟨acc', h', hinv'⟩ := ih _ _ hinv₁
    exact ⟨acc', by rw [List.foldlM_cons, h₁]; exact h', by simpa using hinv'⟩

theorem evictScan_spec (hr : r.Scannable) (order : List Nat) :
    ∃ acc, r.evictScan order = .ok acc ∧ ScanInv r order acc := by
  simpa using scanInv_foldlM hr order [] {} scanInv_nil

/-- Over an iteration order of the map, the scan ends without a victim exactly when no
record is evictable, and otherwise with a victim ranked first. -/
theorem evictScan_victim {order : List Nat} (hr : r.Scannable) (ho : r.IsIterationOrder order)
    (h : r.evictScan order = .ok acc) :
    (acc.victimFid = none → ∀ f, r.isEvictable f = false) ∧
      ∀ v, acc.victimFid = some v → r.IsVictim v := by
  obtain ⟨acc', h', hinv⟩ := evictScan_spec hr order
  rw [h] at h'; cases h'
  unfold ScanInv at hinv
  constructor
  · intro hv f
    simp only [hv] at hinv
    by_cases hf : r.frameMap f = none
    · simp [isEvictable, hf]
    · exact hinv.2 f ((ho.2 f).2 hf)
  · intro v hv
    simp only [hv] at hinv
    obtain ⟨iv, hiv, hev, -, -, -, hle⟩ := hinv
    exact ⟨iv, hiv, hev, fun f i hi he => hle f ((ho.2 f).2 (by simp [hi])) i hi he⟩

end Scan

/-- When distinct evictable records have distinct first timestamps, at most one frame is
ranked first. -/
theorem IsVictim.unique {r : LRUKReplacer} {v w : Nat}
    (hfront : ∀ f g i j, f ≠ g → r.frameMap f = some i → r.frameMap g = some j →
      i.front ≠ j.front)
    (hv : r.IsVictim v) (hw : r.IsVictim w) : v = w := by
  obtain ⟨iv, hiv, hev, hlev⟩ := hv
  obtain ⟨iw, hiw, hew, hlew⟩ := hw
  by_contra hne
  have h1 := hlev w iw hiw hew
  have h2 := hlew v iv hiv hev
  unfold VictimLe at h1 h2
  exact hfront v w iv iw hne hiv hiw (by omega)

end LRUKReplacer

end Bustub
