import Mathlib.Data.List.Nodup
import Mathlib.Data.Nat.Bitwise
import Mathlib.Logic.Function.Basic

/-! # The extendible hash table

`ExtendibleHashTable<K, V>` of `extendible_hash_table.h` and `extendible_hash_table.cpp`.
The directory `dir_` is a vector of `Bucket *`; here a list of addresses into `heap`, the
buckets allocated so far, and `new Bucket` takes the address `nextAddr`. Two slots point to
the same bucket when they hold the same address. The destructor is not modelled.

`std::hash<K>` is `Hashable K`, whose `hash` is 64 bits wide like `size_t`. The masks
`(1 << global_depth_) - 1` of `IndexOf` and `1 << split_bit` of `SplitBucket` are computed in
`int`: they are `2 ^ n - 1` and `2 ^ n` up to `n = 30` (`lowBitsMask`, `splitMask`), and
past it they are what gcc computes for the undefined shifts. `Insert` loops until an
insertion succeeds, so it is given a number of turns, `fuel`, and is `none` when it has not
returned within them.
-/

namespace Bustub

/-- A bucket: its pairs in list order, its capacity `max_size_` and its `local_depth_`. -/
structure Bucket (K V : Type) where
  kvPairs : List (K × V)
  maxSize : Nat
  localDepth : Nat

namespace Bucket

variable {K V : Type} [DecidableEq K]

/-- `Bucket::Find`: the value of the first pair with key `key`. -/
def find (b : Bucket K V) (key : K) : Option V :=
  (b.kvPairs.find? fun p => p.1 = key).map (·.2)

/-- The pairs with the first pair of key `key` erased, when there is one. -/
def eraseKey (key : K) : List (K × V) → Option (List (K × V))
  | [] => none
  | p :: ps => if p.1 = key then some ps else (eraseKey key ps).map (p :: ·)

/-- `Bucket::Remove`: `none` when no pair has key `key` (it returns false). -/
def remove (b : Bucket K V) (key : K) : Option (Bucket K V) :=
  (eraseKey key b.kvPairs).map fun ps => { b with kvPairs := ps }

/-- The pairs with the value of the first pair of key `key` overwritten, when there is
one. -/
def overwrite (key : K) (value : V) : List (K × V) → Option (List (K × V))
  | [] => none
  | p :: ps => if p.1 = key then some ((p.1, value) :: ps) else (overwrite key value ps).map (p :: ·)

/-- `Bucket::IsFull`. -/
def isFull (b : Bucket K V) : Bool := b.maxSize ≤ b.kvPairs.length

/-- `Bucket::Insert`: overwrite an existing key; otherwise append, unless the bucket is
full (it returns false, `none` here). -/
def insert (b : Bucket K V) (key : K) (value : V) : Option (Bucket K V) :=
  match overwrite key value b.kvPairs with
  | some ps => some { b with kvPairs := ps }
  | none => if b.isFull then none else some { b with kvPairs := b.kvPairs ++ [(key, value)] }

/-! ### Spec lemmas of the bucket operations -/

variable {key k : K} {value : V}

theorem overwrite_eq_none_iff : ∀ {ps : List (K × V)},
    overwrite key value ps = none ↔ key ∉ ps.map (·.1)
  | [] => by simp [overwrite]
  | p :: ps => by
    unfold overwrite
    split_ifs with hp
    · exact iff_of_false id fun h =>
        h (List.mem_map.2 ⟨p, List.mem_cons_self _ _, hp⟩)
    · rw [Option.map_eq_none', overwrite_eq_none_iff]
      simp only [List.map_cons, List.mem_cons, Ne.symm hp, false_or]

/-- Overwriting keeps the keys, and the pairs other than the overwritten one. -/
theorem overwrite_spec : ∀ {ps ps' : List (K × V)}, overwrite key value ps = some ps' →
    ps'.map (·.1) = ps.map (·.1) ∧ ∀ p ∈ ps', p ∈ ps ∨ p = (key, value)
  | [], _, h => by simp [overwrite] at h
  | p :: ps, ps', h => by
    unfold overwrite at h
    split_ifs at h with hp
    · cases h
      refine ⟨rfl, fun q hq => ?_⟩
      rcases List.mem_cons.1 hq with rfl | hq
      · exact .inr (by rw [hp])
      · exact .inl (List.mem_cons_of_mem _ hq)
    · obtain ⟨ps'', h', rfl⟩ := Option.map_eq_some'.1 h
      obtain ⟨hmap, hmem⟩ := overwrite_spec h'
      refine ⟨by simp [hmap], fun q hq => ?_⟩
      rcases List.mem_cons.1 hq with rfl | hq
      · exact .inl (List.mem_cons_self _ _)
      · exact (hmem q hq).imp_left (List.mem_cons_of_mem _)

/-- After an overwrite, the first pair of `key` carries `value`; other keys are untouched. -/
theorem find_overwrite : ∀ {ps ps' : List (K × V)}, overwrite key value ps = some ps' →
    (ps'.find? fun p => p.1 = k).map (·.2) =
      if k = key then some value else (ps.find? fun p => p.1 = k).map (·.2)
  | [], _, h => by simp [overwrite] at h
  | p :: ps, ps', h => by
    unfold overwrite at h
    split_ifs at h with hp
    · cases h
      by_cases hk : k = key <;> simp [List.find?_cons, hp, hk, eq_comm]
    · obtain ⟨ps'', h', rfl⟩ := Option.map_eq_some'.1 h
      by_cases hk : p.1 = k
      · subst hk; simp [hp, Ne.symm hp]
      · simp [hk, find_overwrite h']

/-- `Bucket::Insert` succeeds by overwriting an existing key, or by appending to a bucket
that is not full. -/
theorem insert_eq_some {b b' : Bucket K V} (h : b.insert key value = some b') :
    (∃ ps, overwrite key value b.kvPairs = some ps ∧ b' = { b with kvPairs := ps }) ∨
      (key ∉ b.kvPairs.map (·.1) ∧ b.kvPairs.length < b.maxSize ∧
        b' = { b with kvPairs := b.kvPairs ++ [(key, value)] }) := by
  unfold insert isFull at h
  cases hps : overwrite key value b.kvPairs with
  | some ps => rw [hps] at h; cases h; exact .inl ⟨ps, rfl, rfl⟩
  | none =>
    rw [hps] at h
    split_ifs at h with hfull
    cases h
    exact .inr ⟨overwrite_eq_none_iff.1 hps, by simpa using hfull, rfl⟩

/-- `Bucket::Insert` fails only on a full bucket that does not hold the key. -/
theorem insert_eq_none {b : Bucket K V} (h : b.insert key value = none) :
    key ∉ b.kvPairs.map (·.1) ∧ b.maxSize ≤ b.kvPairs.length := by
  unfold insert isFull at h
  cases hps : overwrite key value b.kvPairs with
  | some ps => rw [hps] at h; cases h
  | none =>
    rw [hps] at h
    split_ifs at h with hfull
    exact ⟨overwrite_eq_none_iff.1 hps, by simpa using hfull⟩

theorem insert_localDepth {b b' : Bucket K V} (h : b.insert key value = some b') :
    b'.localDepth = b.localDepth := by
  rcases insert_eq_some h with ⟨ps, -, rfl⟩ | ⟨-, -, rfl⟩ <;> rfl

/-- A key the bucket does not hold is appended when there is room. -/
theorem insert_fresh {b : Bucket K V} (hkey : key ∉ b.kvPairs.map (·.1))
    (hlen : b.kvPairs.length < b.maxSize) :
    b.insert key value = some { b with kvPairs := b.kvPairs ++ [(key, value)] } := by
  simp [insert, overwrite_eq_none_iff.2 hkey, isFull, hlen]

/-- A full bucket refuses a key it does not hold. -/
theorem insert_of_full {b : Bucket K V} (hkey : key ∉ b.kvPairs.map (·.1))
    (hfull : b.maxSize ≤ b.kvPairs.length) : b.insert key value = none := by
  simp [insert, overwrite_eq_none_iff.2 hkey, isFull, hfull]

theorem find_insert {b b' : Bucket K V} (h : b.insert key value = some b') :
    b'.find k = if k = key then some value else b.find k := by
  rcases insert_eq_some h with ⟨ps, hps, rfl⟩ | ⟨hkey, -, rfl⟩
  · exact find_overwrite hps
  · unfold find
    by_cases hk : k = key
    · subst hk
      have : (b.kvPairs.find? fun p => p.1 = k) = none := List.find?_eq_none.2
        fun q hq hqk => hkey (List.mem_map.2 ⟨q, hq, of_decide_eq_true hqk⟩)
      simp [this]
    · simp [hk, Ne.symm hk]

/-- `Bucket::Remove` finds a pair exactly when `Bucket::Find` does. -/
theorem isSome_eraseKey : ∀ {ps : List (K × V)},
    (eraseKey key ps).isSome = (ps.find? fun p => p.1 = key).isSome
  | [] => rfl
  | p :: ps => by
    by_cases hp : p.1 = key
    · simp [eraseKey, hp]
    · simp [eraseKey, hp, isSome_eraseKey]

/-- Filtering the pairs with a test that every pair of key `k` passes does not change what
`Bucket::Find` returns for `k`. -/
theorem find?_filter_key {q : K × V → Bool} : ∀ {ps : List (K × V)},
    (∀ p ∈ ps, p.1 = k → q p = true) →
      ((ps.filter q).find? fun p => p.1 = k) = ps.find? fun p => p.1 = k
  | [], _ => rfl
  | p :: ps, h => by
    have ih := find?_filter_key fun p' hp' => h p' (List.mem_cons_of_mem _ hp')
    by_cases hk : p.1 = k
    · simp [List.filter_cons, h p (List.mem_cons_self _ _) hk, hk]
    · by_cases hq : q p = true <;> simp [List.filter_cons, hq, hk, ih]

theorem eraseKey_eq_none :
    ∀ {ps : List (K × V)}, eraseKey key ps = none ↔ key ∉ ps.map (·.1)
  | [] => by simp [eraseKey]
  | p :: ps => by
    unfold eraseKey
    split_ifs with hp
    · exact iff_of_false id fun h =>
        h (List.mem_map.2 ⟨p, List.mem_cons_self _ _, hp⟩)
    · rw [Option.map_eq_none', eraseKey_eq_none]
      simp only [List.map_cons, List.mem_cons, Ne.symm hp, false_or]

theorem eraseKey_sublist :
    ∀ {ps ps' : List (K × V)}, eraseKey key ps = some ps' → ps'.Sublist ps
  | [], _, h => by simp [eraseKey] at h
  | p :: ps, ps', h => by
    unfold eraseKey at h
    split_ifs at h
    · cases h; exact List.sublist_cons_self _ _
    · obtain ⟨ps'', h', rfl⟩ := Option.map_eq_some'.1 h
      exact (eraseKey_sublist h').cons₂ _

/-- Erasing the only pair of `key` leaves no pair of it; other keys are untouched. -/
theorem find_eraseKey : ∀ {ps ps' : List (K × V)}, (ps.map (·.1)).Nodup →
    eraseKey key ps = some ps' →
      (ps'.find? fun p => p.1 = k).map (·.2) =
        if k = key then none else (ps.find? fun p => p.1 = k).map (·.2)
  | [], _, _, h => by simp [eraseKey] at h
  | p :: ps, ps', hnd, h => by
    rw [List.map_cons, List.nodup_cons] at hnd
    unfold eraseKey at h
    split_ifs at h with hp
    · cases h
      by_cases hk : k = key
      · subst hk
        have : (ps.find? fun q => q.1 = k) = none := List.find?_eq_none.2 fun q hq hqk =>
          hnd.1 (List.mem_map.2 ⟨q, hq, (of_decide_eq_true hqk).trans hp.symm⟩)
        simp [this]
      · simp [hp, Ne.symm hk, hk]
    · obtain ⟨ps'', h', rfl⟩ := Option.map_eq_some'.1 h
      by_cases hk : p.1 = k
      · subst hk; simp [hp]
      · simp [hk, find_eraseKey hnd.2 h']

end Bucket

/-- The table's fields: `dir_` as addresses into `heap`, the buckets allocated so far. -/
structure ExtendibleHashTable (K V : Type) where
  dir : List Nat
  globalDepth : Nat
  bucketSize : Nat
  numBuckets : Nat
  heap : Nat → Bucket K V
  nextAddr : Nat

namespace ExtendibleHashTable

variable {K V : Type} [DecidableEq K] [Hashable K]

/-- The constructor: one empty bucket of depth zero, the whole directory. -/
def init (bucketSize : Nat) : ExtendibleHashTable K V :=
  ⟨[0], 0, bucketSize, 1, fun _ => ⟨[], bucketSize, 0⟩, 1⟩

/-- `int mask = (1 << global_depth_) - 1` of `IndexOf`, as the `size_t` operand of `&`:
`2 ^ n - 1` for `n ≤ 30`. From `n = 31` on the shift, or `INT_MIN - 1` after it, overflows
`int`; gcc takes the shift count modulo 32 and wraps `INT_MIN - 1` to `INT_MAX`, so the mask
is the low `n % 32` bits, and `0` at depth 32. -/
def lowBitsMask (n : Nat) : Nat := 2 ^ (n % 32) - 1

/-- `size_t split_mask = 1 << split_bit` of `SplitBucket`: `2 ^ n` for `n ≤ 30`. Past it, as
gcc computes the undefined shift: the count modulo 32, with `1 << 31 = INT_MIN`
sign-extended to `size_t`. -/
def splitMask (n : Nat) : Nat := if n % 32 = 31 then 2 ^ 64 - 2 ^ 31 else 2 ^ (n % 32)

/-- `IndexOf`: the hash under the `int` mask. -/
def indexOf (t : ExtendibleHashTable K V) (key : K) : Nat :=
  (hash key).toNat &&& lowBitsMask t.globalDepth

/-- `Find`, with its check that the index is inside the directory. -/
def find (t : ExtendibleHashTable K V) (key : K) : Option V :=
  if h : t.indexOf key < t.dir.length then (t.heap t.dir[t.indexOf key]).find key else none

/-- `Remove`: whether a pair was erased, and the table after it. -/
def remove (t : ExtendibleHashTable K V) (key : K) : Bool × ExtendibleHashTable K V :=
  if h : t.indexOf key < t.dir.length then
    match (t.heap t.dir[t.indexOf key]).remove key with
    | some b => (true, { t with heap := Function.update t.heap t.dir[t.indexOf key] b })
    | none => (false, t)
  else (false, t)

/-! ## Splitting a bucket -/

/-- Step 1 of `SplitBucket`: when the bucket is as deep as the directory, the directory
doubles, each new slot a copy of its twin. -/
def growDir (t : ExtendibleHashTable K V) (bucket : Nat) : ExtendibleHashTable K V :=
  if (t.heap bucket).localDepth = t.globalDepth then
    { t with dir := t.dir ++ t.dir, globalDepth := t.globalDepth + 1 }
  else t

/-- Step 4 of `SplitBucket`: the slots of `bucket` that meet `split_mask` move to
`newBucket`. -/
def repoint (dir : List Nat) (bucket newBucket splitBit : Nat) : List Nat :=
  dir.mapIdx fun i b => if b = bucket ∧ i &&& splitMask splitBit ≠ 0 then newBucket else b

/-- One turn of the rehash loop of `SplitBucket` at the pair `p`: a pair whose slot now
holds the new bucket is inserted there (the result of `Insert` is ignored) and erased from
the old bucket; the others stay, in order. -/
def rehashStep (t : ExtendibleHashTable K V) (newBucket : Nat)
    (acc : List (K × V) × Bucket K V) (p : K × V) : List (K × V) × Bucket K V :=
  if t.dir[t.indexOf p.1]? = some newBucket then (acc.1, (acc.2.insert p.1 p.2).getD acc.2)
  else (acc.1 ++ [p], acc.2)

/-- Steps 2 to 5 of `SplitBucket`: deepen the bucket, allocate its sibling at the same
depth, repoint the slots that meet `split_mask` for `split_bit = local_depth - 1`, and move
the pairs whose slot now holds the sibling. -/
def splitHalves (t : ExtendibleHashTable K V) (bucket : Nat) : ExtendibleHashTable K V :=
  let newLocalDepth := (t.heap bucket).localDepth + 1
  let newBucket := t.nextAddr
  let t := { t with
    dir := repoint t.dir bucket newBucket (newLocalDepth - 1)
    numBuckets := t.numBuckets + 1
    nextAddr := t.nextAddr + 1
    heap := Function.update t.heap bucket { t.heap bucket with localDepth := newLocalDepth } }
  let (kept, moved) := (t.heap bucket).kvPairs.foldl (t.rehashStep newBucket)
    ([], ⟨[], t.bucketSize, newLocalDepth⟩)
  { t with heap := Function.update (Function.update t.heap bucket
      { t.heap bucket with kvPairs := kept }) newBucket moved }

/-- `SplitBucket(bucket)`. -/
def splitBucket (t : ExtendibleHashTable K V) (bucket : Nat) : ExtendibleHashTable K V :=
  (t.growDir bucket).splitHalves bucket

/-- `Insert(key, value)`: try the bucket of `key`, and split it and retry when it is full;
at most `fuel` turns of the loop. The unchecked `dir_[index]` outside the directory is
undefined, `none` here. -/
def insert (fuel : Nat) (t : ExtendibleHashTable K V) (key : K) (value : V) :
    Option (ExtendibleHashTable K V) :=
  match fuel with
  | 0 => none
  | fuel + 1 =>
    if h : t.indexOf key < t.dir.length then
      match (t.heap t.dir[t.indexOf key]).insert key value with
      | some b => some { t with heap := Function.update t.heap t.dir[t.indexOf key] b }
      | none => insert fuel (t.splitBucket t.dir[t.indexOf key]) key value
    else none

/-- `GetGlobalDepth()`. -/
def getGlobalDepth (t : ExtendibleHashTable K V) : Nat := t.globalDepth

/-- `GetLocalDepth(dir_index)`, for an index inside the directory. -/
def getLocalDepth (t : ExtendibleHashTable K V) (dirIndex : Nat) (h : dirIndex < t.dir.length) :
    Nat :=
  (t.heap t.dir[dirIndex]).localDepth

/-- `GetNumBuckets()`. -/
def getNumBuckets (t : ExtendibleHashTable K V) : Nat := t.numBuckets

/-- `~ExtendibleHashTable()`: the buckets it deletes, the distinct entries of `dir_` that it
collects in `unique_buckets`, each deleted once. -/
def uniqueBuckets (t : ExtendibleHashTable K V) : List Nat := t.dir.dedup

/-! ## Runs of the public interface -/

/-- A call of the public interface. -/
inductive Call (K V : Type) where
  | insert (key : K) (value : V)
  | remove (key : K)
  | find (key : K)

/-- What a call returns: `Insert` nothing, `Remove` its flag, `Find` its flag together with
the value it writes to its out-parameter. -/
inductive Reply (V : Type) where
  | done
  | removed (ok : Bool)
  | found (value : Option V)

/-- One call. An `Insert` is a step when its loop returns within some number of turns. -/
inductive Step : ExtendibleHashTable K V → Call K V → Reply V → ExtendibleHashTable K V → Prop
  | insert {t t' : ExtendibleHashTable K V} {key : K} {value : V} (fuel : Nat) :
      t.insert fuel key value = some t' → Step t (.insert key value) .done t'
  | remove (t : ExtendibleHashTable K V) (key : K) :
      Step t (.remove key) (.removed (t.remove key).1) (t.remove key).2
  | find (t : ExtendibleHashTable K V) (key : K) : Step t (.find key) (.found (t.find key)) t

/-- A run from `t₀`: the calls in order, their replies, and the table they leave. -/
inductive Run (t₀ : ExtendibleHashTable K V) :
    List (Call K V) → List (Reply V) → ExtendibleHashTable K V → Prop
  | nil : Run t₀ [] [] t₀
  | snoc {cs : List (Call K V)} {outs : List (Reply V)} {t t' : ExtendibleHashTable K V}
      {c : Call K V} {out : Reply V} :
      Run t₀ cs outs t → Step t c out t' → Run t₀ (cs ++ [c]) (outs ++ [out]) t'

end ExtendibleHashTable

end Bustub
