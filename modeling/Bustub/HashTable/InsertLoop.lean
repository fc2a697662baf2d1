import Bustub.HashTable.Refinement
import Mathlib.Data.List.Perm.Subperm
import Mathlib.Algebra.Group.Int

/-! # The retry loop of `Insert`, and how deep it takes the table

`Insert` loops until `Bucket::Insert` succeeds on the bucket of its key, splitting that bucket
after each failure. The measure of the loop is the local depth of the bucket the key indexes:
every split raises it by one (`Inv.depthAt_indexOf_splitBucket`), and once it reaches `D`,
the bucket holds only keys that agree with the key on the low `D` bits of their hash. So when
fewer than `bucket_size_` stored keys other than the key agree with it on those bits, the
bucket then has room and the loop returns after at most `D + 1` turns, having split only
buckets shallower than `D` (`Inv.insert_eq_some`). For `D = 30` the directory stays at depth
30, where the `int` masks are in range (`insert_terminates`).

The same argument bounds the depth from below: keys that agree on their low `d` hash bits,
more than a bucket holds, are only stored in buckets deeper than `d`
(`Inv.lt_depthAt_of_agree`). For `ExtendibleHashTable<int, V>`, whose hash is the key
converted to `size_t`, the keys `0` and `1 << 30` agree on 30 bits, so storing both in
buckets of size one takes the global depth to 31, where `(1 << global_depth_) - 1` of
`IndexOf` overflows `int` (`int_keys_depth_31`).
-/

namespace Bustub

namespace ExtendibleHashTable

variable {K V : Type} [Hashable K] [DecidableEq K] {t : ExtendibleHashTable K V}
  {key : K} {value : V}

/-! ## One failed turn -/

omit [DecidableEq K] [Hashable K] in
theorem splitBucket_bucketSize [DecidableEq K] [Hashable K] (t : ExtendibleHashTable K V)
    (b : Nat) : (t.splitBucket b).bucketSize = t.bucketSize :=
  growDir_bucketSize t b

omit [DecidableEq K] [Hashable K] in
/-- The split deepens the directory exactly when the bucket is as deep as it. -/
theorem globalDepth_splitBucket [DecidableEq K] [Hashable K] (t : ExtendibleHashTable K V)
    (i₀ : Nat) : (t.splitBucket (t.slot i₀)).globalDepth =
      if t.depthAt i₀ = t.globalDepth then t.globalDepth + 1 else t.globalDepth :=
  growDir_globalDepth t _

omit [DecidableEq K] [Hashable K] in
theorem bucketSize_insert [DecidableEq K] [Hashable K] :
    ∀ (fuel : Nat) {t t' : ExtendibleHashTable K V}, t.insert fuel key value = some t' →
      t'.bucketSize = t.bucketSize
  | 0, _, _, h => by simp [ExtendibleHashTable.insert] at h
  | fuel + 1, t, t', h => by
    unfold ExtendibleHashTable.insert at h
    split_ifs at h
    split at h
    · cases h; rfl
    · exact (bucketSize_insert fuel h :).trans (splitBucket_bucketSize t _)

/-- A split raises by one the local depth of the bucket that the key indexes: the key's slot
in the grown directory still holds the split bucket, and both halves are one deeper. -/
theorem Inv.depthAt_indexOf_splitBucket (h : t.Inv) (key : K)
    (hG : (t.splitBucket (t.slot (t.indexOf key))).globalDepth < 32) :
    (t.splitBucket (t.slot (t.indexOf key))).depthAt
        ((t.splitBucket (t.slot (t.indexOf key))).indexOf key) =
      t.depthAt (t.indexOf key) + 1 := by
  have hi₀ := h.indexOf_lt_pow key
  obtain ⟨hs, hd, hi⟩ := h.growDir_slot hi₀
  have hg := h.growDir hG
  have hj := hg.indexOf_lt_pow key
  have hslot : (t.growDir (t.slot (t.indexOf key))).slot
      ((t.growDir (t.slot (t.indexOf key))).indexOf key) =
      (t.growDir (t.slot (t.indexOf key))).slot (t.indexOf key) := by
    rw [h.growDir_slot_mod _ hj, hs, hg.indexOf_eq, h.indexOf_eq,
      mod_mod_two_pow _ (le_growDir_globalDepth t _)]
  rw [h.splitBucket_eq hi₀ hG]
  show ((t.growDir _).halved _).depthAt ((t.growDir _).indexOf key) = _
  rw [hg.halved_depthAt hi hd hj, if_pos hslot]
  simp only [depthAt, hs, growDir_heap]

/-! ## The last turn -/

/-- Fewer than `bucket_size_` of the keys stored in `t` other than `key` agree with `key` on
the low `D` bits of their hash. -/
def FewCollisions (t : ExtendibleHashTable K V) (key : K) (D : Nat) : Prop :=
  ∀ ks : List K, ks.Nodup → (∀ k ∈ ks, k ≠ key ∧ (t.find k).isSome ∧
    (hash k).toNat % 2 ^ D = (hash key).toNat % 2 ^ D) → ks.length < t.bucketSize

variable {D : Nat}

/-- Low hash bits that tell `key` apart from every other stored key leave no collision. -/
theorem fewCollisions_of_injective (hb : 1 ≤ t.bucketSize)
    (hinj : ∀ k, (t.find k).isSome → (hash k).toNat % 2 ^ D = (hash key).toNat % 2 ^ D →
      k = key) : t.FewCollisions key D
  | [], _, _ => hb
  | k :: _, _, hks =>
    have hk := hks k (List.mem_cons_self _ _)
    absurd (hinj k hk.2.1 hk.2.2) hk.1

theorem Inv.fewCollisions_splitBucket (h : t.Inv) {i₀ : Nat} (hi₀ : i₀ < 2 ^ t.globalDepth)
    (hG : (t.splitBucket (t.slot i₀)).globalDepth < 32) (hf : t.FewCollisions key D) :
    (t.splitBucket (t.slot i₀)).FewCollisions key D :=
  fun ks hnd hks => splitBucket_bucketSize t _ ▸ hf ks hnd fun k hk => by
    rw [← h.find_splitBucket hi₀ hG]; exact hks k hk

/-- A stored key sits in the bucket of its own slot. -/
theorem Inv.mem_keys_of_find (h : t.Inv) {k : K} (hk : (t.find k).isSome) :
    k ∈ (t.heap (t.slot (t.indexOf k))).kvPairs.map (·.1) := by
  rw [h.find_eq, Bucket.find, Option.isSome_map', List.find?_isSome] at hk
  obtain ⟨p, hp, hpk⟩ := hk
  exact List.mem_map.2 ⟨p, hp, of_decide_eq_true hpk⟩

/-- A bucket at depth `D` or more for `key` holds only keys that agree with `key` on their
low `D` hash bits, so with few collisions `Bucket::Insert` succeeds: it overwrites `key`, or
there is room. -/
theorem Inv.bucket_insert_isSome (h : t.Inv) (hf : t.FewCollisions key D)
    (hdeep : D ≤ t.depthAt (t.indexOf key)) (value : V) :
    ((t.heap (t.slot (t.indexOf key))).insert key value).isSome := by
  have hi := h.indexOf_lt_pow key
  have hhash : ∀ p ∈ (t.heap (t.slot (t.indexOf key))).kvPairs,
      (hash p.1).toNat % 2 ^ D = (hash key).toNat % 2 ^ D := fun p hp => by
    rw [← mod_mod_two_pow _ hdeep, h.hash_mod _ hi p hp, h.indexOf_mod_two_pow (h.depth_le _ hi),
      mod_mod_two_pow _ hdeep]
  cases ho : Bucket.overwrite key value (t.heap (t.slot (t.indexOf key))).kvPairs with
  | some ps => simp [Bucket.insert, ho]
  | none =>
    have hkey := Bucket.overwrite_eq_none_iff.1 ho
    have hlen := hf _ (h.nodup _ hi) fun k hk => by
      obtain ⟨p, hp, rfl⟩ := List.mem_map.1 hk
      refine ⟨fun he => hkey (he ▸ hk), ?_, hhash p hp⟩
      rw [h.find_eq, h.slot_indexOf hi hp, Bucket.find, Option.isSome_map', List.find?_isSome]
      exact ⟨p, hp, decide_eq_true rfl⟩
    rw [List.length_map, ← h.maxSize_eq _ hi] at hlen
    rw [Bucket.insert_fresh hkey hlen]; rfl

/-! ## The whole loop -/

/-- From a table whose bucket for `key` is `n` splits short of depth `D ≤ 31`, the loop returns
one table for every fuel above `n`, having split only buckets shallower than `D`: the
directory ends no deeper than it was or than `D`. -/
theorem Inv.insert_eq_some_of_depth (hD : D ≤ 31) (n : Nat) :
    ∀ {t : ExtendibleHashTable K V}, t.Inv → t.FewCollisions key D →
      D ≤ t.depthAt (t.indexOf key) + n →
      ∃ t', t'.globalDepth ≤ max t.globalDepth D ∧
        ∀ fuel, n < fuel → t.insert fuel key value = some t' := by
  intro t h hf hdeep
  have hi := h.indexOf_lt_pow key
  cases hb : (t.heap (t.slot (t.indexOf key))).insert key value with
  | some b =>
    refine ⟨{ t with heap := Function.update t.heap (t.slot (t.indexOf key)) b },
      le_max_left _ _, fun fuel hfuel => ?_⟩
    obtain ⟨f, rfl⟩ : ∃ f, fuel = f + 1 := ⟨fuel - 1, by omega⟩
    exact h.insert_succ_of_some hb f
  | none =>
    -- the bucket is shallower than `D`, so the split leaves the directory at `D` at most
    have hlt : t.depthAt (t.indexOf key) < D := Nat.lt_of_not_le fun hle =>
      absurd (h.bucket_insert_isSome hf hle value) (by simp [hb])
    have hle := h.depth_le _ hi
    have h32 := h.globalDepth_lt
    have hG : (t.splitBucket (t.slot (t.indexOf key))).globalDepth ≤ max t.globalDepth D := by
      rw [globalDepth_splitBucket]; split_ifs <;> omega
    match n, hdeep with
    | 0, hdeep => omega
    | n + 1, hdeep =>
      obtain ⟨t', hG', ht'⟩ := (h.splitBucket hi (by omega)).insert_eq_some_of_depth hD n
        (h.fewCollisions_splitBucket hi (by omega) hf)
        (by rw [h.depthAt_indexOf_splitBucket key (by omega)]; omega)
      refine ⟨t', by omega, fun fuel hfuel => ?_⟩
      obtain ⟨f, rfl⟩ : ∃ f, fuel = f + 1 := ⟨fuel - 1, by omega⟩
      rw [h.insert_succ_of_none hb]
      exact ht' f (by omega)

/-- On every table satisfying `Inv` with few collisions for `key` on `D ≤ 31` bits, the loop
returns within `D + 1` turns, no deeper than the table or `D`. -/
theorem Inv.insert_eq_some (hD : D ≤ 31) (h : t.Inv) (hf : t.FewCollisions key D) :
    ∃ t', t'.globalDepth ≤ max t.globalDepth D ∧
      ∀ fuel, D + 1 ≤ fuel → t.insert fuel key value = some t' :=
  (h.insert_eq_some_of_depth hD D hf (Nat.le_add_left _ _)).imp fun _ ⟨hG, ht⟩ =>
    ⟨hG, fun fuel hfuel => ht fuel hfuel⟩

/-- More than `bucket_size_` stored keys that agree on their low `d` hash bits are each in a
bucket deeper than `d`: at depth `d` or less they would share one bucket. -/
theorem Inv.lt_depthAt_of_agree (h : t.Inv) {ks : List K} (hnd : ks.Nodup)
    (hfound : ∀ k ∈ ks, (t.find k).isSome) {d c : Nat}
    (hagree : ∀ k ∈ ks, (hash k).toNat % 2 ^ d = c) (hlen : t.bucketSize < ks.length) :
    ∀ k ∈ ks, d < t.depthAt (t.indexOf k) := by
  intro k hk
  by_contra hle
  have hi := h.indexOf_lt_pow k
  have he := h.depth_le _ hi
  -- every key of `ks` indexes the bucket of `k`
  have hsame : ∀ k' ∈ ks, t.slot (t.indexOf k') = t.slot (t.indexOf k) := fun k' hk' => by
    rw [h.slot_eq_iff _ hi _ (h.indexOf_lt_pow k'), h.indexOf_mod_two_pow he,
      h.indexOf_mod_two_pow he, ← mod_mod_two_pow (hash k').toNat (Nat.le_of_not_lt hle),
      hagree k' hk', ← mod_mod_two_pow (hash k).toNat (Nat.le_of_not_lt hle), hagree k hk]
  have hsub : ks ⊆ (t.heap (t.slot (t.indexOf k))).kvPairs.map (·.1) := fun k' hk' =>
    hsame k' hk' ▸ h.mem_keys_of_find (hfound k' hk')
  have := (hnd.subperm hsub).length_le
  rw [List.length_map] at this
  exact absurd (this.trans (h.length_le _ hi)) (Nat.not_le_of_lt hlen)

/-! ## `int` keys -/

/-- `int`: a 32-bit signed integer. -/
structure CInt where
  val : Int
  ge_min : -2 ^ 31 ≤ val
  lt_max : val < 2 ^ 31
deriving DecidableEq

/-- Modelled from the spec: `std::hash<int>`, the value converted to `size_t`. -/
instance : Hashable CInt := ⟨fun x => UInt64.ofNat (x.val % 2 ^ 64).toNat⟩

/-- `IndexOf` as C++ defines it, with `int mask = (1 << global_depth_) - 1`: from
`global_depth_ = 31` on, the mask overflows `int` and is undefined (`none`); a mask in range is
non-negative and keeps its value as the `size_t` operand of `&`. -/
def indexOfInt (t : ExtendibleHashTable K V) (key : K) : Option Nat :=
  if 2 ^ t.globalDepth < 2 ^ 31 then some ((hash key).toNat &&& (2 ^ t.globalDepth - 1))
  else none

omit [DecidableEq K] in
/-- Up to global depth 30, what gcc computes for `IndexOf` is what C++ defines. -/
theorem indexOfInt_eq (hd : t.globalDepth ≤ 30) (key : K) :
    t.indexOfInt key = some (t.indexOf key) := by
  rw [indexOfInt, if_pos (Nat.pow_lt_pow_right (by omega) (by omega)), indexOf,
    lowBitsMask_of_lt (by omega)]

omit [DecidableEq K] in
theorem indexOfInt_eq_none (hd : 31 ≤ t.globalDepth) (key : K) : t.indexOfInt key = none :=
  if_neg (Nat.not_lt_of_le (Nat.pow_le_pow_right (by omega) hd))

/-- Inserting `0` and then `1 << 30` into an `ExtendibleHashTable<int, int>` of bucket size
one: both loops return, the two keys agree on their low 30 hash bits, and the table ends at
global depth 31, where the `int` mask of `IndexOf` is undefined for every key. -/
theorem int_keys_depth_31 :
    ∃ t : ExtendibleHashTable CInt Int,
      (init 1).Run ([] ++ [.insert ⟨0, by decide, by decide⟩ 0] ++
          [.insert ⟨1 <<< 30, by decide, by decide⟩ 0]) ([] ++ [.done] ++ [.done]) t ∧
        t.globalDepth = 31 ∧ ∀ k, t.indexOfInt k = none := by
  let k₀ : CInt := ⟨0, by decide, by decide⟩
  let k₁ : CInt := ⟨1 <<< 30, by decide, by decide⟩
  have h₀ := init_inv (K := CInt) (V := Int) 1
  have hnone : ∀ k, (init 1 : ExtendibleHashTable CInt Int).find k = none := fun k => by
    rw [h₀.find_eq]; rfl
  -- the first loop returns, at depth 0
  obtain ⟨t₁, hG₁, ht₁⟩ : ∃ t', _ ∧ ∀ fuel, _ → (init 1).insert fuel k₀ (0 : Int) = some t' :=
    h₀.insert_eq_some (D := 31) (by decide) (fewCollisions_of_injective (le_refl 1) fun k hk => by simp [hnone] at hk)
  have e₁ := ht₁ 32 le_rfl
  have h₁ := Inv.insert 32 h₀ e₁ (by simp only [init] at hG₁; omega)
  have hf₁ : ∀ k, t₁.find k = if k = k₀ then some 0 else none := fun k => by
    rw [Inv.find_insert 32 h₀ e₁ (by simp only [init] at hG₁; omega), hnone]
  have hb₁ : t₁.bucketSize = 1 := bucketSize_insert 32 e₁
  -- the second loop returns: `0` and `1 << 30` differ in bit 30
  obtain ⟨t₂, hG₂, ht₂⟩ : ∃ t', _ ∧ ∀ fuel, _ → t₁.insert fuel k₁ (0 : Int) = some t' :=
    h₁.insert_eq_some (D := 31) (by decide) (fewCollisions_of_injective hb₁.ge fun k hk hh => by
      rw [hf₁] at hk
      split_ifs at hk with hk₀
      · subst hk₀; exact absurd hh (by decide)
      · exact absurd hk (by simp))
  have e₂ := ht₂ 32 le_rfl
  have hG₂' : t₂.globalDepth < 32 := by simp only [init] at hG₁; omega
  have h₂ := Inv.insert 32 h₁ e₂ hG₂'
  have hf₂ : ∀ k, t₂.find k = if k = k₁ then some 0 else t₁.find k :=
    Inv.find_insert 32 h₁ e₂ hG₂'
  have hb₂ : t₂.bucketSize = 1 := (bucketSize_insert 32 e₂).trans hb₁
  -- both keys are stored and agree on 30 bits, one more than a bucket holds
  have hdeep := h₂.lt_depthAt_of_agree (d := 30) (c := 0) (by decide : [k₀, k₁].Nodup)
    (fun k hk => by
      rcases List.mem_pair.1 hk with rfl | rfl
      · rw [hf₂, if_neg (by decide), hf₁, if_pos rfl]; rfl
      · rw [hf₂, if_pos rfl]; rfl)
    (fun k hk => by rcases List.mem_pair.1 hk with rfl | rfl <;> decide)
    (by rw [hb₂]; decide) k₀ (List.mem_cons_self _ _)
  have hG := hdeep.trans_le (h₂.depth_le _ (h₂.indexOf_lt_pow k₀))
  refine ⟨t₂, .snoc (.snoc .nil (.insert 32 e₁)) (.insert 32 e₂), by omega,
    fun k => indexOfInt_eq_none (by omega) k⟩

end ExtendibleHashTable

end Bustub
