import Bustub.HashTable.Shape

/-! # How deep the table stays

A turn of the loop of `Insert` fails only on a full bucket that does not hold the key: the
key and the keys of that bucket are `bucket_size_ + 1` distinct keys that agree on the low
`d` bits of their hash, `d` the depth of the bucket (`Inv.agree_of_full`). So when no
`bucket_size_ + 1` of the stored keys and the key agree on their low `D` bits, the loop only
splits buckets shallower than `D` (`Inv.depthAt_lt_of_full`), and the directory, which
doubles only when a bucket as deep as it splits, stays at depth `D` or less
(`Inv.globalDepth_insert_le`). Over a run every stored key was inserted, so when no
`bucket_size_ + 1` inserted keys agree on their low `D ≤ 30` bits, the global depth never
passes `D`, and the `int` masks stay in range (`Run.fewAgree_inv`, `run_globalDepth_le`).

`int` keys, whose hash is the key converted to `size_t`, agree on their low 30 bits at most
four at a time (`fewAgree_cInt`). With buckets of four pairs or more, every run of an
`ExtendibleHashTable<int, V>` keeps the global depth at 30 or less, where the `int` masks
`(1 << global_depth_) - 1` of `IndexOf` and `1 << split_bit` of `SplitBucket` and the `int`
counter `num_buckets_` stay in range, and `IndexOf` computes the model's index
(`int_keys_depth_30`).
-/

namespace Bustub

namespace ExtendibleHashTable

variable {K V : Type} [Hashable K] [DecidableEq K] {t : ExtendibleHashTable K V}
  {key : K} {value : V}

/-- No more than `bucketSize` distinct keys satisfying `S` agree on their low `D` hash bits. -/
def FewAgree (S : K → Prop) (D bucketSize : Nat) : Prop :=
  ∀ ks : List K, ks.Nodup → (∀ k ∈ ks, S k) → ∀ c, (∀ k ∈ ks, (hash k).toNat % 2 ^ D = c) →
    ks.length ≤ bucketSize

omit [DecidableEq K] in
theorem FewAgree.mono {S S' : K → Prop} {D b b' : Nat} (hf : FewAgree S D b)
    (hS : ∀ k, S' k → S k) (hb : b ≤ b') : FewAgree S' D b' :=
  fun ks hnd hks c hc => (hf ks hnd (fun k hk => hS k (hks k hk)) c hc).trans hb

/-- When the key and the stored keys agree on their low `D` bits at most `bucket_size_` at a
time, fewer than `bucket_size_` stored keys other than the key agree with it. -/
theorem FewAgree.fewCollisions {D : Nat}
    (hf : FewAgree (fun k => k = key ∨ (t.find k).isSome) D t.bucketSize) :
    t.FewCollisions key D := fun ks hnd hks => by
  have := hf (key :: ks) (List.nodup_cons.2 ⟨fun hk => (hks key hk).1 rfl, hnd⟩)
    (fun k hk => (List.mem_cons.1 hk).elim .inl fun hk => .inr (hks k hk).2.1)
    ((hash key).toNat % 2 ^ D) fun k hk => (List.mem_cons.1 hk).elim (· ▸ rfl) fun hk =>
      (hks k hk).2.2
  rw [List.length_cons] at this
  omega

/-! ## One failed turn -/

/-- A key in the bucket of a slot is stored. -/
theorem Inv.find_isSome_of_mem (h : t.Inv) {i : Nat} (hi : i < 2 ^ t.globalDepth)
    {p : K × V} (hp : p ∈ (t.heap (t.slot i)).kvPairs) : (t.find p.1).isSome := by
  rw [h.find_eq, h.slot_indexOf hi hp, Bucket.find, Option.isSome_map', List.find?_isSome]
  exact ⟨p, hp, decide_eq_true rfl⟩

/-- When `Bucket::Insert` fails on the bucket of `key`, the key and the keys of the bucket
are `bucket_size_ + 1` distinct keys, the key or stored ones, that agree on the low bits of
their hash up to the depth of the bucket. -/
theorem Inv.agree_of_full (h : t.Inv)
    (hb : (t.heap (t.slot (t.indexOf key))).insert key value = none) :
    ∃ ks : List K, ks.Nodup ∧ (∀ k ∈ ks, k = key ∨ (t.find k).isSome) ∧
      (∀ k ∈ ks, (hash k).toNat % 2 ^ t.depthAt (t.indexOf key) =
        t.indexOf key % 2 ^ t.depthAt (t.indexOf key)) ∧
      ks.length = t.bucketSize + 1 := by
  have hi := h.indexOf_lt_pow key
  obtain ⟨hkey, hfull⟩ := Bucket.insert_eq_none hb
  have hlen := h.length_le _ hi
  rw [← h.maxSize_eq _ hi] at hlen
  refine ⟨key :: (t.heap (t.slot (t.indexOf key))).kvPairs.map (·.1),
    List.nodup_cons.2 ⟨hkey, h.nodup _ hi⟩, ?_, ?_, ?_⟩
  · simp only [List.mem_cons, List.mem_map]
    rintro k (rfl | ⟨p, hp, rfl⟩)
    · exact .inl rfl
    · exact .inr (h.find_isSome_of_mem hi hp)
  · simp only [List.mem_cons, List.mem_map]
    rintro k (rfl | ⟨p, hp, rfl⟩)
    · exact (h.indexOf_mod_two_pow (h.depth_le _ hi) k).symm
    · exact h.hash_mod _ hi p hp
  · have := h.maxSize_eq _ hi
    rw [List.length_cons, List.length_map]
    omega

/-- The loop of `Insert` splits only when the key and the stored keys number more than
`bucket_size_`: when no `bucket_size_ + 1` of them are distinct, the first turn succeeds, and
the directory, its depth and `num_buckets_` stay. -/
theorem Inv.insert_no_split (h : t.Inv) {fuel : Nat} {t' : ExtendibleHashTable K V}
    (hins : t.insert fuel key value = some t')
    (hfew : ∀ ks : List K, ks.Nodup → (∀ k ∈ ks, k = key ∨ (t.find k).isSome) →
      ks.length ≤ t.bucketSize) :
    t'.dir = t.dir ∧ t'.globalDepth = t.globalDepth ∧ t'.numBuckets = t.numBuckets := by
  cases fuel with
  | zero => cases hins
  | succ fuel =>
    cases hb : (t.heap (t.slot (t.indexOf key))).insert key value with
    | none =>
      -- a failed first turn names `bucket_size_ + 1` distinct keys, the key or stored ones
      obtain ⟨ks, hnd, hks, -, hlen⟩ := h.agree_of_full hb
      have := hfew ks hnd hks
      omega
    | some b =>
      rw [h.insert_succ_of_some hb] at hins
      cases hins
      exact ⟨rfl, rfl, rfl⟩

/-- With few keys agreeing on their low `D` bits, the bucket that the loop splits is
shallower than `D`. -/
theorem Inv.depthAt_lt_of_full (h : t.Inv) {D : Nat}
    (hb : (t.heap (t.slot (t.indexOf key))).insert key value = none)
    (hf : FewAgree (fun k => k = key ∨ (t.find k).isSome) D t.bucketSize) :
    t.depthAt (t.indexOf key) < D := by
  obtain ⟨ks, hnd, hks, hagree, hlen⟩ := h.agree_of_full hb
  refine Nat.lt_of_not_le fun hle => ?_
  have := hf ks hnd hks (t.indexOf key % 2 ^ D) fun k hk => by
    rw [← mod_mod_two_pow _ hle, hagree k hk, mod_mod_two_pow _ hle]
  omega

/-! ## The whole loop -/

/-- When no `bucket_size_ + 1` of the stored keys and `key` agree on their low `D ≤ 31` hash
bits, `Insert(key, value)` leaves a table of global depth `D` or less. -/
theorem Inv.globalDepth_insert_le {D : Nat} (hD : D ≤ 31) :
    ∀ (fuel : Nat) {t t' : ExtendibleHashTable K V}, t.Inv → t.insert fuel key value = some t' →
      t.globalDepth ≤ D → FewAgree (fun k => k = key ∨ (t.find k).isSome) D t.bucketSize →
      t'.globalDepth ≤ D
  | 0, _, _, _, h', _, _ => by simp [ExtendibleHashTable.insert] at h'
  | fuel + 1, t, t', h, h', hle, hf => by
    cases hb : (t.heap (t.slot (t.indexOf key))).insert key value with
    | some b => rw [h.insert_succ_of_some hb, Option.some.injEq] at h'; subst h'; exact hle
    | none =>
      rw [h.insert_succ_of_none hb] at h'
      have hi := h.indexOf_lt_pow key
      have hlt := h.depthAt_lt_of_full hb hf
      -- the split bucket is shallower than `D`, so the directory stays at `D` at most
      have hG : (t.splitBucket (t.slot (t.indexOf key))).globalDepth ≤ D := by
        have := h.depth_le _ hi
        rw [globalDepth_splitBucket]; split_ifs <;> omega
      exact Inv.globalDepth_insert_le hD fuel (h.splitBucket hi (by omega)) h' hG
        (hf.mono (fun k => by rw [h.find_splitBucket hi (by omega)]; exact id)
          (splitBucket_bucketSize t _).ge)

/-! ## Runs -/

variable {S : K → Prop} {D : Nat}

/-- One call keeps the global depth at `D ≤ 31` or less, and every stored key in `S`, when
the keys of `S` agree on their low `D` bits at most `bucket_size_` at a time and an inserted
key is in `S`. -/
theorem Inv.step_globalDepth_le (h : t.Inv) (hS : FewAgree S D t.bucketSize) (hD31 : D ≤ 31)
    (hD : t.globalDepth ≤ D) (hstored : ∀ k, (t.find k).isSome → S k) {c : Call K V}
    {out : Reply V} {t' : ExtendibleHashTable K V} (hs : Step t c out t')
    (hc : ∀ k v, c = .insert k v → S k) :
    t'.globalDepth ≤ D ∧ ∀ k, (t'.find k).isSome → S k := by
  cases hs with
  | @insert _ k v fuel h' =>
    have hD' := Inv.globalDepth_insert_le hD31 fuel h h' hD
      (hS.mono (fun k' => Or.rec (· ▸ hc k v rfl) (hstored k')) le_rfl)
    refine ⟨hD', fun k' hk' => ?_⟩
    rw [Inv.find_insert fuel h h' (by omega)] at hk'
    split_ifs at hk' with hk
    · exact hk ▸ hc k v rfl
    · exact hstored k' hk'
  | remove key =>
    refine ⟨(remove_globalDepth t key).symm ▸ hD, fun k hk => ?_⟩
    rw [(h.find_remove key).2] at hk
    split_ifs at hk
    · cases hk
    · exact hstored k hk
  | find => exact ⟨hD, hstored⟩

/-- Over every run from the constructor whose inserted keys are in `S`, where the keys of
`S` agree on their low `D ≤ 31` hash bits at most `bucket_size_` at a time, every table
satisfies `Inv`, keeps its bucket size, stays at depth `D` or less and stores keys of `S`
only. -/
theorem Run.fewAgree_inv {bucketSize : Nat} (hS : FewAgree S D bucketSize) (hD : D ≤ 31)
    {cs : List (Call K V)} {outs : List (Reply V)} (hrun : (init bucketSize).Run cs outs t)
    (hins : ∀ k v, Call.insert k v ∈ cs → S k) :
    t.Inv ∧ t.bucketSize = bucketSize ∧ t.globalDepth ≤ D ∧ ∀ k, (t.find k).isSome → S k := by
  induction hrun with
  | nil => exact ⟨init_inv _, rfl, Nat.zero_le _, fun k hk => by simp [find_init] at hk⟩
  | snoc _ hs ih =>
    obtain ⟨h, hb, hle, hstored⟩ := ih fun k v hk => hins k v (List.mem_append_left _ hk)
    have hstep := h.step_globalDepth_le (hb ▸ hS) hD hle hstored hs fun k v hc =>
      hins k v (List.mem_append_right _ (hc ▸ List.mem_singleton_self _))
    refine ⟨h.step hs (by omega), ?_, hstep⟩
    cases hs with
    | insert fuel h' => exact (bucketSize_insert fuel h').trans hb
    | remove => exact (remove_bucketSize _ _).trans hb
    | find => exact hb

/-- Over every run from the constructor whose inserted keys are in `S`, where the keys of
`S` agree on their low `D ≤ 30` hash bits at most `bucket_size_` at a time, the global depth
stays at `D` or less. -/
theorem run_globalDepth_le {bucketSize : Nat} (hS : FewAgree S D bucketSize) (hD : D ≤ 30)
    {cs : List (Call K V)} {outs : List (Reply V)} (hrun : (init bucketSize).Run cs outs t)
    (hins : ∀ k v, Call.insert k v ∈ cs → S k) : t.globalDepth ≤ D :=
  (Run.fewAgree_inv hS (by omega) hrun hins).2.2.1

/-- `Insert(0, 0)` and `Insert(1, 1)` into a table of bucket size one: the keys `0` and `1`
differ in their lowest hash bit, and the second insert splits to depth one. -/
theorem run_globalDepth_le_two_keys :
    FewAgree (fun k : Nat => k < 2) 1 1 ∧ 1 ≤ 30 ∧
      ∃ t : ExtendibleHashTable Nat Nat,
        (init 1).Run ([] ++ [.insert 0 0] ++ [.insert 1 1]) ([] ++ [.done] ++ [.done]) t ∧
        (∀ k v, Call.insert k v ∈ ([] ++ [.insert 0 0] ++ [.insert 1 1] : List (Call Nat Nat)) →
          k < 2) ∧ t.globalDepth = 1 ∧ t.globalDepth ≤ 1 := by
  have hS : FewAgree (fun k : Nat => k < 2) 1 1 := fun ks hnd hks c hc =>
    (hnd.subperm fun k hk => List.mem_singleton.2 (by
      have hc' := hc k hk
      rcases (show k = 0 ∨ k = 1 by have := hks k hk; omega) with rfl | rfl
      · exact (by decide : (hash (0 : Nat)).toNat % 2 ^ 1 = 0).symm.trans hc'
      · exact (by decide : (hash (1 : Nat)).toNat % 2 ^ 1 = 1).symm.trans hc')).length_le
  have hins : ∀ k v, Call.insert k v ∈ ([] ++ [.insert 0 0] ++ [.insert 1 1] :
      List (Call Nat Nat)) → k < 2 := by
    intro k v hk; simp at hk; omega
  have hrun : (init 1 : ExtendibleHashTable Nat Nat).Run
      ([] ++ [.insert 0 0] ++ [.insert 1 1]) ([] ++ [.done] ++ [.done]) _ :=
    .snoc (.snoc .nil (.insert 1 rfl)) (.insert 2 rfl)
  exact ⟨hS, by decide, _, hrun, hins, rfl, run_globalDepth_le hS (by decide) hrun hins⟩

/-! ## `int` keys -/

/-- Distinct integers in `[a, a + n * m)` that are congruent modulo `m` are at most `n`: their
quotients by `m` tell them apart. -/
theorem length_le_of_emod_eq {l : List Int} (hnd : l.Nodup) {m a : Int} {n : Nat} (hm : 0 < m)
    (hr : ∀ x ∈ l, a ≤ x ∧ x < a + n * m) (hc : ∀ x ∈ l, ∀ y ∈ l, x % m = y % m) :
    l.length ≤ n := by
  have h0 : ∀ z ∈ l, 0 ≤ (z - a) / m := fun z hz =>
    Int.ediv_nonneg (Int.sub_nonneg.2 (hr z hz).1) hm.le
  have hinj : ∀ x ∈ l, ∀ y ∈ l, ((x - a) / m).toNat = ((y - a) / m).toNat → x = y :=
    fun x hx y hy hg => by
    have hq : (x - a) / m = (y - a) / m := by
      rw [← Int.toNat_of_nonneg (h0 x hx), ← Int.toNat_of_nonneg (h0 y hy), hg]
    have hmod : (x - a) % m = (y - a) % m := by rw [Int.sub_emod, hc x hx y hy, ← Int.sub_emod]
    calc x = (x - a) % m + m * ((x - a) / m) + a := by rw [Int.emod_add_ediv]; omega
      _ = (y - a) % m + m * ((y - a) / m) + a := by rw [hmod, hq]
      _ = y := by rw [Int.emod_add_ediv]; omega
  have hsub : l.map (fun x => ((x - a) / m).toNat) ⊆ List.range n := fun k hk => by
    obtain ⟨x, hx, rfl⟩ := List.mem_map.1 hk
    have : (x - a) / m < n :=
      Int.ediv_lt_of_lt_mul hm (Int.sub_lt_iff.2 ((hr x hx).2.trans_eq (Int.add_comm _ _)))
    exact List.mem_range.2 ((Int.toNat_lt (h0 x hx)).2 this)
  simpa using ((hnd.map_on hinj).subperm hsub).length_le

omit [DecidableEq K] in
/-- Keys with integer values in `[a, a + n * 2 ^ D)`, whose hashes have the low `D` bits of
their values, agree on their low `D` hash bits at most `n` at a time. -/
theorem fewAgree_of_range {S : K → Prop} {D n : Nat} {a : Int} (val : K → Int)
    (hinj : ∀ k k', S k → S k' → val k = val k' → k = k')
    (hhash : ∀ k, S k → (((hash k).toNat % 2 ^ D : Nat) : Int) = val k % 2 ^ D)
    (hr : ∀ k, S k → a ≤ val k ∧ val k < a + n * 2 ^ D) : FewAgree S D n := by
  intro ks hnd hks c hc
  have hlen := length_le_of_emod_eq (l := ks.map val) (m := 2 ^ D)
    (hnd.map_on fun x hx y hy => hinj x y (hks x hx) (hks y hy)) (by exact_mod_cast Nat.two_pow_pos D)
    (fun x hx => by obtain ⟨k, hk, rfl⟩ := List.mem_map.1 hx; exact hr k (hks k hk))
    (fun x hx y hy => by
      obtain ⟨k, hk, rfl⟩ := List.mem_map.1 hx
      obtain ⟨k', hk', rfl⟩ := List.mem_map.1 hy
      rw [← hhash k (hks k hk), ← hhash k' (hks k' hk'), hc k hk, hc k' hk'])
  rwa [List.length_map] at hlen

/-- The low `D ≤ 64` bits of an integer converted to `size_t` are those of the integer. -/
theorem toNat_ofNat_emod_two_pow (v : Int) {D : Nat} (hD : D ≤ 64) :
    (((UInt64.ofNat (v % 2 ^ 64).toNat).toNat % 2 ^ D : Nat) : Int) = v % 2 ^ D := by
  have h0 : 0 ≤ v % 2 ^ 64 := Int.emod_nonneg _ (by omega)
  have hlt : (v % 2 ^ 64).toNat < 2 ^ 64 := by
    have := Int.emod_lt_of_pos v (by omega : (0 : Int) < 2 ^ 64)
    omega
  show (((v % 2 ^ 64).toNat % 2 ^ 64 % 2 ^ D : Nat) : Int) = _
  rw [Nat.mod_eq_of_lt hlt, Int.natCast_mod, Int.toNat_of_nonneg h0]
  push_cast
  exact Int.emod_emod_of_dvd _ (by exact_mod_cast Nat.pow_dvd_pow 2 hD)

/-- At most four `int` keys agree on their low 30 hash bits: they are congruent modulo
`2 ^ 30`, and an `int` has four values in each class. -/
theorem fewAgree_cInt : FewAgree (fun _ : CInt => True) 30 4 :=
  fewAgree_of_range (a := -2 ^ 31) CInt.val (fun ⟨_, _, _⟩ ⟨_, _, _⟩ _ _ h => by cases h; rfl)
    (fun k _ => toNat_ofNat_emod_two_pow k.val (by omega))
    (fun k _ => ⟨k.ge_min, by have := k.lt_max; omega⟩)

/-- Every run of an `ExtendibleHashTable<int, V>` with buckets of four pairs or more keeps
the global depth at 30 or less, and `num_buckets_` at `2 ^ 30` or less: the `int` mask of
`IndexOf` stays in range and `IndexOf` computes the model's index for every key. -/
theorem int_keys_depth_30 {bucketSize : Nat} (hb : 4 ≤ bucketSize) {cs : List (Call CInt V)}
    {outs : List (Reply V)} {t : ExtendibleHashTable CInt V}
    (hrun : (init bucketSize).Run cs outs t) :
    t.globalDepth ≤ 30 ∧ t.numBuckets ≤ 2 ^ 30 ∧ ∀ k, t.indexOfInt k = some (t.indexOf k) := by
  obtain ⟨h, -, hD, -⟩ := Run.fewAgree_inv (fewAgree_cInt.mono (fun _ _ => trivial) hb)
    (by decide) hrun fun _ _ _ => trivial
  exact ⟨hD, h.numBuckets_le.trans (Nat.pow_le_pow_right (by omega) hD),
    fun k => indexOfInt_eq hD k⟩

/-- `Insert(0)` and `Insert(INT_MIN)`, whose hashes agree on 31 bits, into a table of bucket
size four. -/
theorem int_keys_depth_30_two_keys :
    ∃ t : ExtendibleHashTable CInt Int,
      (init 4).Run ([] ++ [.insert ⟨0, by decide, by decide⟩ 0] ++
          [.insert ⟨-2 ^ 31, by decide, by decide⟩ 0]) ([] ++ [.done] ++ [.done]) t ∧
        t.globalDepth ≤ 30 ∧ t.numBuckets ≤ 2 ^ 30 ∧ ∀ k, t.indexOfInt k = some (t.indexOf k) := by
  have hrun : (init 4 : ExtendibleHashTable CInt Int).Run
      ([] ++ [.insert ⟨0, by decide, by decide⟩ 0] ++ [.insert ⟨-2 ^ 31, by decide, by decide⟩ 0])
      ([] ++ [.done] ++ [.done]) _ := .snoc (.snoc .nil (.insert 1 rfl)) (.insert 1 rfl)
  exact ⟨_, hrun, int_keys_depth_30 (by decide) hrun⟩

end ExtendibleHashTable

end Bustub
