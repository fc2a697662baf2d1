import Bustub.HashTable.InsertLoop
import Mathlib.Algebra.Order.BigOperators.Group.Finset

/-! # The shape of the table over runs

Two facts about the directory and its buckets over runs from the constructor.

* `~ExtendibleHashTable` collects the distinct entries of `dir_` in `unique_buckets` and
  deletes each once. While the directory stays at depth 30 or less, no bucket that the
  constructor or `SplitBucket` allocated ever leaves the directory, so the destructor deletes
  every allocated bucket exactly once: nothing leaks and nothing is deleted twice
  (`destructor_deletes_each_bucket_once`).
* `GetGlobalDepth() < GetNumBuckets() ≤ 2 ^ GetGlobalDepth()` over every run, at any depth:
  a split adds one bucket and doubles the directory at most once, and a bucket of local
  depth `d` stands for `2 ^ (global_depth_ - d)` slots, a share that every split hands on in
  halves to the two buckets it leaves, whichever slots the masks move (`Shaped`,
  `globalDepth_lt_numBuckets`).
-/

namespace Bustub

namespace ExtendibleHashTable

variable {K V : Type} [Hashable K] [DecidableEq K] {t : ExtendibleHashTable K V}
  {key : K} {value : V} {bucketSize : Nat} {cs : List (Call K V)} {outs : List (Reply V)}

/-- Every bucket allocated along a run that ends at depth 30 or less is deleted by the
destructor, exactly once. -/
theorem destructor_deletes_each_bucket_once (hrun : (init bucketSize).Run cs outs t)
    (hD : t.globalDepth ≤ 30) : t.uniqueBuckets.Perm (List.range t.nextAddr) :=
  (hrun.inv (init_inv bucketSize) (by omega)).uniqueBuckets_perm

/-- After `Insert(0)` and `Insert(1)` into a table of bucket size one, which splits. -/
theorem destructor_deletes_each_bucket_once_after_split :
    ∃ t : ExtendibleHashTable Nat Nat,
      (init 1).Run ([] ++ [.insert 0 0] ++ [.insert 1 1]) ([] ++ [.done] ++ [.done]) t ∧
        t.globalDepth = 1 ∧ t.nextAddr = 2 ∧ t.uniqueBuckets.Perm (List.range t.nextAddr) := by
  have hrun : (init 1 : ExtendibleHashTable Nat Nat).Run
      ([] ++ [.insert 0 0] ++ [.insert 1 1]) ([] ++ [.done] ++ [.done]) _ :=
    .snoc (.snoc .nil (.insert 1 rfl)) (.insert 2 rfl)
  exact ⟨_, hrun, rfl, rfl, destructor_deletes_each_bucket_once hrun (by decide)⟩

/-! ## Buckets against depth -/

theorem remove_numBuckets (t : ExtendibleHashTable K V) (key : K) :
    (t.remove key).2.numBuckets = t.numBuckets := by
  unfold ExtendibleHashTable.remove
  split
  · split <;> rfl
  · rfl

theorem remove_dir (t : ExtendibleHashTable K V) (key : K) : (t.remove key).2.dir = t.dir := by
  unfold ExtendibleHashTable.remove
  split
  · split <;> rfl
  · rfl

omit [DecidableEq K] in
/-- The buckets are distinct entries of a directory of `2 ^ global_depth_` slots. -/
theorem Inv.numBuckets_le (h : t.Inv) : t.numBuckets ≤ 2 ^ t.globalDepth := by
  rw [h.numBuckets_eq_dedup, ← h.dir_length]
  exact (List.dedup_sublist _).length_le

/-! ## What every split keeps -/

theorem foldl_rehashStep_localDepth (n : Nat) :
    ∀ (ps : List (K × V)) (acc : List (K × V) × Bucket K V),
      (ps.foldl (t.rehashStep n) acc).2.localDepth = acc.2.localDepth
  | [], _ => rfl
  | p :: ps, acc => by
    rw [List.foldl_cons, foldl_rehashStep_localDepth n ps]
    unfold rehashStep
    split
    · cases h : acc.2.insert p.1 p.2 with
      | none => rfl
      | some b => exact Bucket.insert_localDepth h
    · rfl

/-- Steps 2 to 5 deepen the split bucket and give the new one the same depth; the other
buckets keep theirs. -/
theorem localDepth_splitHalves {b : Nat} (hb : b < t.nextAddr) (a : Nat) :
    ((t.splitHalves b).heap a).localDepth =
      if a = b ∨ a = t.nextAddr then (t.heap b).localDepth + 1 else (t.heap a).localDepth := by
  unfold splitHalves
  dsimp only
  generalize hf : List.foldl _ _ _ = r
  obtain ⟨kept, moved⟩ := r
  have hm := congrArg (fun r => r.2.localDepth) hf
  simp only [foldl_rehashStep_localDepth] at hm
  by_cases ha : a = t.nextAddr
  · subst ha; simp [← hm]
  · by_cases hab : a = b
    · subst hab; simp [ha]
    · simp [ha, hab]

omit [Hashable K] [DecidableEq K] in
theorem mem_repoint {dir : List Nat} {b n d x : Nat} (hx : x ∈ repoint dir b n d) :
    x ∈ dir ∨ x = n := by
  obtain ⟨i, hi, rfl⟩ := List.mem_iff_getElem.1 hx
  simp only [repoint, List.getElem_mapIdx]
  split_ifs
  · exact .inr rfl
  · exact .inl (List.getElem_mem _)

/-- The slots that the allocated buckets stand for, a bucket of depth `d` for
`2 ^ (global_depth_ - d)`. -/
def cover (t : ExtendibleHashTable K V) : Nat :=
  ∑ a in Finset.range t.nextAddr, 2 ^ (t.globalDepth - (t.heap a).localDepth)

/-- The shape that every run keeps, whatever the masks compute: the directory holds
allocated buckets, `num_buckets_` counts them, none is deeper than the directory, together
they stand for the whole directory, and it is shallower than their number. -/
structure Shaped (t : ExtendibleHashTable K V) : Prop where
  dir_lt : ∀ b ∈ t.dir, b < t.nextAddr
  numBuckets_eq : t.numBuckets = t.nextAddr
  depth_le : ∀ a < t.nextAddr, (t.heap a).localDepth ≤ t.globalDepth
  cover_eq : t.cover = 2 ^ t.globalDepth
  globalDepth_lt : t.globalDepth < t.numBuckets

omit [Hashable K] [DecidableEq K] in
theorem init_shaped (bucketSize : Nat) : (init bucketSize : ExtendibleHashTable K V).Shaped :=
  ⟨by simp [init], rfl, fun _ _ => Nat.zero_le _, by simp [cover, init], Nat.zero_lt_one⟩

omit [Hashable K] [DecidableEq K] in
/-- Replacing a bucket by one of the same depth keeps the shape. -/
theorem Shaped.update (h : t.Shaped) (a : Nat) {x : Bucket K V}
    (hx : x.localDepth = (t.heap a).localDepth) :
    { t with heap := Function.update t.heap a x }.Shaped := by
  have hl : ∀ c, (Function.update t.heap a x c).localDepth = (t.heap c).localDepth := fun c => by
    by_cases hc : c = a
    · subst hc; simp [hx]
    · simp [hc]
  exact ⟨h.dir_lt, h.numBuckets_eq, fun c hc => (hl c).symm ▸ h.depth_le c hc,
    by simpa only [cover, hl] using h.cover_eq, h.globalDepth_lt⟩

omit [Hashable K] [DecidableEq K] in
/-- Doubling the directory doubles every bucket's share. -/
theorem Shaped.cover_growDir (h : t.Shaped) (b : Nat) :
    ∑ a in Finset.range t.nextAddr, 2 ^ ((t.growDir b).globalDepth - (t.heap a).localDepth) =
      2 ^ (t.growDir b).globalDepth := by
  rw [growDir_globalDepth]
  split_ifs
  · have hterm : ∀ a ∈ Finset.range t.nextAddr,
        2 ^ (t.globalDepth + 1 - (t.heap a).localDepth) =
          2 ^ (t.globalDepth - (t.heap a).localDepth) +
            2 ^ (t.globalDepth - (t.heap a).localDepth) := fun a ha => by
      rw [Nat.succ_sub (h.depth_le a (Finset.mem_range.1 ha)), Nat.pow_succ]; omega
    rw [Finset.sum_congr rfl hterm, Finset.sum_add_distrib, ← cover, h.cover_eq, Nat.pow_succ]
    omega
  · exact h.cover_eq

/-- `SplitBucket` on a bucket of the directory keeps the shape: the split bucket's share
passes in halves to itself and to the new bucket. -/
theorem Shaped.splitBucket (h : t.Shaped) {b : Nat} (hb : b ∈ t.dir) :
    (t.splitBucket b).Shaped := by
  have hbN : b < t.nextAddr := h.dir_lt b hb
  have hd := h.depth_le b hbN
  have hc := h.cover_growDir b
  have hG := growDir_globalDepth t b
  have hgdir : ∀ x ∈ (t.growDir b).dir, x < t.nextAddr := fun x hx => by
    unfold ExtendibleHashTable.growDir at hx
    split_ifs at hx
    · rcases List.mem_append.1 hx with hx | hx <;> exact h.dir_lt x hx
    · exact h.dir_lt x hx
  have hgN := growDir_nextAddr t b
  have hgh := growDir_heap t b
  have hgB := growDir_numBuckets t b
  show ((t.growDir b).splitHalves b).Shaped
  generalize t.growDir b = g at hc hG hgdir hgN hgh hgB ⊢
  have hl := localDepth_splitHalves (t := g) (b := b) (hgN ▸ hbN)
  rw [hgN, hgh] at hl
  have hdG : (t.heap b).localDepth < g.globalDepth := by rw [hG]; split_ifs <;> omega
  have hcover : ∑ a in Finset.range (t.nextAddr + 1),
      2 ^ (g.globalDepth - ((g.splitHalves b).heap a).localDepth) = 2 ^ g.globalDepth := by
    have e₁ := Finset.add_sum_erase (Finset.range t.nextAddr)
      (fun a => 2 ^ (g.globalDepth - ((g.splitHalves b).heap a).localDepth))
      (Finset.mem_range.2 hbN)
    have e₂ := Finset.add_sum_erase (Finset.range t.nextAddr)
      (fun a => 2 ^ (g.globalDepth - (t.heap a).localDepth)) (Finset.mem_range.2 hbN)
    have herase : ∑ a in (Finset.range t.nextAddr).erase b,
        2 ^ (g.globalDepth - ((g.splitHalves b).heap a).localDepth) =
        ∑ a in (Finset.range t.nextAddr).erase b, 2 ^ (g.globalDepth - (t.heap a).localDepth) :=
      Finset.sum_congr rfl fun a ha => by
        have hab := Finset.ne_of_mem_erase ha
        have haN := (Finset.mem_range.1 (Finset.mem_of_mem_erase ha)).ne
        rw [hl, if_neg (by omega)]
    have hhalf : 2 ^ (g.globalDepth - (t.heap b).localDepth) =
        2 * 2 ^ (g.globalDepth - ((t.heap b).localDepth + 1)) := by
      rw [← Nat.pow_succ']; congr 1; omega
    dsimp only at e₁ e₂
    rw [hl, if_pos (Or.inl rfl)] at e₁
    rw [Finset.sum_range_succ, hl, if_pos (Or.inr rfl)]
    omega
  refine ⟨fun x hx => ?_, by simp [hgB, hgN, h.numBuckets_eq], fun a ha => ?_,
    by rw [cover, splitHalves_nextAddr, hgN]; exact hcover, ?_⟩
  · rw [splitHalves_nextAddr, hgN]
    rcases mem_repoint hx with hx | rfl
    · exact Nat.lt_succ_of_lt (hgdir x hx)
    · exact hgN ▸ Nat.lt_succ_self _
  · rw [splitHalves_nextAddr, hgN] at ha
    rw [hl, splitHalves_globalDepth]
    split_ifs
    · omega
    · have := h.depth_le a (by omega); rw [hG]; split_ifs <;> omega
  · have := h.globalDepth_lt
    rw [splitHalves_globalDepth, splitHalves_numBuckets, hG, hgB]
    split_ifs <;> omega

theorem Shaped.insert : ∀ (fuel : Nat) {t t' : ExtendibleHashTable K V}, t.Shaped →
    t.insert fuel key value = some t' → t'.Shaped
  | 0, _, _, _, h' => by simp [ExtendibleHashTable.insert] at h'
  | fuel + 1, t, t', h, h' => by
    unfold ExtendibleHashTable.insert at h'
    split_ifs at h' with hi
    split at h'
    · rename_i b hb
      cases h'; exact h.update _ (Bucket.insert_localDepth hb)
    · exact Shaped.insert fuel (h.splitBucket (List.getElem_mem hi)) h'

theorem Shaped.remove (h : t.Shaped) (key : K) : (t.remove key).2.Shaped := by
  unfold ExtendibleHashTable.remove
  split
  · split
    · rename_i b hb
      obtain ⟨ps, -, rfl⟩ := Option.map_eq_some'.1 hb
      exact h.update _ rfl
    · exact h
  · exact h

theorem Run.shaped {t₀ : ExtendibleHashTable K V} (h₀ : t₀.Shaped) (hrun : Run t₀ cs outs t) :
    t.Shaped := by
  induction hrun with
  | nil => exact h₀
  | snoc _ hs ih =>
    cases hs with
    | insert fuel h' => exact Shaped.insert fuel ih h'
    | remove key => exact ih.remove key
    | find => exact ih

/-- Over every run from the constructor, `GetGlobalDepth() < GetNumBuckets()
≤ 2 ^ GetGlobalDepth()`. -/
theorem globalDepth_lt_numBuckets (hrun : (init bucketSize).Run cs outs t) :
    t.getGlobalDepth < t.getNumBuckets ∧ t.getNumBuckets ≤ 2 ^ t.getGlobalDepth := by
  have h := hrun.shaped (init_shaped bucketSize)
  refine ⟨h.globalDepth_lt, ?_⟩
  show t.numBuckets ≤ 2 ^ t.globalDepth
  rw [h.numBuckets_eq, ← h.cover_eq, cover]
  calc t.nextAddr = ∑ _a in Finset.range t.nextAddr, 1 := by
        rw [Finset.sum_const, Finset.card_range]; exact (Nat.mul_one _).symm
    _ ≤ _ := Finset.sum_le_sum fun _ _ => Nat.one_le_two_pow

/-- Two inserts into a table of bucket size one, the second of which splits. -/
theorem globalDepth_lt_numBuckets_after_split :
    ∃ t : ExtendibleHashTable Nat Nat,
      (init 1).Run ([] ++ [.insert 0 0] ++ [.insert 1 1]) ([] ++ [.done] ++ [.done]) t ∧
        t.getGlobalDepth = 1 ∧
        (t.getGlobalDepth < t.getNumBuckets ∧ t.getNumBuckets ≤ 2 ^ t.getGlobalDepth) := by
  have hrun : (init 1 : ExtendibleHashTable Nat Nat).Run
      ([] ++ [.insert 0 0] ++ [.insert 1 1]) ([] ++ [.done] ++ [.done]) _ :=
    .snoc (.snoc .nil (.insert 1 rfl)) (.insert 2 rfl)
  exact ⟨_, hrun, rfl, globalDepth_lt_numBuckets hrun⟩

end ExtendibleHashTable

end Bustub
