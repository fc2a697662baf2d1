import Bustub.HashTable.Basic
import Mathlib.Data.List.Dedup

/-! # The directory invariant

Every table reached from the constructor by `Insert` and `Remove` with a directory of depth
31 or less satisfies `Inv`. The directory has `2 ^ global_depth_` slots. The slots that share a bucket of local depth `d`
are exactly those congruent to one residue modulo `2 ^ d`, every key in the bucket has a
hash with that residue, keys are not repeated and no bucket holds more than `bucket_size`
pairs. Every allocated bucket is in the directory and `num_buckets_` counts them.

The depth bound is where the `int` masks compute what they stand for: `IndexOf` takes the
low `global_depth_` bits of the hash up to depth 31 (`indexOf_eq`), and `split_mask` is
bit `split_bit` up to bit 30 (`splitMask_of_lt`). A split that takes the directory to depth
32 breaks the invariant, and the other results are stated for tables no deeper than 31.

The invariant is stated slot by slot. `SplitBucket` is where it is re-established: the
doubling of step 1 keeps it (`Inv.growDir`), and after steps 2 to 5 the slots of the old
bucket with bit `d` clear keep it while those with bit `d` set hold the new one, which
receives exactly the pairs whose hash has bit `d` set (`Inv.splitBucket`).
-/

namespace Bustub

namespace ExtendibleHashTable

variable {K V : Type} [Hashable K]

/-- The address in slot `i` of the directory. -/
def slot (t : ExtendibleHashTable K V) (i : Nat) : Nat := t.dir.getD i 0

/-- The local depth of the bucket in slot `i`. -/
def depthAt (t : ExtendibleHashTable K V) (i : Nat) : Nat := (t.heap (t.slot i)).localDepth

/-- The invariant of every reachable table, slot by slot. -/
structure Inv (t : ExtendibleHashTable K V) : Prop where
  dir_length : t.dir.length = 2 ^ t.globalDepth
  numBuckets_eq : t.numBuckets = t.nextAddr
  slot_lt : ∀ i < 2 ^ t.globalDepth, t.slot i < t.nextAddr
  addr_used : ∀ a < t.nextAddr, ∃ i < 2 ^ t.globalDepth, t.slot i = a
  depth_le : ∀ i < 2 ^ t.globalDepth, t.depthAt i ≤ t.globalDepth
  slot_eq_iff : ∀ i < 2 ^ t.globalDepth, ∀ j < 2 ^ t.globalDepth,
    t.slot j = t.slot i ↔ j % 2 ^ t.depthAt i = i % 2 ^ t.depthAt i
  hash_mod : ∀ i < 2 ^ t.globalDepth, ∀ p ∈ (t.heap (t.slot i)).kvPairs,
    (hash p.1).toNat % 2 ^ t.depthAt i = i % 2 ^ t.depthAt i
  nodup : ∀ i < 2 ^ t.globalDepth, ((t.heap (t.slot i)).kvPairs.map (·.1)).Nodup
  length_le : ∀ i < 2 ^ t.globalDepth, (t.heap (t.slot i)).kvPairs.length ≤ t.bucketSize
  maxSize_eq : ∀ i < 2 ^ t.globalDepth, (t.heap (t.slot i)).maxSize = t.bucketSize
  globalDepth_lt : t.globalDepth < 32

/-! ## Bits -/

theorem mod_two_pow_succ (x d : Nat) :
    x % 2 ^ (d + 1) = x % 2 ^ d + 2 ^ d * (x.testBit d).toNat := by
  rw [Nat.mod_pow_succ, Nat.testBit_to_div_mod]
  have := Nat.mod_two_eq_zero_or_one (x / 2 ^ d)
  rcases this with h | h <;> simp [h]

theorem and_two_pow_ne_zero (x d : Nat) : x &&& 2 ^ d ≠ 0 ↔ x.testBit d = true := by
  rw [Nat.and_two_pow]
  cases x.testBit d <;> simp [Nat.pos_pow_of_pos d (by omega : 0 < 2)]

theorem mod_mod_two_pow (x : Nat) {d G : Nat} (h : d ≤ G) : x % 2 ^ G % 2 ^ d = x % 2 ^ d :=
  Nat.mod_mod_of_dvd x (Nat.pow_dvd_pow 2 h)

theorem lowBitsMask_of_lt {n : Nat} (h : n < 32) : lowBitsMask n = 2 ^ n - 1 := by
  rw [lowBitsMask, Nat.mod_eq_of_lt h]

theorem splitMask_of_lt {n : Nat} (h : n < 31) : splitMask n = 2 ^ n := by
  rw [splitMask, Nat.mod_eq_of_lt (by omega), if_neg (by omega)]

/-- Up to depth 31, `IndexOf` is the low `global_depth_` bits of the hash. -/
theorem indexOf_eq {t : ExtendibleHashTable K V} (hG : t.globalDepth < 32) (key : K) :
    t.indexOf key = (hash key).toNat % 2 ^ t.globalDepth := by
  rw [indexOf, lowBitsMask_of_lt hG, Nat.and_pow_two_sub_one_eq_mod]

/-! ## Consequences of the invariant -/

section Consequences

variable {t : ExtendibleHashTable K V}

theorem Inv.indexOf_eq (h : t.Inv) (key : K) :
    t.indexOf key = (hash key).toNat % 2 ^ t.globalDepth :=
  ExtendibleHashTable.indexOf_eq h.globalDepth_lt key

/-- Below the global depth, the index of a key has the low bits of its hash. -/
theorem Inv.indexOf_mod_two_pow (h : t.Inv) {d : Nat} (hd : d ≤ t.globalDepth) (key : K) :
    t.indexOf key % 2 ^ d = (hash key).toNat % 2 ^ d := by
  rw [h.indexOf_eq, mod_mod_two_pow _ hd]

theorem Inv.indexOf_lt (h : t.Inv) (key : K) : t.indexOf key < t.dir.length := by
  rw [h.indexOf_eq, h.dir_length]; exact Nat.mod_lt _ (Nat.pos_pow_of_pos _ (by omega))

theorem Inv.indexOf_lt_pow (h : t.Inv) (key : K) : t.indexOf key < 2 ^ t.globalDepth :=
  h.dir_length ▸ h.indexOf_lt key

omit [Hashable K] in
theorem getElem_dir {i : Nat} (hi : i < t.dir.length) : t.dir[i] = t.slot i :=
  (List.getD_eq_getElem _ _ hi).symm

/-- `Find` reads the bucket in the slot of the key. -/
theorem Inv.find_eq [DecidableEq K] (h : t.Inv) (key : K) :
    t.find key = (t.heap (t.slot (t.indexOf key))).find key := by
  simp [find, h.indexOf_lt key, getElem_dir]

/-- A key in the bucket of slot `i` is in the bucket of its own slot. -/
theorem Inv.slot_indexOf (h : t.Inv) {i : Nat} (hi : i < 2 ^ t.globalDepth) {p : K × V}
    (hp : p ∈ (t.heap (t.slot i)).kvPairs) : t.slot (t.indexOf p.1) = t.slot i := by
  rw [h.slot_eq_iff i hi _ (by rw [← h.dir_length]; exact h.indexOf_lt _), h.indexOf_eq,
    mod_mod_two_pow _ (h.depth_le i hi), h.hash_mod i hi p hp]

end Consequences

/-! ## Replacing one bucket -/

section Update

variable {t : ExtendibleHashTable K V}

/-- Replacing the bucket of slot `i₀` by one of the same depth and capacity whose pairs
belong in that slot keeps `Inv`. -/
theorem Inv.update_bucket (h : t.Inv) {i₀ : Nat} (hi₀ : i₀ < 2 ^ t.globalDepth)
    {b : Bucket K V}
    (hdepth : b.localDepth = t.depthAt i₀) (hmax : b.maxSize = t.bucketSize)
    (hlen : b.kvPairs.length ≤ t.bucketSize) (hnodup : (b.kvPairs.map (·.1)).Nodup)
    (hhash : ∀ p ∈ b.kvPairs,
      (hash p.1).toNat % 2 ^ t.depthAt i₀ = i₀ % 2 ^ t.depthAt i₀) :
    { t with heap := Function.update t.heap (t.slot i₀) b }.Inv := by
  set t' : ExtendibleHashTable K V := { t with heap := Function.update t.heap (t.slot i₀) b }
  have hslot : ∀ i, t'.slot i = t.slot i := fun _ => rfl
  have hbucket : ∀ i,
      t'.heap (t'.slot i) = if t.slot i = t.slot i₀ then b else t.heap (t.slot i) :=
    fun i => Function.update_apply _ _ _ _
  have hd₀ : ∀ i, t.slot i = t.slot i₀ → t.depthAt i = t.depthAt i₀ := fun i hs => by
    simp only [depthAt, hs]
  have hdep : ∀ i, t'.depthAt i = t.depthAt i := by
    intro i; show (t'.heap (t'.slot i)).localDepth = _; rw [hbucket]; split_ifs with hs
    · rw [hdepth, ← hd₀ i hs]
    · rfl
  refine ⟨h.dir_length, h.numBuckets_eq, h.slot_lt, h.addr_used,
    fun i hi => (hdep i).symm ▸ h.depth_le i hi,
    fun i hi j hj => by rw [hdep, hslot, hslot]; exact h.slot_eq_iff i hi j hj,
    ?_, ?_, ?_, ?_, h.globalDepth_lt⟩ <;>
  intro i hi <;> rw [hbucket] <;> split_ifs with hs
  · intro p hp
    rw [hdep, hd₀ i hs, hhash p hp]
    exact (hd₀ i hs) ▸ ((h.slot_eq_iff i₀ hi₀ i hi).1 hs).symm
  · intro p hp; rw [hdep]; exact h.hash_mod i hi p hp
  · exact hnodup
  · exact h.nodup i hi
  · exact hlen
  · exact h.length_le i hi
  · exact hmax
  · exact h.maxSize_eq i hi

end Update

/-! ## Doubling the directory -/

section Grow

variable {t : ExtendibleHashTable K V}

theorem slot_double (h : t.Inv) {j : Nat} (hj : j < 2 ^ (t.globalDepth + 1)) :
    (t.dir ++ t.dir).getD j 0 = t.slot (j % 2 ^ t.globalDepth) := by
  unfold slot
  by_cases hlt : j < 2 ^ t.globalDepth
  · rw [List.getD_append _ _ _ _ (h.dir_length ▸ hlt), Nat.mod_eq_of_lt hlt]
  · rw [List.getD_append_right _ _ _ _ (by rw [h.dir_length]; omega), h.dir_length]
    rw [Nat.pow_succ] at hj
    congr 1
    rw [Nat.mod_eq_sub_mod (by omega), Nat.mod_eq_of_lt (by omega)]

/-- Doubling a directory shallower than 31, each new slot a copy of its twin, keeps `Inv`. -/
theorem Inv.double (h : t.Inv) (hG : t.globalDepth < 31) :
    ({ t with dir := t.dir ++ t.dir, globalDepth := t.globalDepth + 1 } :
      ExtendibleHashTable K V).Inv := by
  set t' : ExtendibleHashTable K V :=
    { t with dir := t.dir ++ t.dir, globalDepth := t.globalDepth + 1 }
  have hP : 0 < 2 ^ t.globalDepth := Nat.pos_pow_of_pos _ (by omega)
  have hslot : ∀ j < 2 ^ t'.globalDepth, t'.slot j = t.slot (j % 2 ^ t.globalDepth) :=
    fun j hj => slot_double h hj
  have hdep : ∀ j < 2 ^ t'.globalDepth, t'.depthAt j = t.depthAt (j % 2 ^ t.globalDepth) :=
    fun j hj => by simp only [depthAt, hslot j hj]
  have hmod : ∀ j, j % 2 ^ t.globalDepth < 2 ^ t.globalDepth := fun j => Nat.mod_lt _ hP
  refine ⟨?_, h.numBuckets_eq, fun j hj => hslot j hj ▸ h.slot_lt _ (hmod j), fun a ha => ?_,
    fun j hj => ?_, fun i hi j hj => ?_, fun i hi p hp => ?_, fun i hi => ?_, fun i hi => ?_,
    fun i hi => ?_, by simp only [t']; omega⟩
  · simp [t', h.dir_length, Nat.pow_succ]; omega
  · obtain ⟨i, hi, rfl⟩ := h.addr_used a ha
    refine ⟨i, by simp [t', Nat.pow_succ]; omega, ?_⟩
    rw [hslot i (by simp [t', Nat.pow_succ]; omega), Nat.mod_eq_of_lt hi]
  · rw [hdep j hj]; exact (h.depth_le _ (hmod j)).trans (Nat.le_succ _)
  · have hd := h.depth_le _ (hmod i)
    rw [hslot i hi, hslot j hj, hdep i hi, h.slot_eq_iff _ (hmod i) _ (hmod j),
      mod_mod_two_pow _ hd, mod_mod_two_pow _ hd]
  · have hd := h.depth_le _ (hmod i)
    rw [hslot i hi] at hp
    rw [hdep i hi, h.hash_mod _ (hmod i) p hp, mod_mod_two_pow _ hd]
  · rw [hslot i hi]; exact h.nodup _ (hmod i)
  · rw [hslot i hi]; exact h.length_le _ (hmod i)
  · rw [hslot i hi]; exact h.maxSize_eq _ (hmod i)

theorem Inv.growDir (h : t.Inv) {b : Nat} (hG : (t.growDir b).globalDepth < 32) :
    (t.growDir b).Inv := by
  unfold ExtendibleHashTable.growDir at hG ⊢; split_ifs at hG ⊢
  · exact h.double (Nat.lt_of_succ_lt_succ hG)
  · exact h

/-! Step 1 touches the directory and its depth only. -/

omit [Hashable K] in
@[simp] theorem growDir_heap (t : ExtendibleHashTable K V) (b : Nat) :
    (t.growDir b).heap = t.heap := by
  unfold ExtendibleHashTable.growDir; split <;> rfl

omit [Hashable K] in
@[simp] theorem growDir_nextAddr (t : ExtendibleHashTable K V) (b : Nat) :
    (t.growDir b).nextAddr = t.nextAddr := by
  unfold ExtendibleHashTable.growDir; split <;> rfl

omit [Hashable K] in
@[simp] theorem growDir_numBuckets (t : ExtendibleHashTable K V) (b : Nat) :
    (t.growDir b).numBuckets = t.numBuckets := by
  unfold ExtendibleHashTable.growDir; split <;> rfl

omit [Hashable K] in
@[simp] theorem growDir_bucketSize (t : ExtendibleHashTable K V) (b : Nat) :
    (t.growDir b).bucketSize = t.bucketSize := by
  unfold ExtendibleHashTable.growDir; split <;> rfl

omit [Hashable K] in
theorem growDir_globalDepth (t : ExtendibleHashTable K V) (b : Nat) :
    (t.growDir b).globalDepth =
      if (t.heap b).localDepth = t.globalDepth then t.globalDepth + 1 else t.globalDepth := by
  unfold ExtendibleHashTable.growDir; split <;> rfl

omit [Hashable K] in
theorem le_growDir_globalDepth (t : ExtendibleHashTable K V) (b : Nat) :
    t.globalDepth ≤ (t.growDir b).globalDepth := by
  rw [growDir_globalDepth]; split_ifs <;> omega

/-- Every slot of the grown directory holds what its twin modulo the old size held. -/
theorem Inv.growDir_slot_mod (h : t.Inv) (b : Nat) {j : Nat}
    (hj : j < 2 ^ (t.growDir b).globalDepth) :
    (t.growDir b).slot j = t.slot (j % 2 ^ t.globalDepth) := by
  unfold ExtendibleHashTable.growDir at hj ⊢
  split_ifs at hj ⊢
  · exact slot_double h hj
  · rw [Nat.mod_eq_of_lt hj]

/-- After step 1 the bucket of slot `i₀` is shallower than the directory, and still in
slot `i₀`. -/
theorem Inv.growDir_slot (h : t.Inv) {i₀ : Nat} (hi₀ : i₀ < 2 ^ t.globalDepth) :
    (t.growDir (t.slot i₀)).slot i₀ = t.slot i₀ ∧
      (t.growDir (t.slot i₀)).depthAt i₀ < (t.growDir (t.slot i₀)).globalDepth ∧
      i₀ < 2 ^ (t.growDir (t.slot i₀)).globalDepth := by
  have hd := h.depth_le i₀ hi₀
  unfold ExtendibleHashTable.growDir depthAt at *
  split
  · rename_i heq
    have hs : (t.dir ++ t.dir).getD i₀ 0 = t.slot i₀ := by
      rw [slot_double h (by rw [Nat.pow_succ]; omega), Nat.mod_eq_of_lt hi₀]
    simp only [slot] at hs ⊢
    refine ⟨hs, ?_, by rw [Nat.pow_succ]; omega⟩
    simp only [hs]; simp only [slot] at heq; omega
  · rename_i hne
    exact ⟨rfl, by simp only [slot] at hne hd ⊢; omega, hi₀⟩

end Grow

/-! ## Splitting a bucket -/

section Split

variable [DecidableEq K] {t : ExtendibleHashTable K V}

omit [DecidableEq K] [Hashable K] in
/-- Up to bit 30, `split_mask` selects the slots whose bit `split_bit` is set. -/
theorem getD_repoint {dir : List Nat} {b n d j : Nat} (hd : d < 31) (hj : j < dir.length) :
    (repoint dir b n d).getD j 0 =
      if dir.getD j 0 = b ∧ j.testBit d then n else dir.getD j 0 := by
  rw [List.getD_eq_getElem _ _ (by simpa [repoint] using hj), List.getD_eq_getElem _ _ hj]
  simp [repoint, splitMask_of_lt hd, and_two_pow_ne_zero]

/-- The rehash loop, when the pairs it moves are exactly those satisfying `q` and fit in the
new bucket: the old bucket keeps the others, in order, and the new one receives these. -/
theorem foldl_rehashStep (n : Nat) (q : K × V → Bool) :
    ∀ (ps : List (K × V)), (∀ p ∈ ps, t.dir[t.indexOf p.1]? = some n ↔ q p = true) →
      ∀ (kept : List (K × V)) (nb : Bucket K V),
        ((nb.kvPairs ++ ps.filter q).map (·.1)).Nodup →
        nb.kvPairs.length + (ps.filter q).length ≤ nb.maxSize →
        ps.foldl (t.rehashStep n) (kept, nb) =
          (kept ++ ps.filter (fun p => !q p), { nb with kvPairs := nb.kvPairs ++ ps.filter q })
  | [], _, kept, nb, _, _ => by simp
  | p :: ps, hq, kept, nb, hnd, hlen => by
    have hq' : ∀ p' ∈ ps, t.dir[t.indexOf p'.1]? = some n ↔ q p' = true :=
      fun p' hp' => hq p' (List.mem_cons_of_mem _ hp')
    rw [List.foldl_cons]
    by_cases hp : q p = true
    · have hstep :
          t.rehashStep n (kept, nb) p = (kept, { nb with kvPairs := nb.kvPairs ++ [p] }) := by
        have hnd' : p.1 ∉ nb.kvPairs.map (·.1) := by
          simp only [List.filter_cons, hp, if_true, List.map_append, List.map_cons] at hnd
          exact fun hm => (List.nodup_append.1 hnd).2.2 hm (List.mem_cons_self _ _)
        simp only [List.filter_cons, hp, if_true, List.length_cons] at hlen
        simp [rehashStep, (hq p (List.mem_cons_self _ _)).2 hp,
          Bucket.insert_fresh hnd' (by omega)]
      rw [hstep, foldl_rehashStep n q ps hq' kept _ (by simpa [List.filter_cons, hp] using hnd)
        (by simp [List.filter_cons, hp] at hlen ⊢; omega)]
      simp [List.filter_cons, hp]
    · have hstep : t.rehashStep n (kept, nb) p = (kept ++ [p], nb) := by
        have : ¬ t.dir[t.indexOf p.1]? = some n :=
          fun h' => hp ((hq p (List.mem_cons_self _ _)).1 h')
        simp [rehashStep, this]
      rw [hstep, foldl_rehashStep n q ps hq' _ nb (by simpa [List.filter_cons, hp] using hnd)
        (by simpa [List.filter_cons, hp] using hlen)]
      simp [List.filter_cons, hp]

omit [DecidableEq K] in
/-- The test of the rehash loop on a pair of the split bucket reads bit `d` of its hash. -/
theorem Inv.rehash_test (h : t.Inv) {i₀ : Nat} (hi₀ : i₀ < 2 ^ t.globalDepth)
    (hd : t.depthAt i₀ < t.globalDepth) {p : K × V} (hp : p ∈ (t.heap (t.slot i₀)).kvPairs) :
    (repoint t.dir (t.slot i₀) t.nextAddr (t.depthAt i₀))[t.indexOf p.1]? = some t.nextAddr ↔
      (hash p.1).toNat.testBit (t.depthAt i₀) = true := by
  have hlt := h.indexOf_lt p.1
  have hd' : t.depthAt i₀ < 31 := by have := h.globalDepth_lt; omega
  rw [List.getElem?_eq_getElem (by simpa [repoint] using hlt), ← List.getD_eq_getElem _ 0,
    getD_repoint hd' hlt, Option.some.injEq]
  change
    (if t.slot (t.indexOf p.1) = t.slot i₀ ∧ _ then _ else t.slot (t.indexOf p.1)) = _ ↔ _
  have hne : t.slot i₀ ≠ t.nextAddr := Nat.ne_of_lt (h.slot_lt i₀ hi₀)
  simp only [h.slot_indexOf hi₀ hp, true_and]
  by_cases hb : (hash p.1).toNat.testBit (t.depthAt i₀) = true <;>
    simp [h.indexOf_eq, Nat.testBit_mod_two_pow, hb, hd, hne]

/-- The table after steps 2 to 5 on the bucket of slot `i₀`, in closed form: the slots of the
bucket with bit `d` set, and its pairs whose hash has bit `d` set, go to the new bucket. -/
def halved (t : ExtendibleHashTable K V) (i₀ : Nat) : ExtendibleHashTable K V :=
  { t with
    dir := repoint t.dir (t.slot i₀) t.nextAddr (t.depthAt i₀)
    numBuckets := t.numBuckets + 1
    nextAddr := t.nextAddr + 1
    heap := Function.update (Function.update t.heap (t.slot i₀)
      { t.heap (t.slot i₀) with
        localDepth := t.depthAt i₀ + 1
        kvPairs := (t.heap (t.slot i₀)).kvPairs.filter
          fun p => !(hash p.1).toNat.testBit (t.depthAt i₀) })
      t.nextAddr ⟨(t.heap (t.slot i₀)).kvPairs.filter
        (fun p => (hash p.1).toNat.testBit (t.depthAt i₀)), t.bucketSize, t.depthAt i₀ + 1⟩ }

/-- Steps 2 to 5 on a bucket shallower than the directory compute `halved`. -/
theorem Inv.splitHalves_eq (h : t.Inv) {i₀ : Nat} (hi₀ : i₀ < 2 ^ t.globalDepth)
    (hd : t.depthAt i₀ < t.globalDepth) : t.splitHalves (t.slot i₀) = t.halved i₀ := by
  have hnd : ((t.heap (t.slot i₀)).kvPairs.map (·.1)).Nodup := h.nodup i₀ hi₀
  have hfold := foldl_rehashStep
    (t := { t with
      dir := repoint t.dir (t.slot i₀) t.nextAddr (t.depthAt i₀)
      numBuckets := t.numBuckets + 1
      nextAddr := t.nextAddr + 1
      heap := Function.update t.heap (t.slot i₀)
        { t.heap (t.slot i₀) with localDepth := t.depthAt i₀ + 1 } })
    t.nextAddr (fun p => (hash p.1).toNat.testBit (t.depthAt i₀)) (t.heap (t.slot i₀)).kvPairs
    (fun p hp => h.rehash_test hi₀ hd hp) [] ⟨[], t.bucketSize, t.depthAt i₀ + 1⟩
    (by simpa using hnd.sublist ((List.filter_sublist _).map _))
    (by simpa using (List.length_filter_le _ _).trans (h.length_le i₀ hi₀))
  simp only [splitHalves, Function.update_same]
  rw [show (t.heap (t.slot i₀)).localDepth = t.depthAt i₀ from rfl, Nat.add_sub_cancel, hfold]
  simp [halved, Function.update_idem]

end Split

/-! ## The invariant after a split -/

section Halved

variable {t : ExtendibleHashTable K V} {i₀ j : Nat}

/-- Two numbers agree modulo `2 ^ (d + 1)` when they agree modulo `2 ^ d` and on bit `d`. -/
theorem mod_two_pow_succ_eq_iff {x y d : Nat} :
    x % 2 ^ (d + 1) = y % 2 ^ (d + 1) ↔ x % 2 ^ d = y % 2 ^ d ∧ x.testBit d = y.testBit d := by
  rw [mod_two_pow_succ, mod_two_pow_succ]
  have hx := Nat.mod_lt x (Nat.pos_pow_of_pos d (by omega : 0 < 2))
  have hy := Nat.mod_lt y (Nat.pos_pow_of_pos d (by omega : 0 < 2))
  cases x.testBit d <;> cases y.testBit d <;> simp <;> omega

theorem Inv.halved_slot (h : t.Inv) (hd : t.depthAt i₀ < t.globalDepth)
    (hj : j < 2 ^ t.globalDepth) :
    (t.halved i₀).slot j =
      if t.slot j = t.slot i₀ ∧ j.testBit (t.depthAt i₀) then t.nextAddr else t.slot j :=
  getD_repoint (by have := h.globalDepth_lt; omega) (h.dir_length ▸ hj)

/-- The bucket in slot `j` after the split: one of the two halves when slot `j` held the
split bucket, the bucket it held otherwise. -/
theorem Inv.halved_bucket (h : t.Inv) (hi₀ : i₀ < 2 ^ t.globalDepth)
    (hd : t.depthAt i₀ < t.globalDepth) (hj : j < 2 ^ t.globalDepth) :
    (t.halved i₀).heap ((t.halved i₀).slot j) =
      if t.slot j = t.slot i₀ then
        if j.testBit (t.depthAt i₀) then
          ⟨(t.heap (t.slot i₀)).kvPairs.filter
              (fun p => (hash p.1).toNat.testBit (t.depthAt i₀)),
            t.bucketSize, t.depthAt i₀ + 1⟩
        else { t.heap (t.slot i₀) with
          localDepth := t.depthAt i₀ + 1
          kvPairs := (t.heap (t.slot i₀)).kvPairs.filter
            fun p => !(hash p.1).toNat.testBit (t.depthAt i₀) }
      else t.heap (t.slot j) := by
  have hne : ∀ {i}, i < 2 ^ t.globalDepth → t.slot i ≠ t.nextAddr :=
    fun hi => (h.slot_lt _ hi).ne
  rw [h.halved_slot hd hj]
  by_cases hs : t.slot j = t.slot i₀ <;> by_cases hb : j.testBit (t.depthAt i₀) <;>
    simp [halved, hs, hb, hne hi₀, hne hj]

theorem Inv.halved_depthAt (h : t.Inv) (hi₀ : i₀ < 2 ^ t.globalDepth)
    (hd : t.depthAt i₀ < t.globalDepth) (hj : j < 2 ^ t.globalDepth) :
    (t.halved i₀).depthAt j =
      if t.slot j = t.slot i₀ then t.depthAt i₀ + 1 else t.depthAt j := by
  show ((t.halved i₀).heap ((t.halved i₀).slot j)).localDepth = _
  rw [h.halved_bucket hi₀ hd hj]
  split_ifs <;> rfl

/-- A pair in slot `j` after the split: a pair of the split bucket whose hash agrees with `j`
on bit `d`, or a pair of the bucket slot `j` held. -/
theorem Inv.mem_halved (h : t.Inv) (hi₀ : i₀ < 2 ^ t.globalDepth)
    (hd : t.depthAt i₀ < t.globalDepth) (hj : j < 2 ^ t.globalDepth) {p : K × V} :
    p ∈ ((t.halved i₀).heap ((t.halved i₀).slot j)).kvPairs ↔
      if t.slot j = t.slot i₀ then
        p ∈ (t.heap (t.slot i₀)).kvPairs ∧
          (hash p.1).toNat.testBit (t.depthAt i₀) = j.testBit (t.depthAt i₀)
      else p ∈ (t.heap (t.slot j)).kvPairs := by
  rw [h.halved_bucket hi₀ hd hj]
  split_ifs <;> simp_all

/-- After the split, the bucket in slot `j` holds a sublist of what slot `j` held before. -/
theorem Inv.halved_sublist (h : t.Inv) (hi₀ : i₀ < 2 ^ t.globalDepth)
    (hd : t.depthAt i₀ < t.globalDepth) (hj : j < 2 ^ t.globalDepth) :
    ((t.halved i₀).heap ((t.halved i₀).slot j)).kvPairs.Sublist (t.heap (t.slot j)).kvPairs ∧
      ((t.halved i₀).heap ((t.halved i₀).slot j)).maxSize = t.bucketSize := by
  rw [h.halved_bucket hi₀ hd hj]
  split_ifs with hs
  · exact ⟨hs ▸ List.filter_sublist _, rfl⟩
  · exact ⟨hs ▸ List.filter_sublist _, h.maxSize_eq i₀ hi₀⟩
  · exact ⟨List.Sublist.refl _, h.maxSize_eq j hj⟩

/-- Steps 2 to 5 keep `Inv`. -/
theorem Inv.halved (h : t.Inv) (hi₀ : i₀ < 2 ^ t.globalDepth)
    (hd : t.depthAt i₀ < t.globalDepth) :
    (t.halved i₀).Inv := by
  have hG : (t.halved i₀).globalDepth = t.globalDepth := rfl
  have hP : 0 < 2 ^ t.depthAt i₀ := Nat.pos_pow_of_pos _ (by omega)
  have hpow : 2 ^ (t.depthAt i₀ + 1) ≤ 2 ^ t.globalDepth := Nat.pow_le_pow_right (by omega) hd
  have hsame : ∀ {j}, j < 2 ^ t.globalDepth →
      (t.slot j = t.slot i₀ ↔ j % 2 ^ t.depthAt i₀ = i₀ % 2 ^ t.depthAt i₀) :=
    fun hj => h.slot_eq_iff i₀ hi₀ _ hj
  have hne : ∀ {i}, i < 2 ^ t.globalDepth → t.slot i ≠ t.nextAddr :=
    fun hi => (h.slot_lt _ hi).ne
  refine ⟨?_, by simp [ExtendibleHashTable.halved, h.numBuckets_eq], fun j hj => ?_,
    fun a ha => ?_, fun j hj => ?_, fun i hi j hj => ?_, fun i hi p hp => ?_, fun i hi => ?_,
    fun i hi => ?_, fun i hi => ?_, h.globalDepth_lt⟩
  · simp [ExtendibleHashTable.halved, repoint, h.dir_length]
  · rw [h.halved_slot hd hj]
    split_ifs
    · exact Nat.lt_succ_self _
    · exact Nat.lt_succ_of_lt (h.slot_lt j hj)
  · -- the new bucket sits in slot `2 ^ d + i₀ % 2 ^ d`, the old one in slot `i₀ % 2 ^ d`
    have hm := Nat.mod_lt i₀ hP
    have hlow : i₀ % 2 ^ t.depthAt i₀ < 2 ^ t.globalDepth := by rw [Nat.pow_succ] at hpow; omega
    have hhigh : 2 ^ t.depthAt i₀ + i₀ % 2 ^ t.depthAt i₀ < 2 ^ t.globalDepth := by
      rw [Nat.pow_succ] at hpow; omega
    rcases Nat.lt_succ_iff_lt_or_eq.1 ha with ha | rfl
    · by_cases hab : a = t.slot i₀
      · refine ⟨_, hlow, ?_⟩
        rw [h.halved_slot hd hlow, if_neg (by simp [Nat.testBit_mod_two_pow]), hab]
        exact (hsame hlow).2 (Nat.mod_mod _ _)
      · obtain ⟨i, hi, rfl⟩ := h.addr_used a ha
        exact ⟨i, hi, by rw [h.halved_slot hd hi, if_neg fun hs => hab hs.1]⟩
    · refine ⟨_, hhigh, ?_⟩
      rw [h.halved_slot hd hhigh, if_pos ⟨(hsame hhigh).2 (by simp),
        by simp [Nat.testBit_two_pow_add_eq, Nat.testBit_mod_two_pow]⟩]
  · rw [h.halved_depthAt hi₀ hd hj]
    split_ifs
    · omega
    · exact h.depth_le j hj
  · rw [h.halved_slot hd hi, h.halved_slot hd hj, h.halved_depthAt hi₀ hd hi]
    by_cases hsi : t.slot i = t.slot i₀
    · have hi' := (hsame hi).1 hsi
      rw [if_pos hsi, mod_two_pow_succ_eq_iff, hi', ← hsame hj]
      by_cases hsj : t.slot j = t.slot i₀ <;>
        by_cases hbi : i.testBit (t.depthAt i₀) <;> by_cases hbj : j.testBit (t.depthAt i₀) <;>
        simp [hsi, hsj, hbi, hbj, hne hi₀, hne hj, (hne hi₀).symm, (hne hj).symm]
    · rw [if_neg hsi, ← h.slot_eq_iff i hi j hj]
      by_cases hsj : t.slot j = t.slot i₀
      · by_cases hbj : j.testBit (t.depthAt i₀) <;>
          simp [hsi, hsj, hbj, Ne.symm hsi, (hne hi).symm]
      · simp [hsi, hsj]
  · rw [h.mem_halved hi₀ hd hi] at hp
    rw [h.halved_depthAt hi₀ hd hi]
    split_ifs at hp ⊢ with hsi
    · rw [mod_two_pow_succ_eq_iff, h.hash_mod i₀ hi₀ p hp.1, ← (hsame hi).1 hsi]
      exact ⟨rfl, hp.2⟩
    · exact h.hash_mod i hi p hp
  · have hsub := (h.halved_sublist hi₀ hd hi).1
    exact (h.nodup i hi).sublist (hsub.map _)
  · exact (h.halved_sublist hi₀ hd hi).1.length_le.trans (h.length_le i hi)
  · exact (h.halved_sublist hi₀ hd hi).2

end Halved

/-! ## The calls keep the invariant -/

section Calls

variable [DecidableEq K] {t : ExtendibleHashTable K V} {i₀ : Nat} {key : K} {value : V}

/-! Steps 2 to 5 keep the directory's depth, and add one bucket. -/

@[simp] theorem splitHalves_globalDepth (t : ExtendibleHashTable K V) (b : Nat) :
    (t.splitHalves b).globalDepth = t.globalDepth := rfl

@[simp] theorem splitHalves_nextAddr (t : ExtendibleHashTable K V) (b : Nat) :
    (t.splitHalves b).nextAddr = t.nextAddr + 1 := rfl

@[simp] theorem splitHalves_numBuckets (t : ExtendibleHashTable K V) (b : Nat) :
    (t.splitHalves b).numBuckets = t.numBuckets + 1 := rfl

@[simp] theorem splitHalves_dir (t : ExtendibleHashTable K V) (b : Nat) :
    (t.splitHalves b).dir = repoint t.dir b t.nextAddr (t.heap b).localDepth := rfl

/-- `SplitBucket` on the bucket of slot `i₀`, when it leaves the directory at depth 31 or
less, is step 1 followed by `halved`. -/
theorem Inv.splitBucket_eq (h : t.Inv) (hi₀ : i₀ < 2 ^ t.globalDepth)
    (hG : (t.splitBucket (t.slot i₀)).globalDepth < 32) :
    t.splitBucket (t.slot i₀) = (t.growDir (t.slot i₀)).halved i₀ := by
  obtain ⟨hs, hd, hi⟩ := h.growDir_slot hi₀
  have := (h.growDir hG).splitHalves_eq hi hd
  rwa [hs] at this

theorem Inv.splitBucket (h : t.Inv) (hi₀ : i₀ < 2 ^ t.globalDepth)
    (hG : (t.splitBucket (t.slot i₀)).globalDepth < 32) : (t.splitBucket (t.slot i₀)).Inv := by
  obtain ⟨-, hd, hi⟩ := h.growDir_slot hi₀
  rw [h.splitBucket_eq hi₀ hG]
  exact (h.growDir hG).halved hi hd

/-- A successful `Bucket::Insert` into the bucket of the key keeps `Inv`. -/
theorem Inv.insert_bucket (h : t.Inv) {b : Bucket K V}
    (hb : (t.heap (t.slot (t.indexOf key))).insert key value = some b) :
    { t with heap := Function.update t.heap (t.slot (t.indexOf key)) b }.Inv := by
  have hi := h.indexOf_lt_pow key
  have hkey : (hash key).toNat % 2 ^ t.depthAt (t.indexOf key) =
      t.indexOf key % 2 ^ t.depthAt (t.indexOf key) := by
    have := mod_mod_two_pow (hash key).toNat (h.depth_le _ hi)
    rw [← h.indexOf_eq] at this
    exact this.symm
  rcases Bucket.insert_eq_some hb with ⟨ps, hps, rfl⟩ | ⟨hfresh, hlen, rfl⟩
  · obtain ⟨hmap, hmem⟩ := Bucket.overwrite_spec hps
    refine h.update_bucket hi rfl (h.maxSize_eq _ hi) ?_ (hmap ▸ h.nodup _ hi) fun p hp => ?_
    · simpa using (congrArg List.length hmap).trans_le (by simpa using h.length_le _ hi)
    · rcases hmem p hp with hp | rfl
      · exact h.hash_mod _ hi p hp
      · exact hkey
  · refine h.update_bucket hi rfl (h.maxSize_eq _ hi) ?_ ?_ fun p hp => ?_
    · simpa [← h.maxSize_eq _ hi] using hlen
    · rw [List.map_append, List.map_singleton]
      exact (h.nodup _ hi).append (List.nodup_singleton _) (List.disjoint_singleton.2 hfresh)
    · rcases List.mem_append.1 hp with hp | hp
      · exact h.hash_mod _ hi p hp
      · rw [List.mem_singleton.1 hp]; exact hkey

/-- A turn of the loop of `Insert` whose insertion into the bucket of the key succeeds
returns. -/
theorem Inv.insert_succ_of_some (h : t.Inv) {b : Bucket K V}
    (hb : (t.heap (t.slot (t.indexOf key))).insert key value = some b) (fuel : Nat) :
    t.insert (fuel + 1) key value =
      some { t with heap := Function.update t.heap (t.slot (t.indexOf key)) b } := by
  simp only [ExtendibleHashTable.insert, dif_pos (h.indexOf_lt key), getElem_dir, hb]

/-- A turn whose insertion fails splits the bucket and goes on to the next turn. -/
theorem Inv.insert_succ_of_none (h : t.Inv)
    (hb : (t.heap (t.slot (t.indexOf key))).insert key value = none) (fuel : Nat) :
    t.insert (fuel + 1) key value =
      (t.splitBucket (t.slot (t.indexOf key))).insert fuel key value := by
  simp only [ExtendibleHashTable.insert, dif_pos (h.indexOf_lt key), getElem_dir, hb]

omit [DecidableEq K] [Hashable K] in
/-- The loop of `Insert` only deepens the directory. -/
theorem globalDepth_le_insert [DecidableEq K] [Hashable K] :
    ∀ (fuel : Nat) {t t' : ExtendibleHashTable K V}, t.insert fuel key value = some t' →
      t.globalDepth ≤ t'.globalDepth
  | 0, _, _, h => by simp [ExtendibleHashTable.insert] at h
  | fuel + 1, t, t', h => by
    unfold ExtendibleHashTable.insert at h
    split_ifs at h
    split at h
    · cases h; exact le_rfl
    · exact (le_growDir_globalDepth t _).trans (globalDepth_le_insert fuel h :)

/-- Induction over the turns of the loop of `Insert`: a relation between a table and the
loop's result that holds when `Bucket::Insert` fits the pair (`fits`), and that a split before
the remaining turns keeps (`full`), holds between every table satisfying `Inv` and what the
loop returns from it, when that is no deeper than 31. -/
theorem Inv.insert_rec {motive : ExtendibleHashTable K V → ExtendibleHashTable K V → Prop}
    (fits : ∀ {t : ExtendibleHashTable K V} {b : Bucket K V}, t.Inv →
      (t.heap (t.slot (t.indexOf key))).insert key value = some b →
      motive t { t with heap := Function.update t.heap (t.slot (t.indexOf key)) b })
    (full : ∀ {t t' : ExtendibleHashTable K V}, t.Inv →
      (t.heap (t.slot (t.indexOf key))).insert key value = none →
      (t.splitBucket (t.slot (t.indexOf key))).globalDepth < 32 →
      motive (t.splitBucket (t.slot (t.indexOf key))) t' → motive t t') (fuel : Nat) :
    ∀ {t t' : ExtendibleHashTable K V}, t.Inv → t.insert fuel key value = some t' →
      t'.globalDepth < 32 → motive t t' := by
  induction fuel with
  | zero => intro t t' _ h'; simp [ExtendibleHashTable.insert] at h'
  | succ fuel ih =>
    intro t t' h h' hG
    cases hb : (t.heap (t.slot (t.indexOf key))).insert key value with
    | some b => rw [h.insert_succ_of_some hb, Option.some.injEq] at h'; exact h' ▸ fits h hb
    | none =>
      rw [h.insert_succ_of_none hb] at h'
      have hG' := (globalDepth_le_insert fuel h').trans_lt hG
      exact full h hb hG' (ih (h.splitBucket (h.indexOf_lt_pow key) hG') h' hG)

/-- Every turn of the loop of `Insert` keeps `Inv`, so the table it returns satisfies it when
it is no deeper than 31. -/
theorem Inv.insert (fuel : Nat) :
    ∀ {t t' : ExtendibleHashTable K V}, t.Inv → t.insert fuel key value = some t' →
      t'.globalDepth < 32 → t'.Inv :=
  Inv.insert_rec (motive := fun _ t' => t'.Inv) (fun h hb => h.insert_bucket hb)
    (fun _ _ _ ht' => ht') fuel

/-- `Remove` of a key its bucket holds replaces the bucket by the one without the key. -/
theorem Inv.remove_of_some (h : t.Inv) {b : Bucket K V}
    (hb : (t.heap (t.slot (t.indexOf key))).remove key = some b) :
    t.remove key =
      (true, { t with heap := Function.update t.heap (t.slot (t.indexOf key)) b }) := by
  simp only [ExtendibleHashTable.remove, dif_pos (h.indexOf_lt key), getElem_dir, hb]

/-- `Remove` of a key its bucket does not hold leaves the table. -/
theorem Inv.remove_of_none (h : t.Inv)
    (hb : (t.heap (t.slot (t.indexOf key))).remove key = none) : t.remove key = (false, t) := by
  simp only [ExtendibleHashTable.remove, dif_pos (h.indexOf_lt key), getElem_dir, hb]

theorem remove_globalDepth (t : ExtendibleHashTable K V) (key : K) :
    (t.remove key).2.globalDepth = t.globalDepth := by
  unfold ExtendibleHashTable.remove
  split
  · split <;> rfl
  · rfl

theorem remove_bucketSize (t : ExtendibleHashTable K V) (key : K) :
    (t.remove key).2.bucketSize = t.bucketSize := by
  unfold ExtendibleHashTable.remove
  split
  · split <;> rfl
  · rfl

theorem Inv.remove (h : t.Inv) (key : K) : (t.remove key).2.Inv := by
  have hi := h.indexOf_lt_pow key
  cases hb : (t.heap (t.slot (t.indexOf key))).remove key with
  | some b =>
    rw [h.remove_of_some hb]
    obtain ⟨ps, hps, rfl⟩ := Option.map_eq_some'.1 hb
    have hsub := Bucket.eraseKey_sublist hps
    exact h.update_bucket hi rfl (h.maxSize_eq _ hi) (hsub.length_le.trans (h.length_le _ hi))
      ((h.nodup _ hi).sublist (hsub.map _)) fun p hp => h.hash_mod _ hi p (hsub.subset hp)
  | none => rw [h.remove_of_none hb]; exact h

theorem Inv.step (h : t.Inv) {c : Call K V} {out : Reply V} {t' : ExtendibleHashTable K V}
    (hs : Step t c out t') (hG : t'.globalDepth < 32) : t'.Inv := by
  cases hs with
  | insert fuel h' => exact Inv.insert fuel h h' hG
  | remove => exact h.remove _
  | find => exact h

/-- No call makes the directory shallower. -/
theorem Step.globalDepth_le {c : Call K V} {out : Reply V} {t' : ExtendibleHashTable K V}
    (hs : Step t c out t') : t.globalDepth ≤ t'.globalDepth := by
  cases hs with
  | insert fuel h' => exact globalDepth_le_insert fuel h'
  | remove => exact (remove_globalDepth _ _).ge
  | find => exact le_rfl

omit [DecidableEq K] in
theorem init_inv (bucketSize : Nat) : (init bucketSize : ExtendibleHashTable K V).Inv := by
  have hs : ∀ i, (init bucketSize : ExtendibleHashTable K V).slot i = 0 := fun i => by
    cases i <;> rfl
  refine ⟨rfl, rfl, fun i _ => (hs i).symm ▸ Nat.zero_lt_one,
    fun a ha => ⟨0, Nat.zero_lt_one, ?_⟩,
    fun i _ => Nat.zero_le _, fun i _ j _ => by simp only [hs, depthAt]; simp [init, Nat.mod_one],
    fun i _ p hp => absurd hp (List.not_mem_nil _), fun i _ => List.nodup_nil,
    fun i _ => Nat.zero_le _, fun i _ => rfl, Nat.zero_lt_succ _⟩
  rw [hs]; exact (Nat.lt_one_iff.1 ha).symm

/-- The constructor's table holds no key. -/
theorem find_init (bucketSize : Nat) (k : K) :
    (init bucketSize : ExtendibleHashTable K V).find k = none := by
  rw [(init_inv bucketSize).find_eq]; rfl

/-- Over a run that ends at depth 31 or less, every table satisfies `Inv`: the depth never
decreases, so no split on the way broke it. -/
theorem Run.inv {t₀ t : ExtendibleHashTable K V} {cs : List (Call K V)} {outs : List (Reply V)}
    (h₀ : t₀.Inv) (hrun : Run t₀ cs outs t) (hG : t.globalDepth < 32) : t.Inv := by
  induction hrun with
  | nil => exact h₀
  | snoc _ hs ih => exact (ih (hs.globalDepth_le.trans_lt hG)).step hs hG

end Calls

/-! ## Consequences for the directory -/

section Directory

variable {t : ExtendibleHashTable K V}

/-- The distinct buckets of the directory are the allocated ones, `0, …, nextAddr - 1`. -/
theorem Inv.uniqueBuckets_perm (h : t.Inv) : t.uniqueBuckets.Perm (List.range t.nextAddr) :=
  (List.perm_ext_iff_of_nodup (List.nodup_dedup _) (List.nodup_range _)).2 fun a => by
    rw [List.mem_dedup, List.mem_range]
    constructor
    · intro ha
      obtain ⟨i, hi, rfl⟩ := List.mem_iff_getElem.1 ha
      have := h.slot_lt i (h.dir_length ▸ hi)
      rwa [slot, List.getD_eq_getElem _ _ hi] at this
    · intro ha
      obtain ⟨i, hi, rfl⟩ := h.addr_used a ha
      rw [slot, List.getD_eq_getElem _ _ (h.dir_length ▸ hi)]
      exact List.getElem_mem _

/-- `num_buckets_` is the number of distinct buckets in the directory. -/
theorem Inv.numBuckets_eq_dedup (h : t.Inv) : t.numBuckets = t.dir.dedup.length := by
  show t.numBuckets = t.uniqueBuckets.length
  rw [h.uniqueBuckets_perm.length_eq, List.length_range, h.numBuckets_eq]

end Directory

/-! ## Every reachable table -/

section Reachable

variable [DecidableEq K]

end Reachable

end ExtendibleHashTable

end Bustub
