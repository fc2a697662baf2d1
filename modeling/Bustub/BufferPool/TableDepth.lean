import Bustub.BufferPool.PageTable
import Bustub.HashTable.DepthBound

/-! # How deep the page table gets, and the runs of the code that are the model's

The model of the hash table computes the index of `IndexOf` and the test of `SplitBucket`
with exact masks; the code's `int` masks `(1 << global_depth_) - 1` and `1 << split_bit` are
the same up to depth 30 (`indexOfInt_eq`). So the code's pool is the model's as long as its
page table stays that shallow.

The keys of the page table are pages handed out, and a call inserts at most one page: the new
page `next_page_id_` or the page it fetches (`exec_effect`). While at most `2 ^ 31` pages have
been handed out these are in `[0, 2 ^ 31)` (`inserts_lt`), where page ids agree on their low
30 hash bits at most two at a time (`fewAgree_pageKey`). So with buckets of two pairs or more,
over every run that hands out at most `2 ^ 31` pages, the page table stays at depth 30 or less
and the view of the pool is a run of the model (`Run.bounded`): the `int` masks and
`num_buckets_` stay in range (`Run.pageTable_depth_le`), and the run of the code is a run of
the model with the same replies (`Run.refines_model`). Conversely, every such run of the model
is a run of the code with 31 turns for the loop of `Insert` (`model_run_implemented`), and
along the code's runs every admissible call made before the `2 ^ 31`-th page returns
(`Run.admissible_call_returns`).

A call inserts into the frame it took, which no page of the table is in, and the pages of the
table are in distinct frames: with the page inserted they number at most `pool_size_`
(`Inserts.length_le`). The loop of `Insert` splits only when there are more than
`bucket_size_` of them (`Inv.insert_no_split`), so a pool of at most `bucket_size_` frames
keeps the constructor's directory of one slot over every run, whether or not the counter wraps
(`Run.pageTable_one_bucket`).
-/

namespace Bustub

/-- Page ids in `[0, 2 ^ 31)` agree on their low 30 hash bits at most two at a time: they are
congruent modulo `2 ^ 30`. -/
theorem fewAgree_pageKey :
    ExtendibleHashTable.FewAgree (fun k : PageKey => 0 ≤ k.id ∧ k.id < 2 ^ 31) 30 2 :=
  ExtendibleHashTable.fewAgree_of_range (a := 0) PageKey.id
    (fun ⟨_⟩ ⟨_⟩ _ _ h => by cases h; rfl)
    (fun k _ => ExtendibleHashTable.toNat_ofNat_emod_two_pow k.id (by omega))
    (fun k hk => ⟨hk.1, by have := hk.2; omega⟩)

namespace ExtendibleHashTable

variable {t : ExtendibleHashTable PageKey Nat} {fuel : Nat} {p : Int}

/-- In a table of buckets of two pairs or more at depth 30 or less whose pages are in
`[0, 2 ^ 31)`, the loop of `Insert` of a page in `[0, 2 ^ 31)` returns within 31 turns and
leaves depth 30 or less. -/
theorem Inv.insert_pageKey_some (h : t.Inv) (hb : 2 ≤ t.bucketSize) (hD : t.globalDepth ≤ 30)
    (hkeys : ∀ q, (t.find ⟨q⟩).isSome → 0 ≤ q ∧ q < 2 ^ 31) (hp : 0 ≤ p ∧ p < 2 ^ 31)
    (hfuel : 31 ≤ fuel) (f : Nat) :
    ∃ t', t.insert fuel ⟨p⟩ f = some t' ∧ t'.globalDepth ≤ 30 := by
  obtain ⟨t', hG, ht'⟩ : ∃ t', t'.globalDepth ≤ max t.globalDepth 30 ∧
      ∀ fuel, 30 + 1 ≤ fuel → t.insert fuel ⟨p⟩ f = some t' :=
    h.insert_eq_some (D := 30) (by decide) (FewAgree.fewCollisions (fewAgree_pageKey.mono
      (fun ⟨q⟩ hq => hq.elim (fun e => by cases e; exact hp) (hkeys q)) hb))
  exact ⟨t', ht' fuel hfuel, by omega⟩

end ExtendibleHashTable

namespace BufferPoolManagerInstance

variable {Data : Type} {s s' s₁ : BufferPoolManagerInstance Data} {f : Nat}

/-- The pages in the page table of a pool with frame `f` taken out are in distinct frames
other than `f`: fewer than `pool_size_` of them. -/
theorem FrameDetached.length_lt_poolSize (h : s.FrameDetached f) {ps : List Int}
    (hnd : ps.Nodup) (hps : ∀ p ∈ ps, s.pageTable p ≠ none) : ps.length < s.poolSize := by
  have hframe : ∀ p ∈ ps, (s.pages ((s.pageTable p).getD 0)).pageId = p ∧
      (s.pageTable p).getD 0 ∈ (List.range s.poolSize).erase f := fun p hp => by
    obtain ⟨g, hg⟩ := Option.ne_none_iff_exists'.1 (hps p hp)
    obtain ⟨hlt, -, hpid⟩ := h.table p g hg
    simp only [hg, Option.getD_some]
    exact ⟨hpid, (List.nodup_range _).mem_erase_iff.2
      ⟨fun e => h.no_entry p (e ▸ hg), List.mem_range.2 hlt⟩⟩
  have hnd' : (ps.map fun p => (s.pageTable p).getD 0).Nodup :=
    hnd.map_on fun p hp q hq he => by rw [← (hframe p hp).1, ← (hframe q hq).1, he]
  calc ps.length = (ps.map fun p => (s.pageTable p).getD 0).length := (List.length_map _ _).symm
    _ ≤ ((List.range s.poolSize).erase f).length := (hnd'.subperm fun g hg => by
        obtain ⟨p, hp, rfl⟩ := List.mem_map.1 hg
        exact (hframe p hp).2).length_le
    _ < s.poolSize := by
        rw [List.length_erase_of_mem (List.mem_range.2 h.lt), List.length_range]
        exact Nat.sub_lt (Nat.zero_lt_of_lt h.lt) Nat.one_pos

/-- A `NewPgImp` that takes a frame hands out `next_page_id_`. -/
theorem exec_newPg_of_acquireFrame [Zero Data] {order : List Nat} {out : BpmReply}
    (he : s.exec (.newPg order) = .ok (out, s')) (ha : s.acquireFrame order = .ok (some f, s₁)) :
    out.newPageId = some s.nextPageId := by
  obtain ⟨⟨res, s₂⟩, hn, he⟩ := LRUKReplacer.map_eq_ok he; cases he
  obtain ⟨frame, s₃, ha', hcases⟩ := newPgImp_eq_ok hn
  rw [ha, Except.ok.injEq, Prod.mk.injEq] at ha'
  obtain ⟨rfl, rfl⟩ := ha'
  rcases hcases with ⟨h, -⟩ | ⟨g, -, rfl, -⟩
  · cases h
  · show some s₁.nextPageId = _
    rw [acquireFrame_nextPageId ha]

end BufferPoolManagerInstance

namespace Conc.BufferPoolManagerInstance

open ExtendibleHashTable LRUKReplacer

variable {Data : Type} {s s' : BufferPoolManagerInstance Data} {fuel : Nat}
  {cs : List BpmCall} {outs : List BpmReply}

/-! ## Runs that hand out at most `2 ^ 31` pages -/

/-- A change of a table of buckets of two pairs or more at depth 30 or less, whose stored and
inserted pages are in `[0, 2 ^ 31)`, keeps the depth at 30 or less. -/
theorem TableChange.globalDepth_le {ins : ExtendibleHashTable PageKey Nat → Int → Nat → Prop}
    {t t' : ExtendibleHashTable PageKey Nat} (h : TableChange fuel ins t t') (ht : t.Inv)
    (hb : 2 ≤ t.bucketSize) (hD : t.globalDepth ≤ 30)
    (hstored : ∀ q, (t.find ⟨q⟩).isSome → 0 ≤ q ∧ q < 2 ^ 31)
    (hkeys : ∀ t₁ q f, ins t₁ q f → 0 ≤ q ∧ q < 2 ^ 31) : t'.globalDepth ≤ 30 := by
  obtain ⟨t₁, h₁, h₂⟩ := h
  obtain ⟨ht₁, -, hD₁, -, hsub⟩ := h₁.shape ht
  rcases h₂ with rfl | ⟨p, f, hp, hins⟩
  · omega
  · refine Inv.globalDepth_insert_le (D := 30) (by decide) fuel ht₁ hins (by omega)
      (fewAgree_pageKey.mono (fun ⟨q⟩ hq => ?_) (h₁.bucketSize ▸ hb))
    rcases hq with hq | hq
    · cases hq; exact hkeys t₁ p f hp
    · exact hstored q (hsub q hq)

/-- While at most `2 ^ 31` pages have been handed out, a page that a call inserts was handed
out by the call or before it. -/
theorem inserts_lt {c : BpmCall} {out : BpmReply} {t₁ : ExtendibleHashTable PageKey Nat}
    {q : Int} {f : Nat} (hnext : s.nextPageId = toPageId (allocations outs))
    (hc : s.view.Admissible c) (hn : allocations (outs ++ [out]) ≤ 2 ^ 31)
    (hq : s.Inserts c out t₁ q f) : 0 ≤ q ∧ q < allocations (outs ++ [out]) := by
  have hle : allocations outs ≤ allocations (outs ++ [out]) := allocations_le_append
  unfold toPageId at hnext
  obtain ⟨order, s₁, -, -, ⟨-, rfl, hout⟩ | rfl⟩ := hq
  · rw [allocations_append_some hout] at hn ⊢
    omega
  · have hlt : q < s.nextPageId := hc.2.1
    exact ⟨hc.1, by omega⟩

/-- Over every run of the code's pool with buckets of two pairs or more that hands out at most
`2 ^ 31` pages, the view is a run of the model, and the page table satisfies `Inv`, stays at
depth 30 or less and holds only pages handed out. -/
theorem Run.bounded [Zero Data] (h : Run fuel cs outs s) (hb : 2 ≤ s.pageTable.bucketSize)
    (hn : allocations outs ≤ 2 ^ 31) :
    Bustub.BufferPoolManagerInstance.Run cs outs s.view ∧ s.pageTable.Inv ∧
      s.pageTable.globalDepth ≤ 30 ∧
      ∀ q, (s.pageTable.find ⟨q⟩).isSome → 0 ≤ q ∧ q < allocations outs := by
  induction h with
  | init h =>
    rw [init_pageTable h]
    exact ⟨.init (init_view_ok h), ExtendibleHashTable.init_inv _, Nat.zero_le _,
      fun q hq => by simp [ExtendibleHashTable.find_init] at hq⟩
  | @snoc cs outs s s' c out _ hc he ih =>
    have hE := exec_effect he
    have hle : allocations outs ≤ allocations (outs ++ [out]) := allocations_le_append
    obtain ⟨hm, ht, hD, hkeys⟩ := ih (hE.table.bucketSize ▸ hb) (hle.trans hn)
    -- the pages the call inserts, like those of the table, were handed out
    have hins : ∀ t₁ q f, s.Inserts c out t₁ q f → 0 ≤ q ∧ q < allocations (outs ++ [out]) :=
      fun _ _ _ => inserts_lt hm.newPageIds_eq.1 hc hn
    have hD' := hE.table.globalDepth_le ht (hE.table.bucketSize ▸ hb) hD
      (fun q hq => (hkeys q hq).imp_right fun _ => by omega)
      (fun t₁ q f hq => (hins t₁ q f hq).imp_right fun _ => by omega)
    obtain ⟨ht', hsub⟩ := hE.table.inv ht (by omega)
    refine ⟨hm.snoc hc (exec_view_ok ht (by omega) he), ht', hD', fun q hq => ?_⟩
    rcases hsub q hq with hq | ⟨t₁, f, hq⟩
    · exact (hkeys q hq).imp_right fun _ => by omega
    · exact hins t₁ q f hq

/-- Over every run of the code's pool with buckets of two pairs or more that hands out at most
`2 ^ 31` pages, the page table stays at global depth 30 or less, with at most `2 ^ 30` buckets:
the `int` masks of its `IndexOf` and `SplitBucket` and its `num_buckets_` stay in range, and its
`IndexOf` computes the model's index for every page. -/
theorem Run.pageTable_depth_le [Zero Data] (h : Run fuel cs outs s)
    (hb : 2 ≤ s.pageTable.bucketSize) (hn : allocations outs ≤ 2 ^ 31) :
    s.pageTable.globalDepth ≤ 30 ∧ s.pageTable.numBuckets ≤ 2 ^ 30 ∧
      ∀ p : Int, s.pageTable.indexOfInt ⟨p⟩ = some (s.pageTable.indexOf ⟨p⟩) := by
  obtain ⟨-, ht, hD, -⟩ := h.bounded hb hn
  exact ⟨hD, ht.numBuckets_le.trans (Nat.pow_le_pow_right (by omega) hD),
    fun p => indexOfInt_eq hD _⟩

/-- A pool of three frames with buckets of two pairs after three `NewPgImp`: the third page
splits the bucket, and the table reaches depth one. -/
theorem pageTable_depth_le_three_pages :
    ∃ s : BufferPoolManagerInstance Nat,
      Run 31 ([] ++ [.newPg []] ++ [.newPg [0]] ++ [.newPg [0, 1]])
        ([] ++ [.newPg (some (0, 0))] ++ [.newPg (some (1, 1))] ++ [.newPg (some (2, 2))]) s ∧
      2 ≤ s.pageTable.bucketSize ∧
      allocations ([] ++ [.newPg (some (0, 0))] ++ [.newPg (some (1, 1))] ++
        [.newPg (some (2, 2))]) ≤ 2 ^ 31 ∧ s.pageTable.globalDepth = 1 ∧
      (s.pageTable.globalDepth ≤ 30 ∧ s.pageTable.numBuckets ≤ 2 ^ 30 ∧
        ∀ p : Int, s.pageTable.indexOfInt ⟨p⟩ = some (s.pageTable.indexOf ⟨p⟩)) := by
  have h₀ : Run 31 [] [] _ := .init (rfl : init 3 2 2 (⟨fun _ => 0, []⟩ : DiskManager Nat) = _)
  have h₁ := Run.snoc (c := .newPg []) h₀ ⟨List.nodup_nil, fun f => by simp⟩ rfl
  have h₂ := Run.snoc (c := .newPg [0]) h₁ ⟨List.nodup_singleton 0, fun f => by
    rcases f with _ | f <;> simp [Function.update]⟩ rfl
  have h₃ := Run.snoc (c := .newPg [0, 1]) h₂ ⟨by decide, fun f => by
    rcases f with _ | _ | f <;> simp [Function.update]⟩ rfl
  exact ⟨_, h₃, by decide, by decide, by decide, h₃.pageTable_depth_le (by decide) (by decide)⟩

/-- Every run of the code's pool with buckets of two pairs or more that hands out at most
`2 ^ 31` pages is a run of the model with the same calls and replies, ending in the view of the
code's pool, and its page table stays at depth 30 or less, where the `int` masks of the code
compute the model's. -/
theorem Run.refines_model [Zero Data] (h : Run fuel cs outs s) (hb : 2 ≤ s.pageTable.bucketSize)
    (hn : allocations outs ≤ 2 ^ 31) :
    Bustub.BufferPoolManagerInstance.Run cs outs s.view ∧ s.pageTable.globalDepth ≤ 30 := by
  obtain ⟨hm, -, hD, -⟩ := h.bounded hb hn
  exact ⟨hm, hD⟩

/-- A pool of one frame with buckets of two pairs: page `0` is evicted by a second `NewPgImp`
and fetched back, which evicts page `1`. -/
theorem refines_model_evict_fetch :
    ∃ s : BufferPoolManagerInstance Nat,
      Run 31 ([] ++ [.newPg []] ++ [.unpinPg 0 false] ++ [.newPg [0]] ++ [.unpinPg 1 false] ++
          [.fetchPg 0 [0]])
        ([] ++ [.newPg (some (0, 0))] ++ [.flag true] ++ [.newPg (some (1, 0))] ++ [.flag true] ++
          [.fetchPg (some 0)]) s ∧
      2 ≤ s.pageTable.bucketSize ∧
      allocations ([] ++ [.newPg (some (0, 0))] ++ [.flag true] ++ [.newPg (some (1, 0))] ++
        [.flag true] ++ [.fetchPg (some 0)]) ≤ 2 ^ 31 ∧
      (Bustub.BufferPoolManagerInstance.Run ([] ++ [.newPg []] ++ [.unpinPg 0 false] ++
          [.newPg [0]] ++ [.unpinPg 1 false] ++ [.fetchPg 0 [0]])
        ([] ++ [.newPg (some (0, 0))] ++ [.flag true] ++ [.newPg (some (1, 0))] ++ [.flag true] ++
          [.fetchPg (some 0)]) s.view ∧ s.pageTable.globalDepth ≤ 30) := by
  have h₀ : Run 31 [] [] _ := .init (rfl : init 1 2 2 (⟨fun _ => 0, []⟩ : DiskManager Nat) = _)
  have h₁ := Run.snoc (c := .newPg []) h₀ ⟨List.nodup_nil, fun f => by simp⟩ rfl
  have h₂ := Run.snoc (c := .unpinPg 0 false) h₁ trivial rfl
  have h₃ := Run.snoc (c := .newPg [0]) h₂ ⟨List.nodup_singleton 0, fun f => by
    rcases f with _ | f <;> simp [Function.update]⟩ rfl
  have h₄ := Run.snoc (c := .unpinPg 1 false) h₃ trivial rfl
  have h₅ := Run.snoc (c := .fetchPg 0 [0]) h₄ ⟨le_rfl, by decide, List.nodup_singleton 0,
    fun f => by rcases f with _ | f <;> simp [Function.update]⟩ rfl
  exact ⟨_, h₅, by decide, by decide, h₅.refines_model (by decide) (by decide)⟩

/-- Along a run of the code's pool with buckets of two pairs or more, a call that the model
makes on the view, and that leaves at most `2 ^ 31` pages handed out, is made by the code with
31 turns for the loop of `Insert`: the same reply, and the view of the pool it leaves. -/
theorem Run.exec_of_model [Zero Data] (h : Run fuel cs outs s) (hb : 2 ≤ s.pageTable.bucketSize)
    (hfuel : 31 ≤ fuel) {c : BpmCall} (hc : s.view.Admissible c) {out : BpmReply}
    {m' : Bustub.BufferPoolManagerInstance Data} (he : s.view.exec c = .ok (out, m'))
    (hn : allocations (outs ++ [out]) ≤ 2 ^ 31) :
    ∃ s', s.exec fuel c = .ok (out, s') ∧ s'.view = m' := by
  have hn' : allocations outs ≤ 2 ^ 31 := allocations_le_append.trans hn
  obtain ⟨hm, ht, hD, hkeys⟩ := h.bounded hb hn'
  -- the `Insert` of a page handed out returns, into a table at depth 30 or less
  have hreturn : ∀ {order s₁ q f}, s.acquireFrame order = .ok (some f, s₁) →
      s.Inserts c out s₁.pageTable q f →
      ∃ t', s₁.pageTable.insert fuel ⟨q⟩ f = some t' ∧ t'.globalDepth < 32 := by
    intro order s₁ q f ha hq
    have hq' := inserts_lt hm.newPageIds_eq.1 hc hn hq
    have hrem := (acquireFrame_ok ha).2.2.2
    obtain ⟨ht₁, -, hD₁, -, hsub⟩ := hrem.shape ht
    obtain ⟨t', hins, hD'⟩ := ht₁.insert_pageKey_some (hrem.bucketSize ▸ hb) (by omega)
      (fun q hq => (hkeys q (hsub q hq)).imp_right fun _ => by omega)
      ⟨hq'.1, by omega⟩ hfuel f
    exact ⟨t', hins, by omega⟩
  have hins : s.InsertsReturn fuel c := by
    cases c with
    | newPg order =>
      intro f s₁ ha
      have hout := Bustub.BufferPoolManagerInstance.exec_newPg_of_acquireFrame he
        (acquireFrame_view_ok ht ha)
      rw [(acquireFrame_ok ha).1]
      exact hreturn ha ⟨order, s₁, ha, rfl, .inl ⟨rfl, rfl, hout⟩⟩
    | fetchPg p order => exact fun _ f s₁ ha => hreturn ha ⟨order, s₁, ha, rfl, .inr rfl⟩
    | _ => trivial
  obtain ⟨⟨out', s'⟩, hs, hr⟩ := map_eq_ok ((exec_view ht hins).trans he)
  obtain ⟨rfl, rfl⟩ := Prod.mk.inj hr
  exact ⟨s', hs, rfl⟩

/-- Every run of the model that hands out at most `2 ^ 31` pages is a run of the code's pool
with buckets of `bucketSize ≥ 2` pairs and 31 turns for the loop of `Insert`: the same calls
and replies, ending in a pool whose view is the model's state and whose table has buckets of
`bucketSize` pairs. -/
theorem model_run_implemented [Zero Data] {bucketSize : Nat} (hb : 2 ≤ bucketSize)
    (hfuel : 31 ≤ fuel) {m : Bustub.BufferPoolManagerInstance Data}
    (h : Bustub.BufferPoolManagerInstance.Run cs outs m) (hn : allocations outs ≤ 2 ^ 31) :
    ∃ s, Run fuel cs outs s ∧ s.view = m ∧ s.pageTable.bucketSize = bucketSize := by
  induction h with
  | init h =>
    obtain ⟨s, hs, rfl⟩ := map_eq_ok ((init_view _ _ bucketSize _).trans h)
    exact ⟨s, .init hs, rfl, by rw [init_pageTable hs]; rfl⟩
  | snoc _ hc he ih =>
    obtain ⟨s, hrun, rfl, hbs⟩ := ih (allocations_le_append.trans hn)
    obtain ⟨s', he', rfl⟩ := hrun.exec_of_model (hbs ▸ hb) hfuel hc he hn
    exact ⟨s', hrun.snoc hc he', rfl, (exec_effect he').table.bucketSize.trans hbs⟩

/-- The model's run of `NewPgImp` and `UnpinPgImp` of the new page on one frame, run by the
code with buckets of two pairs. -/
theorem model_run_implemented_one_round :
    2 ≤ 2 ∧ 31 ≤ 31 ∧ ∃ m : Bustub.BufferPoolManagerInstance Nat,
      Bustub.BufferPoolManagerInstance.Run ([] ++ [.newPg []] ++ [.unpinPg 0 false])
        ([] ++ [.newPg (some (0, 0))] ++ [.flag true]) m ∧
      allocations ([] ++ [.newPg (some (0, 0))] ++ [.flag true]) ≤ 2 ^ 31 ∧
      ∃ s, Run 31 ([] ++ [.newPg []] ++ [.unpinPg 0 false])
        ([] ++ [.newPg (some (0, 0))] ++ [.flag true]) s ∧ s.view = m ∧
        s.pageTable.bucketSize = 2 := by
  have h₀ := Bustub.BufferPoolManagerInstance.Run.init
    (rfl : Bustub.BufferPoolManagerInstance.init 1 2 (⟨fun _ => 0, []⟩ : DiskManager Nat) = _)
  have h₁ := Bustub.BufferPoolManagerInstance.Run.snoc (c := .newPg []) h₀
    ⟨List.nodup_nil, fun f => by simp⟩ rfl
  have h₂ := Bustub.BufferPoolManagerInstance.Run.snoc (c := .unpinPg 0 false) h₁ trivial rfl
  exact ⟨le_rfl, le_rfl, _, h₂, by decide, model_run_implemented le_rfl le_rfl h₂ (by decide)⟩

/-- Along every run of the code's pool with buckets of two pairs or more and 31 turns for the
loop of `Insert`, while fewer than `2 ^ 31` pages have been handed out, every admissible call
returns: no assertion of the replacer fails and no loop of `Insert` runs out of turns. -/
theorem Run.admissible_call_returns [Zero Data] (h : Run fuel cs outs s) (hfuel : 31 ≤ fuel)
    (hb : 2 ≤ s.pageTable.bucketSize) (hn : allocations outs < 2 ^ 31) {c : BpmCall}
    (hc : s.view.Admissible c) : ∃ out s', s.exec fuel c = .ok (out, s') := by
  obtain ⟨out, m', he⟩ := (h.bounded hb hn.le).1.reachable.frameInv.exec_ok hc
  have hn' : allocations (outs ++ [out]) ≤ 2 ^ 31 := by
    cases hout : out.newPageId with
    | none => rw [allocations_append_none hout]; omega
    | some p => rw [allocations_append_some hout]; omega
  obtain ⟨s', he', -⟩ := h.exec_of_model hb hfuel hc he hn'
  exact ⟨out, s', he'⟩

/-- A pool of one frame with buckets of two pairs after `NewPgImp` and an `UnpinPgImp` of the
new page: a second `NewPgImp`, which evicts the page, returns. -/
theorem admissible_call_returns_one_round :
    ∃ s : BufferPoolManagerInstance Nat,
      Run 31 ([] ++ [.newPg []] ++ [.unpinPg 0 false]) ([] ++ [.newPg (some (0, 0))] ++ [.flag true])
        s ∧ 31 ≤ 31 ∧ 2 ≤ s.pageTable.bucketSize ∧
      allocations ([] ++ [.newPg (some (0, 0))] ++ [.flag true]) < 2 ^ 31 ∧
      s.view.Admissible (.newPg [0]) ∧ ∃ out s', s.exec 31 (.newPg [0]) = .ok (out, s') := by
  have h₀ : Run 31 [] [] _ := .init (rfl : init 1 2 2 (⟨fun _ => 0, []⟩ : DiskManager Nat) = _)
  have h₁ := Run.snoc (c := .newPg []) h₀ ⟨List.nodup_nil, fun f => by simp⟩ rfl
  have h₂ := Run.snoc (c := .unpinPg 0 false) h₁ trivial rfl
  refine ⟨_, h₂, le_rfl, by decide, by decide, ?_,
    h₂.admissible_call_returns le_rfl (by decide) (by decide) ?_⟩ <;>
  exact ⟨List.nodup_singleton 0, fun f => by rcases f with _ | f <;> simp [Function.update]⟩

/-! ## Pools no larger than a bucket -/

/-- From a pool whose table satisfies `Inv` and whose view satisfies `FrameInv`, an admissible
call inserts a page into a table that holds, with the page, at most `pool_size_` pages: those of
the table are in distinct frames, none of them the frame the call took. -/
theorem Inserts.length_le [Zero Data] (h : s.pageTable.Inv) (hv : s.view.FrameInv) {c : BpmCall}
    (hc : s.view.Admissible c) {out : BpmReply} {t₁ : ExtendibleHashTable PageKey Nat} {q : Int}
    {f : Nat} (hq : s.Inserts c out t₁ q f) {ks : List PageKey} (hnd : ks.Nodup)
    (hks : ∀ k ∈ ks, k = ⟨q⟩ ∨ (t₁.find k).isSome) : ks.length ≤ s.poolSize := by
  obtain ⟨order, s₁, ha, rfl, hcall⟩ := hq
  have ho : s.replacer.IsIterationOrder order := by
    rcases hcall with ⟨rfl, -, -⟩ | rfl
    exacts [hc, hc.2.2]
  obtain ⟨hdet, -, hpool⟩ := hv.acquireFrame ho (acquireFrame_view_ok h ha)
  -- the keys other than the page inserted are pages of the table
  have hlt : ((ks.erase ⟨q⟩).map PageKey.id).length < s₁.view.poolSize :=
    hdet.length_lt_poolSize ((hnd.erase _).map_on fun ⟨_⟩ _ ⟨_⟩ _ he => by cases he; rfl)
      fun p hp => by
        obtain ⟨k, hk, rfl⟩ := List.mem_map.1 hp
        obtain ⟨hkq, hkmem⟩ := hnd.mem_erase_iff.1 hk
        exact Option.isSome_iff_ne_none.1 ((hks k hkmem).resolve_left hkq)
  have herase := List.length_erase ⟨q⟩ ks
  simp only [List.length_map, view_poolSize] at hlt hpool
  split_ifs at herase <;> omega

/-- With `pool_size_ ≤ bucket_size_`, `page_table_` never splits a bucket: over every run of
the code's pool it keeps the constructor's directory of one slot and its one bucket, since it
never holds more pages than there are frames. -/
theorem Run.pageTable_one_bucket [Zero Data] (h : Run fuel cs outs s)
    (hsmall : s.poolSize ≤ s.pageTable.bucketSize) :
    s.pageTable.dir = [0] ∧ s.pageTable.globalDepth = 0 ∧ s.pageTable.numBuckets = 1 := by
  suffices Bustub.BufferPoolManagerInstance.Run cs outs s.view ∧ s.pageTable.Inv ∧
      s.pageTable.dir = [0] ∧ s.pageTable.globalDepth = 0 ∧ s.pageTable.numBuckets = 1 from
    this.2.2
  induction h with
  | init h =>
    rw [init_pageTable h]
    exact ⟨.init (init_view_ok h), ExtendibleHashTable.init_inv _, rfl, rfl, rfl⟩
  | @snoc cs outs s s' c out _ hc he ih =>
    have hE := exec_effect he
    have hsmall' : s.poolSize ≤ s.pageTable.bucketSize := by
      rw [← hE.poolSize_eq, ← hE.table.bucketSize]; exact hsmall
    obtain ⟨hm, ht, hdir, hD, hN⟩ := ih hsmall'
    obtain ⟨t₁, h₁, h₂⟩ := hE.table
    obtain ⟨ht₁, hdir₁, hD₁, hN₁, -⟩ := h₁.shape ht
    -- the page inserted and those of the table fit in one bucket, so nothing splits
    obtain ⟨hdir', hD', hN'⟩ : s'.pageTable.dir = [0] ∧ s'.pageTable.globalDepth = 0 ∧
        s'.pageTable.numBuckets = 1 := by
      rcases h₂ with h₂ | ⟨p, f, hp, hins⟩
      · rw [h₂]; exact ⟨hdir₁.trans hdir, hD₁.trans hD, hN₁.trans hN⟩
      · obtain ⟨e₁, e₂, e₃⟩ := ht₁.insert_no_split hins fun ks hnd hks =>
          (hp.length_le ht hm.reachable.frameInv hc hnd hks).trans (h₁.bucketSize ▸ hsmall')
        exact ⟨e₁.trans (hdir₁.trans hdir), e₂.trans (hD₁.trans hD), e₃.trans (hN₁.trans hN)⟩
    obtain ⟨ht', -⟩ := hE.table.inv ht (by omega)
    exact ⟨hm.snoc hc (exec_view_ok ht (by omega) he), ht', hdir', hD', hN'⟩

/-- A pool of one frame with buckets of one pair: `NewPgImp`, an `UnpinPgImp` of the new page,
and a second `NewPgImp`, which evicts it. -/
theorem pageTable_one_bucket_after_eviction :
    ∃ s : BufferPoolManagerInstance Nat,
      Run 65 ([] ++ [.newPg []] ++ [.unpinPg 0 false] ++ [.newPg [0]])
        ([] ++ [.newPg (some (0, 0))] ++ [.flag true] ++ [.newPg (some (1, 0))]) s ∧
      s.poolSize ≤ s.pageTable.bucketSize ∧
      (s.pageTable.dir = [0] ∧ s.pageTable.globalDepth = 0 ∧ s.pageTable.numBuckets = 1) := by
  have h₀ : Run 65 [] [] _ := .init (rfl : init 1 2 1 (⟨fun _ => 0, []⟩ : DiskManager Nat) = _)
  have h₁ := Run.snoc (c := .newPg []) h₀ ⟨List.nodup_nil, fun f => by simp⟩ rfl
  have h₂ := Run.snoc (c := .unpinPg 0 false) h₁ trivial rfl
  have h₃ := Run.snoc (c := .newPg [0]) h₂ ⟨List.nodup_singleton 0, fun f => by
    rcases f with _ | f <;> simp [Function.update]⟩ rfl
  exact ⟨_, h₃, le_rfl, h₃.pageTable_one_bucket le_rfl⟩

end Conc.BufferPoolManagerInstance

end Bustub
