import Bustub.BufferPool.Invariant

/-! # What each call does to the frames

Summaries of the operations over the whole pool, under `Inv`, for the results about the
callers' histories, the dirty flags and the data:

* `Inv.bringIn`: `NewPgImp` and a miss of `FetchPgImp` take a frame from the free list or
  from `Evict`, write the victim back when it is dirty, and install the page with a fresh
  replacer record, so that nothing of the frame's earlier record is kept;
* `flushAllPgsImp_eq`: `FlushAllPgsImp` writes the frames with a dirty page in frame order
  and cleans them;
* `Inv.exec_pinned`: across every call a pinned page stays in its frame, and `DeletePgImp`
  of it returns `false`;
* `fetch_unpin_fetch`: a page fetched, released clean and fetched again comes back in the same
  frame as a hit, with no disk access in between, and the pool as the first fetch left it but
  for the replacer.
-/

namespace Bustub

namespace BufferPoolManagerInstance

open LRUKReplacer

variable {Data : Type} {s s' : BufferPoolManagerInstance Data}

/-- The disk once frame `f` is taken for another page: a frame off the free list is an
evicted one, written back when dirty. -/
def writeBack (s : BufferPoolManagerInstance Data) (f : Nat) : DiskManager Data :=
  if f ∉ s.freeList ∧ (s.pages f).isDirty then
    s.diskManager.writePage (s.pages f).pageId (s.pages f).data
  else s.diskManager

/-- Taking a frame changes the disk at the page it evicts, and only there. -/
theorem writeBack_readPage (s : BufferPoolManagerInstance Data) (f : Nat) (q : Int) :
    (s.writeBack f).readPage q =
      if f ∉ s.freeList ∧ (s.pages f).isDirty ∧ q = (s.pages f).pageId then (s.pages f).data
      else s.diskManager.readPage q := by
  unfold writeBack DiskManager.readPage DiskManager.writePage
  by_cases hq : q = (s.pages f).pageId
  · subst hq; split_ifs <;> simp_all
  · simp [hq]; split_ifs <;> simp [Function.update_noteq hq]

theorem writeBack_writes (s : BufferPoolManagerInstance Data) (f : Nat) :
    (s.writeBack f).writes = s.diskManager.writes ++
      if f ∉ s.freeList ∧ (s.pages f).isDirty then [((s.pages f).pageId, (s.pages f).data)]
      else [] := by
  unfold writeBack; split_ifs <;> simp [DiskManager.writePage]

/-- The page table has no entry for `INVALID_PAGE_ID`: resident page ids are not negative. -/
theorem Inv.pageTable_invalid (h : s.Inv) : s.pageTable invalidPageId = none := by
  cases hp : s.pageTable invalidPageId with
  | none => rfl
  | some f =>
    obtain ⟨hf, hnf, hpf⟩ := h.table _ f hp
    have := (h.resident f hf hnf).pageId_nonneg
    rw [hpf] at this; exact absurd this (by decide)

/-- `NewPgImp` and a miss of `FetchPgImp` with the frame `f`: the frame leaves the free list
or is evicted (an unpinned frame, the replacer's victim), its old page is written back when
dirty and leaves the page table, and the frame holds the page `p` with one pin, a clean flag
and a replacer record of this one access. -/
theorem Inv.bringIn (h : s.Inv) {order : List Nat} (ho : s.replacer.IsIterationOrder order)
    {f : Nat} {s₁ : BufferPoolManagerInstance Data}
    (ha : s.acquireFrame order = .ok (some f, s₁)) {n p : Int} {d : Data}
    (hi : ({ s₁ with nextPageId := n } : BufferPoolManagerInstance Data).installPage f p d =
      .ok s') :
    f < s.poolSize ∧ (f ∉ s.freeList → (s.pages f).pinCount = 0 ∧ s.replacer.IsVictim f) ∧
      s₁.nextPageId = s.nextPageId ∧ (s₁.pages f).data = (s.pages f).data ∧
      s₁.diskManager = s.writeBack f ∧
      ∃ r', s' = { s with
          freeList := s.freeList.erase f
          replacer := r'
          diskManager := s.writeBack f
          pages := Function.update s.pages f ⟨p, 1, false, d⟩
          pageTable :=
            Function.update (Function.update s.pageTable (s.pages f).pageId none) p (some f)
          nextPageId := n } ∧
        r'.Inv ∧
        r'.frameMap = Function.update s.replacer.frameMap f
          (some ⟨pushTimestamp s.replacer.k s.replacer.currentTimestamp [], false⟩) ∧
        r'.currentTimestamp = s.replacer.currentTimestamp + 1 ∧
        r'.replacerSize = s.replacer.replacerSize ∧ r'.k = s.replacer.k := by
  obtain ⟨hd, -⟩ := h.acquireFrame ho ha
  obtain ⟨r', ha', rfl⟩ := installPage_eq_ok hi
  obtain ⟨-, hmap, hcur, hrs, hk⟩ := accessFrame_eq_ok ha'
  have hrec : s₁.replacer.frameMap f = none := hd.no_record
  rw [hrec] at hmap
  rcases acquireFrame_eq_ok ha with ⟨g, rest, hfl, hfg, rfl⟩ | ⟨-, -, hnone, -⟩ |
    ⟨w, r₁, hfl, he, hfw, rfl⟩
  · -- from the free list: nothing to write, and the invalid page id has no entry
    cases hfg
    have hmem : f ∈ s.freeList := hfl ▸ List.mem_cons_self _ _
    have hwb : s.writeBack f = s.diskManager := by simp [writeBack, hmem]
    have hpt : Function.update s.pageTable (s.pages f).pageId none = s.pageTable := by
      rw [(h.free f hmem).1]; exact Function.update_eq_self_iff.2 h.pageTable_invalid.symm
    refine ⟨h.free_lt f hmem, fun hn => absurd hmem hn, rfl, rfl, hwb.symm, r', ?_,
      accessFrame_inv h.replacer_inv ha', hmap, hcur, hrs, hk⟩
    rw [hwb, hpt, hfl, List.erase_cons_head]
  · cases hnone
  · -- evicted: the victim's record is gone and its page written back when dirty
    cases hfw
    obtain ⟨hlt, hnf, h0, hvic, hinv', hmap₁, hcur₁, hrs₁, hk₁⟩ := h.evict_victim ho he
    have hwb : s.writeBack f = if (s.pages f).isDirty then
        s.diskManager.writePage (s.pages f).pageId (s.pages f).data else s.diskManager := by
      simp [writeBack, hnf]
    refine ⟨hlt, fun _ => ⟨h0, hvic⟩, rfl, by simp, hwb.symm, r', ?_,
      accessFrame_inv hinv' ha', ?_, hcur.trans (congrArg (· + 1) hcur₁), hrs.trans hrs₁,
      hk.trans hk₁⟩
    · rw [hwb, hfl, List.erase_nil]
      simp only [Function.update_idem]
    · rw [hmap, hmap₁, Function.update_idem, hk₁, hcur₁]; rfl

/-- The pages that leave the page table when `f` takes the page `p`, which was not
resident: the old page of `f` if `f` was not free. -/
theorem Inv.bringIn_pageTable (h : s.Inv) {f : Nat} (hf : f < s.poolSize) {p : Int}
    (hp : s.pageTable p = none) (q : Int) :
    (s.pageTable q ≠ none ∧
        Function.update (Function.update s.pageTable (s.pages f).pageId none) p (some f) q =
          none) ↔
      f ∉ s.freeList ∧ q = (s.pages f).pageId := by
  constructor
  · rintro ⟨hq, hq'⟩
    have hqp : q ≠ p := fun he => hq (he ▸ hp)
    rw [Function.update_noteq hqp] at hq'
    by_cases hqf : q = (s.pages f).pageId
    · refine ⟨fun hm => ?_, hqf⟩
      rw [(h.free f hm).1] at hqf; subst hqf; exact hq h.pageTable_invalid
    · rw [Function.update_noteq hqf] at hq'; exact absurd hq' hq
  · rintro ⟨hnf, rfl⟩
    have ht := (h.resident f hf hnf).table_eq
    have hne : (s.pages f).pageId ≠ p := fun he => by rw [he, hp] at ht; cases ht
    exact ⟨by simp [ht], by rw [Function.update_noteq hne, Function.update_same]⟩

/-! ## `FlushAllPgsImp` -/

/-- The writes of `FlushAllPgsImp`'s loop over the frames `l`, in order: one for each frame
holding a dirty page. -/
def flushWrites (s : BufferPoolManagerInstance Data) (l : List Nat) : List (Int × Data) :=
  (l.filter fun i => (s.pages i).pageId ≠ invalidPageId ∧ (s.pages i).isDirty).map
    fun i => ((s.pages i).pageId, (s.pages i).data)

theorem flushWrites_congr {l : List Nat} (hl : ∀ i ∈ l, s'.pages i = s.pages i) :
    flushWrites s' l = flushWrites s l := by
  unfold flushWrites
  rw [List.filter_congr fun i hi => by rw [hl i hi]]
  exact List.map_congr_left fun i hi => by rw [hl i (List.mem_of_mem_filter hi)]

theorem foldl_writePage_writes (ws : List (Int × Data)) (d : DiskManager Data) :
    (ws.foldl (fun d w => d.writePage w.1 w.2) d).writes = d.writes ++ ws := by
  induction ws generalizing d with
  | nil => simp
  | cons w ws ih => rw [List.foldl_cons, ih]; simp [DiskManager.writePage]

/-- The loop of `FlushAllPgsImp` over distinct frames `l`: the writes of `flushWrites`, and
the frames written are clean. -/
theorem foldl_flushFrame {l : List Nat} (hl : l.Nodup) (s : BufferPoolManagerInstance Data) :
    l.foldl flushFrame s = { s with
      diskManager := (flushWrites s l).foldl (fun d w => d.writePage w.1 w.2) s.diskManager
      pages := fun i =>
        if i ∈ l ∧ (s.pages i).pageId ≠ invalidPageId ∧ (s.pages i).isDirty then
          { s.pages i with isDirty := false } else s.pages i } := by
  induction l generalizing s with
  | nil => simp [flushWrites]
  | cons i l ih =>
    obtain ⟨hi, hl'⟩ := List.nodup_cons.1 hl
    have hsame : ∀ j ∈ l, (s.flushFrame i).pages j = s.pages j := fun j hj => by
      have hji : j ≠ i := fun hji => hi (hji ▸ hj)
      unfold flushFrame; dsimp only; split_ifs <;> simp [hji]
    rw [List.foldl_cons, ih hl', flushWrites_congr hsame]
    unfold flushFrame; dsimp only
    by_cases hc : (s.pages i).pageId ≠ invalidPageId ∧ (s.pages i).isDirty
    · rw [if_pos hc]
      congr 1
      · funext j
        by_cases hj : j = i
        · subst hj; simp [hi, hc]
        · simp [hj]
      · simp [flushWrites, List.filter_cons, hc]
    · rw [if_neg hc]
      congr 1
      · funext j
        by_cases hj : j = i
        · subst hj; simp [hc]
        · simp [hj]
      · simp only [flushWrites, List.filter_cons, decide_eq_true_eq, hc, if_false]

theorem flushAllPgsImp_eq (s : BufferPoolManagerInstance Data) :
    s.flushAllPgsImp = { s with
      diskManager := (flushWrites s (List.range s.poolSize)).foldl (fun d w => d.writePage w.1 w.2)
        s.diskManager
      pages := fun i =>
        if i < s.poolSize ∧ (s.pages i).pageId ≠ invalidPageId ∧ (s.pages i).isDirty then
          { s.pages i with isDirty := false } else s.pages i } := by
  rw [flushAllPgsImp, foldl_flushFrame (List.nodup_range _)]
  simp only [List.mem_range]

/-- After `FlushAllPgsImp` no frame holds a dirty page. -/
theorem flushWrites_flushAllPgsImp (s : BufferPoolManagerInstance Data) :
    flushWrites s.flushAllPgsImp (List.range s.flushAllPgsImp.poolSize) = [] := by
  rw [flushAllPgsImp_eq]
  simp only [flushWrites, List.map_eq_nil_iff, List.filter_eq_nil_iff, List.mem_range]
  intro i hi
  split_ifs with hc <;> simp_all

/-- A second `FlushAllPgsImp` writes nothing. -/
theorem flushAllPgsImp_flushAllPgsImp_writes (s : BufferPoolManagerInstance Data) :
    s.flushAllPgsImp.flushAllPgsImp.diskManager.writes = s.flushAllPgsImp.diskManager.writes := by
  rw [flushAllPgsImp_eq s.flushAllPgsImp]
  simp only [foldl_writePage_writes, flushWrites_flushAllPgsImp, List.append_nil]

/-- Under `Inv` the pages that `FlushAllPgsImp` writes are the resident pages whose frame is
dirty. -/
theorem Inv.mem_flushWrites (h : s.Inv) (q : Int) :
    q ∈ (flushWrites s (List.range s.poolSize)).map (·.1) ↔
      ∃ f, s.pageTable q = some f ∧ (s.pages f).isDirty := by
  simp only [flushWrites, List.map_map, List.mem_map, List.mem_filter, List.mem_range,
    Function.comp, decide_eq_true_eq]
  constructor
  · rintro ⟨f, ⟨hf, hinv, hd⟩, rfl⟩
    have hnf : f ∉ s.freeList := fun hm => hinv (h.free f hm).1
    exact ⟨f, (h.resident f hf hnf).table_eq, hd⟩
  · rintro ⟨f, hq, hd⟩
    obtain ⟨hf, hnf, rfl⟩ := h.table q f hq
    have h0 := (h.resident f hf hnf).pageId_nonneg
    exact ⟨f, ⟨hf, fun he => by rw [he] at h0; exact absurd h0 (by decide), hd⟩, rfl⟩

/-! ## Pinned pages stay -/

/-- `FlushPgImp`'s two outcomes: nothing done, or the page written from its frame, which is
now clean. -/
theorem flushPgImp_eq (s : BufferPoolManagerInstance Data) (p : Int) :
    s.flushPgImp p = (false, s) ∨
      ∃ f, p ≠ invalidPageId ∧ s.pageTable p = some f ∧
        s.flushPgImp p = (true, { s with
          diskManager := s.diskManager.writePage p (s.pages f).data
          pages := Function.update s.pages f { s.pages f with isDirty := false } }) := by
  unfold flushPgImp
  split_ifs with hp
  · exact .inl rfl
  · split
    · exact .inl rfl
    · rename_i f hf; exact .inr ⟨f, hp, hf, rfl⟩

/-- A frame other than the one mapped to a page does not hold it. -/
theorem Inv.pageId_ne (h : s.Inv) {p : Int} {f g : Nat} (hf : s.pageTable p = some f)
    (hg : g < s.poolSize) (hgf : g ≠ f) : (s.pages g).pageId ≠ p := by
  intro hgp
  by_cases hm : g ∈ s.freeList
  · rw [(h.free g hm).1] at hgp; subst hgp; rw [h.pageTable_invalid] at hf; cases hf
  · exact hgf (Option.some.inj ((h.resident g hg hm).table_eq.symm.trans (hgp ▸ hf)))

/-- The frame that `NewPgImp` or a miss of `FetchPgImp` takes is not a pinned one. -/
theorem Inv.bringIn_ne (h : s.Inv) {p : Int} {f g : Nat} (hf : s.pageTable p = some f)
    (h0 : 0 < (s.pages f).pinCount) (hg : g ∈ s.freeList ∨ (s.pages g).pinCount = 0) :
    g ≠ f := by
  rintro rfl
  rcases hg with hg | hg
  · exact (h.table p g hf).2.1 hg
  · omega

/-- A page resident in `s` is not `s.nextPageId`. -/
theorem Inv.ne_nextPageId (h : s.Inv) {p : Int} {f : Nat} (hf : s.pageTable p = some f) :
    p ≠ s.nextPageId := by
  obtain ⟨hflt, hfnf, rfl⟩ := h.table p f hf
  exact ((h.resident f hflt hfnf).pageId_lt).ne

theorem Inv.pageTable_nextPageId (h : s.Inv) : s.pageTable s.nextPageId = none := by
  cases hq : s.pageTable s.nextPageId with
  | none => rfl
  | some g => exact absurd rfl (h.ne_nextPageId hq)

/-- Across every call a pinned page keeps its frame and its entry in the page table, and
`DeletePgImp` of it returns `false`. -/
theorem Inv.exec_pinned [Zero Data] (h : s.Inv) {c : BpmCall} (hc : s.Admissible c) {out : BpmReply}
    (he : s.exec c = .ok (out, s')) {p : Int} {f : Nat} (hf : s.pageTable p = some f)
    (h0 : 0 < (s.pages f).pinCount) :
    s'.pageTable p = some f ∧ (s'.pages f).pageId = p ∧
      (c = .deletePg p → out = .flag false) := by
  have hpf := (h.table p f hf).2.2
  -- a page brought into another frame leaves `p` where it is
  have hbring : ∀ {order : List Nat} {g : Nat} {s₁ : BufferPoolManagerInstance Data}
      {n q : Int} {d : Data}, s.replacer.IsIterationOrder order →
      s.acquireFrame order = .ok (some g, s₁) → s.pageTable q = none →
      ({ s₁ with nextPageId := n } : BufferPoolManagerInstance Data).installPage g q d =
        .ok s' →
      s'.pageTable p = some f ∧ (s'.pages f).pageId = p := by
    intro order g s₁ n q d ho ha hq hi
    obtain ⟨hg, hvic, -, -, -, r', rfl, -⟩ := h.bringIn ho ha hi
    have hgf : g ≠ f := h.bringIn_ne hf h0 (by by_cases hm : g ∈ s.freeList <;> simp_all)
    have hqp : p ≠ q := fun hpq => by rw [hpq, hq] at hf; cases hf
    refine ⟨?_, by simp [Function.update_noteq hgf.symm, hpf]⟩
    simp only
    rw [Function.update_noteq hqp, Function.update_noteq (h.pageId_ne hf hg hgf).symm, hf]
  cases c with
  | newPg order =>
    obtain ⟨⟨res, s₂⟩, hn, he⟩ := map_eq_ok he; cases he
    obtain ⟨frame, s₁, ha, ⟨rfl, -, rfl⟩ | ⟨g, rfl, -, hi⟩⟩ := newPgImp_eq_ok hn
    · cases acquireFrame_none ha; exact ⟨hf, hpf, fun hc => by cases hc⟩
    · obtain ⟨-, -, hnext, -⟩ := h.bringIn hc ha hi
      have hq : s.pageTable s₁.nextPageId = none := hnext ▸ h.pageTable_nextPageId
      exact ⟨(hbring hc ha hq hi).1, (hbring hc ha hq hi).2, fun hc => by cases hc⟩
  | fetchPg q order =>
    obtain ⟨⟨frame, s₂⟩, hfe, he⟩ := map_eq_ok he; cases he
    rcases fetchPgImp_eq_ok hfe with ⟨g, r', hg, -, -, rfl⟩ |
      ⟨hq, s₁, ha, ⟨rfl, rfl⟩ | ⟨g, rfl, hi⟩⟩
    · exact ⟨hf, (apply_update_pages Page.pageId (by rfl) f).trans hpf, fun hc => by cases hc⟩
    · cases acquireFrame_none ha; exact ⟨hf, hpf, fun hc => by cases hc⟩
    · exact ⟨(hbring hc.2.2 ha hq hi).1, (hbring hc.2.2 ha hq hi).2, fun hc => by cases hc⟩
  | unpinPg q isDirty =>
    obtain ⟨⟨b, s₂⟩, hu, he⟩ := map_eq_ok he; cases he
    rcases unpinPgImp_eq_ok hu with ⟨-, rfl, -⟩ | ⟨-, g, r', -, -, -, rfl⟩
    · exact ⟨hf, hpf, fun hc => by cases hc⟩
    · exact ⟨hf, (apply_update_pages Page.pageId (by rfl) f).trans hpf, fun hc => by cases hc⟩
  | flushPg q =>
    cases he
    rcases flushPgImp_eq s q with he | ⟨g, -, -, he⟩ <;> rw [he]
    · exact ⟨hf, hpf, fun hc => by cases hc⟩
    · exact ⟨hf, (apply_update_pages Page.pageId (by rfl) f).trans hpf, fun hc => by cases hc⟩
  | flushAllPgs =>
    cases he
    rw [flushAllPgsImp_eq]
    refine ⟨hf, ?_, fun hc => by cases hc⟩
    simp only
    split_ifs <;> exact hpf
  | deletePg q =>
    obtain ⟨⟨b, s₂⟩, hdel, he⟩ := map_eq_ok he; cases he
    rcases deletePgImp_eq_ok hdel with ⟨rfl, hq, rfl⟩ | ⟨rfl, -, -, -, rfl⟩ |
      ⟨rfl, g, r', hg, hg0, -, rfl⟩
    · exact ⟨hf, hpf, fun hc => by cases hc; rw [hf] at hq; cases hq⟩
    · exact ⟨hf, hpf, fun _ => rfl⟩
    · have hgf : g ≠ f := h.bringIn_ne hf h0 (.inr hg0)
      have hqp : p ≠ q := fun hpq => hgf (Option.some.inj (hg.symm.trans (hpq ▸ hf)))
      exact ⟨by simp [Function.update_noteq hqp, hf],
        by simp [Function.update_noteq hgf.symm, hpf],
        fun hc => by cases hc; exact absurd rfl hqp⟩

/-! ## Fetch, release, fetch again -/

/-- The page that `FetchPgImp` returns is mapped to the frame returned, and pinned there. -/
theorem fetchPgImp_pinned {p : Int} {order : List Nat} {f : Nat}
    (h : s.fetchPgImp p order = .ok (some f, s')) :
    s'.pageTable p = some f ∧ 0 < (s'.pages f).pinCount := by
  rcases fetchPgImp_eq_ok h with ⟨g, r', hg, -, hfg, rfl⟩ | ⟨-, s₁, -, ⟨hn, -⟩ | ⟨g, hfg, hi⟩⟩
  · cases hfg; simp [hg]
  · cases hn
  · cases hfg
    obtain ⟨r', -, rfl⟩ := installPage_eq_ok hi
    simp

/-- Fetch, release clean, fetch again: from every reachable pool, when `FetchPgImp(page_id)`
returns a frame, `UnpinPgImp(page_id, false)` returns `true` and a second `FetchPgImp` of the
page, over any order, returns the same frame. Every page, the page table, the free list, the
counter and the disk are then as the first fetch left them: nothing is written or read in
between, and only the replacer's records move. -/
theorem fetch_unpin_fetch [Zero Data] (h : s.Reachable) {p : Int} {order : List Nat} {f : Nat}
    {s₁ : BufferPoolManagerInstance Data} (ho : s.Admissible (.fetchPg p order))
    (he : s.exec (.fetchPg p order) = .ok (.fetchPg (some f), s₁)) (order' : List Nat) :
    ∃ s₂ s₃, s₁.exec (.unpinPg p false) = .ok (.flag true, s₂) ∧
      s₂.exec (.fetchPg p order') = .ok (.fetchPg (some f), s₃) ∧
      s₃ = { s₁ with replacer := s₃.replacer } := by
  have hs₁ := Reachable.step h ho he
  obtain ⟨⟨frame, s₁'⟩, hfe, he'⟩ := map_eq_ok he
  simp only [Prod.mk.injEq, BpmReply.fetchPg.injEq] at he'
  obtain ⟨rfl, rfl⟩ := he'
  obtain ⟨hpt, hpin⟩ := fetchPgImp_pinned hfe
  -- the release finds the pin and takes it
  obtain ⟨⟨b, s₂⟩, hu⟩ := hs₁.frameInv.unpinPgImp_ok p false
  rcases unpinPgImp_eq_ok hu with ⟨-, -, h0⟩ | ⟨rfl, g, r', hg, -, -, hs₂⟩
  · exact absurd (h0 f hpt) (by omega)
  rw [hpt, Option.some.injEq] at hg
  subst hg
  have hue : s₁'.exec (.unpinPg p false) = .ok (.flag true, s₂) := by
    simp only [exec, hu]; rfl
  -- the second fetch is a hit on the same frame
  have hi₂ := (Reachable.step (c := .unpinPg p false) hs₁ trivial hue).frameInv
  have hpt₂ : s₂.pageTable p = some f := by rw [hs₂]; exact hpt
  obtain ⟨r'', ha⟩ := accessFrame_ok (hi₂.replacerSize_eq ▸ (hi₂.table p f hpt₂).1)
  refine ⟨s₂, _, hue, by simp only [exec, fetchPgImp, hpt₂, ha, bind, Except.bind]; rfl, ?_⟩
  -- the pin taken and the pin given back cancel, and the flag is or-ed with `false`
  have hpage : ({ s₁'.pages f with
      pinCount := (s₁'.pages f).pinCount - 1 + 1
      isDirty := (s₁'.pages f).isDirty || false } : Page Data) = s₁'.pages f := by
    rw [Nat.sub_add_cancel hpin, Bool.or_false]
  subst hs₂
  simp only [Function.update_idem, Function.update_same, hpage, Function.update_eq_self]

/-- A pool of one frame after `NewPgImp` and a release of the new page: `FetchPgImp` of the
page finds it. -/
theorem fetch_unpin_fetch_one_page :
    ∃ s s₁ : BufferPoolManagerInstance Nat, s.Reachable ∧ s.Admissible (.fetchPg 0 [0]) ∧
      s.exec (.fetchPg 0 [0]) = .ok (.fetchPg (some 0), s₁) ∧
      ∃ s₂ s₃, s₁.exec (.unpinPg 0 false) = .ok (.flag true, s₂) ∧
        s₂.exec (.fetchPg 0 [0]) = .ok (.fetchPg (some 0), s₃) ∧
        s₃ = { s₁ with replacer := s₃.replacer } := by
  have h₀ := Reachable.init (rfl : init 1 2 (⟨fun _ => 0, []⟩ : DiskManager Nat) = _)
  have h₁ := @Reachable.step _ _ _ _ (.newPg []) _ h₀ ⟨List.nodup_nil, fun f => by simp⟩ rfl
  have h₂ := @Reachable.step _ _ _ _ (.unpinPg 0 false) _ h₁ trivial rfl
  obtain ⟨s, hs, hn, ho, s₁, he⟩ : ∃ s : BufferPoolManagerInstance Nat, s.Reachable ∧
      s.nextPageId = 1 ∧ s.replacer.IsIterationOrder [0] ∧ ∃ s₁, s.exec (.fetchPg 0 [0]) =
        .ok (.fetchPg (some 0), s₁) := by
    refine ⟨_, h₂, rfl, ⟨List.nodup_singleton 0, fun f => ?_⟩, _, rfl⟩
    rcases f with _ | f <;> simp [Function.update]
  have hc : s.Admissible (.fetchPg 0 [0]) := ⟨le_rfl, by rw [hn]; decide, ho⟩
  exact ⟨s, s₁, hs, hc, he, fetch_unpin_fetch hs hc he [0]⟩

end BufferPoolManagerInstance

end Bustub
