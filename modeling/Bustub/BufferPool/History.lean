import Bustub.BufferPool.PageIds
import Bustub.Replacer.Refinement

/-! # What callers observe of a page

What callers can see happen to a page since it last became resident: how many
`NewPgImp`/`FetchPgImp` calls returned it and when, how many `UnpinPgImp` calls released it,
and whether one of those declared it modified since its frame was last synchronised with disk.
`History` records exactly that, updated call by call from the calls and their replies
(`History.step`), and `Observed` pairs every run of the pool with the history of its run.

`HistInv` relates the two, frame by frame: the pins of a resident frame are the acquisitions
of its page less the releases, the replacer's record holds the last `k` access times of the
page, and the dirty flag is the declaration. Every run that allocates fewer than `2 ^ 31` pages
keeps it (`Observed.histInv`), and three results follow for such runs:

* `pins_count_holders`: pin counts count holders, and a pinned page stays in its frame;
* `evicts_lru_k_page`: an eviction by `NewPgImp` or `FetchPgImp` takes the LRU-K page among
  the unpinned resident pages, over accesses since each became resident;
* `dirty_iff_declared`: the dirty flag is the declaration, and write-backs happen exactly
  for declared pages.

Once the counter wraps, `NewPgImp` hands out ids that are resident already or invalid, and
each of the three fails: a pinned page loses its entry to a new frame
(`pinned_page_moves_after_wrap`), an eviction removes a page that no LRU-K choice names
(`evicts_pinned_page_after_wrap`), and `FlushAllPgsImp` skips a page declared modified
(`flush_all_skips_invalid_page`).
-/

namespace Bustub

/-- Per page, what callers have observed since it last became resident: the clock counts
successful `NewPgImp`/`FetchPgImp` calls. -/
structure History where
  clock : Nat
  acquired : Int → Nat
  released : Int → Nat
  accesses : Int → List Nat
  declared : Int → Bool

namespace History

/-- Nothing observed yet. -/
def init : History := ⟨0, fun _ => 0, fun _ => 0, fun _ => [], fun _ => false⟩

/-- `p` becomes resident: created by `NewPgImp` or read by `FetchPgImp`, with one pin, one
access, and in step with disk. -/
def arrive (g : History) (p : Int) : History :=
  { g with
    clock := g.clock + 1
    acquired := Function.update g.acquired p 1
    released := Function.update g.released p 0
    accesses := Function.update g.accesses p [g.clock]
    declared := Function.update g.declared p false }

/-- `FetchPgImp` returns `p`, which was resident. -/
def hit (g : History) (p : Int) : History :=
  { g with
    clock := g.clock + 1
    acquired := Function.update g.acquired p (g.acquired p + 1)
    accesses := Function.update g.accesses p (g.accesses p ++ [g.clock]) }

/-- `UnpinPgImp(p, is_dirty)` succeeds. -/
def release (g : History) (p : Int) (isDirty : Bool) : History :=
  { g with
    released := Function.update g.released p (g.released p + 1)
    declared := Function.update g.declared p (g.declared p || isDirty) }

/-- The pages `written` to disk are in step with it. -/
def synced (g : History) (written : List Int) : History :=
  { g with declared := fun q => if q ∈ written then false else g.declared q }

/-- The history after the call `c` in state `s` returned `out` and wrote the pages
`written`. -/
def step {Data : Type} (g : History) (s : BufferPoolManagerInstance Data) (c : BpmCall)
    (out : BpmReply) (written : List Int) : History :=
  match c, out with
  | .newPg _, .newPg (some (p, _)) => (g.synced written).arrive p
  | .fetchPg p _, .fetchPg (some _) =>
    if s.pageTable p = none then (g.synced written).arrive p else (g.synced written).hit p
  | .unpinPg p isDirty, .flag true => (g.synced written).release p isDirty
  | _, _ => g.synced written

/-- The last `k` accesses of page `q`, oldest first: what an LRU-K record keeps of them. -/
def lastAccesses (g : History) (k : Nat) (q : Int) : List Nat :=
  (g.accesses q).drop ((g.accesses q).length - k)

/-- `g'` says of page `q` what `g` says. -/
def SameAt (g g' : History) (q : Int) : Prop :=
  g'.acquired q = g.acquired q ∧ g'.released q = g.released q ∧ g'.accesses q = g.accesses q ∧
    g'.declared q = g.declared q

variable {g : History} {p q : Int}

theorem sameAt_arrive (h : q ≠ p) : g.SameAt (g.arrive p) q := by
  simp [SameAt, arrive, h]

theorem sameAt_hit (h : q ≠ p) : g.SameAt (g.hit p) q := by
  simp [SameAt, hit, h]

theorem sameAt_release {isDirty : Bool} (h : q ≠ p) : g.SameAt (g.release p isDirty) q := by
  simp [SameAt, release, h]

theorem sameAt_synced {written : List Int} (h : q ∉ written) : g.SameAt (g.synced written) q := by
  simp [SameAt, synced, h]

theorem SameAt.trans {g' g'' : History} (h : g.SameAt g' q) (h' : g'.SameAt g'' q) :
    g.SameAt g'' q :=
  ⟨h'.1.trans h.1, h'.2.1.trans h.2.1, h'.2.2.1.trans h.2.2.1, h'.2.2.2.trans h.2.2.2⟩

@[simp] theorem synced_nil : g.synced [] = g := rfl

end History

/-- LRU-K's choice among the candidate pages `cand`, with the access times `acc` of each:
one with fewer than `k` accesses whose first access is earliest, or, when every candidate
has `k` accesses, one whose `k`-th most recent access is earliest. -/
def IsLRUKChoice (k : Nat) (cand : Int → Prop) (acc : Int → List Nat) (v : Int) : Prop :=
  cand v ∧
    (((acc v).length < k ∧ ∀ q, cand q → (acc q).length < k → (acc v).headD 0 ≤ (acc q).headD 0) ∨
      ((∀ q, cand q → k ≤ (acc q).length) ∧
        ∀ q, cand q → FullLRUK.kthRecent k (acc v) ≤ FullLRUK.kthRecent k (acc q)))

/-- When distinct candidates have distinct `k`-th most recent accesses, LRU-K's choice is
unique. -/
theorem IsLRUKChoice.unique {k : Nat} {cand : Int → Prop} {acc : Int → List Nat} {v w : Int}
    (hdist : ∀ q q', cand q → cand q' → q ≠ q' →
      FullLRUK.kthRecent k (acc q) ≠ FullLRUK.kthRecent k (acc q'))
    (hv : IsLRUKChoice k cand acc v) (hw : IsLRUKChoice k cand acc w) : v = w := by
  by_contra hne
  have hd := hdist v w hv.1 hw.1 hne
  rcases hv with ⟨hcv, ⟨hkv, hv⟩ | ⟨hallv, hv⟩⟩ <;>
    rcases hw with ⟨hcw, ⟨hkw, hw⟩ | ⟨hallw, hw⟩⟩
  · -- both with fewer than `k` accesses: equal first accesses
    rw [LRUKReplacer.kthRecent_of_lt hkv, LRUKReplacer.kthRecent_of_lt hkw] at hd
    exact hd (le_antisymm (hv w hcw hkw) (hw v hcv hkv))
  · exact absurd (hallw v hcv) (by omega)
  · exact absurd (hallv w hcw) (by omega)
  · exact hd (le_antisymm (hv w hcw) (hw v hcv))

namespace BufferPoolManagerInstance

open LRUKReplacer

variable {Data : Type}

/-- The pages written to disk between `s` and `s'`. -/
def newWrites (s s' : BufferPoolManagerInstance Data) : List Int :=
  (s'.diskManager.writes.drop s.diskManager.writes.length).map (·.1)

theorem newWrites_eq {s s' : BufferPoolManagerInstance Data} {w : List (Int × Data)}
    (h : s'.diskManager.writes = s.diskManager.writes ++ w) : s.newWrites s' = w.map (·.1) := by
  simp [newWrites, h]

/-- The runs of the pool from its constructor, each with the history of the run. -/
inductive Observed [Zero Data] :
    List BpmCall → List BpmReply → BufferPoolManagerInstance Data → History → Prop
  | init {poolSize replacerK : Nat} {diskManager : DiskManager Data}
      {s : BufferPoolManagerInstance Data} :
      init poolSize replacerK diskManager = .ok s → Observed [] [] s History.init
  | step {cs : List BpmCall} {outs : List BpmReply} {s s' : BufferPoolManagerInstance Data}
      {g : History} {c : BpmCall} {out : BpmReply} :
      Observed cs outs s g → s.Admissible c → s.exec c = .ok (out, s') →
      Observed (cs ++ [c]) (outs ++ [out]) s' (g.step s c out (s.newWrites s'))

section Observed

variable [Zero Data] {cs : List BpmCall} {outs : List BpmReply} {s : BufferPoolManagerInstance Data}
  {g : History}

theorem Observed.run (h : Observed cs outs s g) : Run cs outs s := by
  induction h with
  | init h => exact .init h
  | step _ hc he ih => exact ih.snoc hc he

/-- Rounds on a free frame extend every observed run, one allocation each. -/
theorem Observed.rounds {b : Nat} (h : Observed cs outs s g) (hr : s.RoundReady b) (n : Nat)
    (hnew : ∀ i < n, s.pageTable (toPageId (s.nextPageId + i)) = none) :
    ∃ cs' outs' g', Observed cs' outs' (s.afterRounds n) g' ∧
      allocations outs' = allocations outs + n := by
  refine hr.rounds (P := fun s k => ∃ cs outs g, Observed cs outs s g ∧ allocations outs = k) ?_
    (by rw [h.run.newPageIds_eq.1, toPageId_toPageId]) ⟨cs, outs, g, h, rfl⟩ n hnew
  rintro s _ ⟨cs, outs, g, h, rfl⟩ hr hnew
  obtain ⟨order, ho⟩ := h.run.reachable.frameInv.replacer_inv.exists_iterationOrder
  obtain ⟨s₁, s₂, he₁, he₂, he₃⟩ := hr.exec_round hnew order
  exact ⟨_, _, _, ((h.step (c := .newPg order) ho he₁).step (c := .unpinPg _ false) trivial
    he₂).step (c := .deletePg _) trivial he₃, by
    simp [allocations, List.filterMap_append, BpmReply.newPageId]⟩

end Observed

/-! ## The pool against its history -/

/-- Frame `f` against the history `g`: its pins are the acquisitions of its page less the
releases, its replacer record holds the page's last `k` accesses, and its dirty flag is the
page's declaration. -/
structure FrameHist (s : BufferPoolManagerInstance Data) (g : History) (f : Nat) : Prop where
  pins : (s.pages f).pinCount + g.released (s.pages f).pageId = g.acquired (s.pages f).pageId
  record : (s.replacer.frameMap f).map (·.accessTimestamps) =
    some (g.lastAccesses s.replacer.k (s.pages f).pageId)
  dirty : (s.pages f).isDirty = g.declared (s.pages f).pageId

/-- The history of a pool: its clock is the replacer's, and every resident frame agrees
with it. -/
structure HistInv (s : BufferPoolManagerInstance Data) (g : History) : Prop where
  clock_eq : g.clock = s.replacer.currentTimestamp
  frames : ∀ f < s.poolSize, f ∉ s.freeList → s.FrameHist g f

section HistInv

variable {s s' : BufferPoolManagerInstance Data} {g g' : History} {f : Nat} {p : Int}

/-- A frame whose page, record and history are unchanged keeps agreeing with the history. -/
theorem FrameHist.congr (h : s.FrameHist g f) (hpage : s'.pages f = s.pages f)
    (hk : s'.replacer.k = s.replacer.k)
    (hmap : (s'.replacer.frameMap f).map (·.accessTimestamps) =
      (s.replacer.frameMap f).map (·.accessTimestamps))
    (hg : g.SameAt g' (s.pages f).pageId) : s'.FrameHist g' f where
  pins := by rw [hpage, hg.1, hg.2.1]; exact h.pins
  record := by rw [hmap, hpage, hk, h.record, History.lastAccesses, History.lastAccesses, hg.2.2.1]
  dirty := by rw [hpage, hg.2.2.2]; exact h.dirty

theorem newWrites_of_disk (h : s'.diskManager = s.diskManager) : s.newWrites s' = [] := by
  simp [newWrites, h]

/-- An access on top of the last `k` accesses is the last `k` of one more. -/
theorem pushTimestamp_lastAccesses (k : Nat) (g : History) :
    pushTimestamp k g.clock (g.lastAccesses k p) = (g.hit p).lastAccesses k p := by
  simp only [History.lastAccesses, History.hit, Function.update_same]
  exact pushTimestamp_truncate k g.clock (g.accesses p)

/-- A page brought into a frame by `NewPgImp` or a miss of `FetchPgImp` starts its history
there. -/
theorem HistInv.bringIn (hi : s.Inv) (hh : s.HistInv g) {order : List Nat}
    (ho : s.replacer.IsIterationOrder order) {s₁ : BufferPoolManagerInstance Data}
    (ha : s.acquireFrame order = .ok (some f, s₁)) (hp : s.pageTable p = none)
    {n : Int} {d : Data}
    (hins : ({ s₁ with nextPageId := n } : BufferPoolManagerInstance Data).installPage f p d =
      .ok s') :
    s'.HistInv ((g.synced (s.newWrites s')).arrive p) := by
  obtain ⟨hf, -, -, -, -, r', rfl, -, hmap, hcur, -, hk⟩ := hi.bringIn ho ha hins
  -- the only page written is the one evicted from `f`
  have hw : ∀ q ∈ s.newWrites { s with
      freeList := s.freeList.erase f, replacer := r', diskManager := s.writeBack f,
      pages := Function.update s.pages f ⟨p, 1, false, d⟩,
      pageTable := Function.update (Function.update s.pageTable (s.pages f).pageId none) p (some f),
      nextPageId := n }, q = (s.pages f).pageId := by
    rw [newWrites_eq (writeBack_writes s f)]
    split_ifs <;> simp
  refine ⟨by simp [History.arrive, History.synced, hcur, hh.clock_eq], fun f' hf' hnf' => ?_⟩
  by_cases hff : f' = f
  · -- the frame of the new page
    subst hff
    refine ⟨by simp [History.arrive], ?_, by simp [History.arrive]⟩
    simp only [hmap, Function.update_same, Option.map_some', hk, History.lastAccesses,
      History.arrive, History.synced, hh.clock_eq]
    simpa using pushTimestamp_truncate s.replacer.k s.replacer.currentTimestamp []
  · -- another resident frame: its page is neither `p` nor the evicted one
    have hnf : f' ∉ s.freeList := fun hm => hnf' ((List.mem_erase_of_ne hff).2 hm)
    have hres := hi.resident f' hf' hnf
    have hqp : (s.pages f').pageId ≠ p := fun he => by rw [← he, hres.table_eq] at hp; cases hp
    have hqw : (s.pages f').pageId ∉ s.newWrites _ := fun hm =>
      hi.pageId_ne hres.table_eq hf (Ne.symm hff) (hw _ hm).symm
    exact (hh.frames f' hf' hnf).congr (Function.update_noteq hff _ _) hk
      (by rw [hmap, Function.update_noteq hff])
      ((History.sameAt_synced hqw).trans (History.sameAt_arrive hqp))

/-- `SetEvictable` changes no access history. -/
theorem setEvictable_timestamps {r r' : LRUKReplacer} {b : Bool} (h : r.setEvictable f b = .ok r') :
    r'.k = r.k ∧ r'.currentTimestamp = r.currentTimestamp ∧
      ∀ f', (r'.frameMap f').map (·.accessTimestamps) =
        (r.frameMap f').map (·.accessTimestamps) := by
  obtain ⟨-, ⟨rfl, -⟩ | ⟨i, hi, -, hmap, -, hcur, -, hk⟩⟩ := setEvictable_eq_ok h
  · exact ⟨rfl, rfl, fun _ => rfl⟩
  · refine ⟨hk, hcur, fun f' => ?_⟩
    by_cases hf : f' = f
    · subst hf; simp [hmap, hi]
    · simp [hmap, hf]

/-- A hit of `FetchPgImp` is one more acquisition and access of the page. -/
theorem HistInv.hit (hi : s.Inv) (hh : s.HistInv g) (hf : s.pageTable p = some f)
    {r' : LRUKReplacer} (ha : accessFrame s.replacer f = .ok r') :
    ({ s with
      pages := Function.update s.pages f { s.pages f with pinCount := (s.pages f).pinCount + 1 }
      replacer := r' } : BufferPoolManagerInstance Data).HistInv (g.hit p) := by
  obtain ⟨-, hmap, hcur, -, hk⟩ := accessFrame_eq_ok ha
  obtain ⟨hflt, hfnf, hpf⟩ := hi.table p f hf
  have hfh := hh.frames f hflt hfnf
  refine ⟨by simp [History.hit, hcur, hh.clock_eq], fun f' hf' hnf' => ?_⟩
  by_cases hff : f' = f
  · subst hff
    obtain ⟨info, hinfo, hts⟩ := Option.map_eq_some'.1 hfh.record
    rw [hpf] at hts
    refine ⟨?_, ?_, by simpa [History.hit, hpf] using hfh.dirty⟩
    · have := hfh.pins; simp only [hpf] at this; simp [History.hit, hpf]; omega
    · simp only [hmap, Function.update_same, hinfo, Option.getD_some, Option.map_some', hk, hpf]
      rw [hts, ← hh.clock_eq, pushTimestamp_lastAccesses]
  · exact (hh.frames f' hf' hnf').congr (Function.update_noteq hff _ _) hk
      (by rw [hmap, Function.update_noteq hff])
      (History.sameAt_hit (hi.pageId_ne hf hf' hff))

/-- A successful `UnpinPgImp` is one more release of the page, and its flag declares the page
modified or not. -/
theorem HistInv.unpin (hi : s.Inv) (hh : s.HistInv g) (hf : s.pageTable p = some f)
    (h0 : 0 < (s.pages f).pinCount) {isDirty : Bool} {r' : LRUKReplacer}
    (hr : (if (s.pages f).pinCount = 1 then s.replacer.setEvictable f true else .ok s.replacer) =
      .ok r') :
    ({ s with
      pages := Function.update s.pages f { s.pages f with
        pinCount := (s.pages f).pinCount - 1, isDirty := (s.pages f).isDirty || isDirty }
      replacer := r' } : BufferPoolManagerInstance Data).HistInv (g.release p isDirty) := by
  have hrep : r'.k = s.replacer.k ∧ r'.currentTimestamp = s.replacer.currentTimestamp ∧
      ∀ f', (r'.frameMap f').map (·.accessTimestamps) =
        (s.replacer.frameMap f').map (·.accessTimestamps) := by
    split_ifs at hr
    · exact setEvictable_timestamps hr
    · cases hr; exact ⟨rfl, rfl, fun _ => rfl⟩
  obtain ⟨hk, hcur, hmap⟩ := hrep
  obtain ⟨hflt, hfnf, hpf⟩ := hi.table p f hf
  have hfh := hh.frames f hflt hfnf
  refine ⟨by simp [History.release, hcur, hh.clock_eq], fun f' hf' hnf' => ?_⟩
  by_cases hff : f' = f
  · subst hff
    refine ⟨?_, ?_, by
      simp only [Function.update_same, History.release]; rw [hfh.dirty, hpf]; simp⟩
    · have := hfh.pins; simp only [hpf] at this; simp [History.release, hpf]; omega
    · simp only [hmap, hk, Function.update_same, hpf]
      rw [hfh.record, hpf]; simp [History.lastAccesses, History.release]
  · exact (hh.frames f' hf' hnf').congr (Function.update_noteq hff _ _) hk (hmap f')
      (History.sameAt_release (hi.pageId_ne hf hf' hff))

/-- `FlushPgImp` of a resident page: the page is in step with disk. -/
theorem HistInv.flushPg (hi : s.Inv) (hh : s.HistInv g) (hf : s.pageTable p = some f) :
    ({ s with
      diskManager := s.diskManager.writePage p (s.pages f).data
      pages := Function.update s.pages f { s.pages f with isDirty := false } } :
        BufferPoolManagerInstance Data).HistInv (g.synced [p]) := by
  obtain ⟨hflt, hfnf, hpf⟩ := hi.table p f hf
  refine ⟨hh.clock_eq, fun f' hf' hnf' => ?_⟩
  have hfh := hh.frames f' hf' hnf'
  by_cases hff : f' = f
  · subst hff
    exact ⟨by simpa [History.synced] using hfh.pins,
      by simpa [History.synced, History.lastAccesses] using hfh.record,
      by simp [History.synced, hpf]⟩
  · exact hfh.congr (Function.update_noteq hff _ _) rfl rfl
      (History.sameAt_synced (by simpa using hi.pageId_ne hf hf' hff))

/-- `FlushAllPgsImp`: every resident page is in step with disk, and clean. -/
theorem HistInv.flushAllPgsImp (hi : s.Inv) (hh : s.HistInv g) :
    s.flushAllPgsImp.HistInv (g.synced (s.newWrites s.flushAllPgsImp)) := by
  have hw : s.newWrites s.flushAllPgsImp = (flushWrites s (List.range s.poolSize)).map (·.1) := by
    apply newWrites_eq
    rw [flushAllPgsImp_eq]
    exact foldl_writePage_writes _ _
  rw [hw, flushAllPgsImp_eq]
  refine ⟨hh.clock_eq, fun f hf hnf => ?_⟩
  have hfh := hh.frames f hf hnf
  have hres := hi.resident f hf hnf
  have hvalid : (s.pages f).pageId ≠ invalidPageId := fun he => by
    have := hres.pageId_nonneg; rw [he] at this; exact absurd this (by decide)
  -- the frame's page keeps its id and pins, and is now clean
  have hpg :
      (if f < s.poolSize ∧ (s.pages f).pageId ≠ invalidPageId ∧ (s.pages f).isDirty then
        { s.pages f with isDirty := false } else s.pages f) =
      { s.pages f with isDirty := false } := by
    split_ifs with hc
    · rfl
    · have : (s.pages f).isDirty = false := by simpa [hf, hvalid] using hc
      rw [← this]
  refine ⟨?_, ?_, ?_⟩ <;> dsimp only <;> rw [hpg]
  · exact hfh.pins
  · exact hfh.record
  simp only [History.synced]
  split_ifs with hm
  · rfl
  · rw [← hfh.dirty]
    by_contra hd
    exact hm ((hi.mem_flushWrites _).2 ⟨f, hres.table_eq, by simpa using hd⟩)

/-- A `DeletePgImp` that frees the frame of `p`: the other frames keep their pages. -/
theorem HistInv.delete [Zero Data] (hi : s.Inv) (hh : s.HistInv g) (hf : s.pageTable p = some f)
    {r' : LRUKReplacer} (hr : s.replacer.remove f = .ok r') (d : DiskManager Data) {W : List Int}
    (hW : ∀ q ∈ W, q = p) :
    ({ s with
      diskManager := d
      pageTable := Function.update s.pageTable p none
      replacer := r'
      pages := Function.update s.pages f Page.empty
      freeList := s.freeList ++ [f] } : BufferPoolManagerInstance Data).HistInv (g.synced W) := by
  have hrep : r'.k = s.replacer.k ∧ r'.currentTimestamp = s.replacer.currentTimestamp ∧
      ∀ f' ≠ f, r'.frameMap f' = s.replacer.frameMap f' := by
    obtain ⟨-, ⟨-, rfl⟩ | ⟨i, -, -, hmap, -, hcur, -, hk⟩⟩ := remove_eq_ok hr
    · exact ⟨rfl, rfl, fun _ _ => rfl⟩
    · exact ⟨hk, hcur, fun f' hf' => by rw [hmap, Function.update_noteq hf']⟩
  obtain ⟨hk, hcur, hmap⟩ := hrep
  refine ⟨by simp [History.synced, hcur, hh.clock_eq], fun f' hf' hnf' => ?_⟩
  have hff : f' ≠ f := fun he => hnf' (by simp [he])
  have hnf : f' ∉ s.freeList := fun hm => hnf' (List.mem_append_left _ hm)
  exact (hh.frames f' hf' hnf).congr (Function.update_noteq hff _ _) hk (by rw [hmap f' hff])
    (History.sameAt_synced fun hm => hi.pageId_ne hf hf' hff (hW _ hm))

/-- A call that leaves the pool as it was leaves the history as it was. -/
theorem HistInv.unchanged (hh : s.HistInv g) : s.HistInv (g.synced (s.newWrites s)) := by
  rwa [newWrites_of_disk rfl, History.synced_nil]

/-- Every call keeps the pool in agreement with its history. -/
theorem HistInv.exec [Zero Data] (hi : s.Inv) (hh : s.HistInv g) {c : BpmCall}
    (hc : s.Admissible c) {out : BpmReply} (he : s.exec c = .ok (out, s')) :
    s'.HistInv (g.step s c out (s.newWrites s')) := by
  cases c with
  | newPg order =>
    obtain ⟨⟨res, s₂⟩, hn, he⟩ := map_eq_ok he; cases he
    obtain ⟨frame, s₁, ha, ⟨rfl, rfl, rfl⟩ | ⟨f, rfl, rfl, hins⟩⟩ := newPgImp_eq_ok hn
    · cases acquireFrame_none ha; exact hh.unchanged
    · obtain ⟨-, -, hnext, -⟩ := hi.bringIn hc ha hins
      exact hh.bringIn hi hc ha (hnext ▸ hi.pageTable_nextPageId) hins
  | fetchPg p order =>
    obtain ⟨-, -, ho⟩ := hc
    obtain ⟨⟨frame, s₂⟩, hfe, he⟩ := map_eq_ok he; cases he
    rcases fetchPgImp_eq_ok hfe with ⟨f, r', hf, ha, rfl, rfl⟩ |
      ⟨hp, s₁, ha, ⟨rfl, rfl⟩ | ⟨f, rfl, hins⟩⟩
    · -- a hit
      simp only [History.step, hf, reduceCtorEq, if_false, newWrites_of_disk, History.synced_nil]
      exact hh.hit hi hf ha
    · cases acquireFrame_none ha; exact hh.unchanged
    · -- a miss
      simp only [History.step, hp, if_true]
      exact hh.bringIn hi ho ha hp hins
  | unpinPg p isDirty =>
    obtain ⟨⟨b, s₂⟩, hu, he⟩ := map_eq_ok he; cases he
    rcases unpinPgImp_eq_ok hu with ⟨rfl, rfl, -⟩ | ⟨rfl, f, r', hf, h0, hr, rfl⟩
    · exact hh.unchanged
    · simp only [newWrites_of_disk]; exact hh.unpin hi hf h0 hr
  | flushPg p =>
    cases he
    rcases flushPgImp_eq s p with he | ⟨f, -, hf, he⟩ <;> rw [he]
    · exact hh.unchanged
    · rw [@newWrites_eq _ _ _ [(p, (s.pages f).data)] (by simp [DiskManager.writePage])]
      exact hh.flushPg hi hf
  | flushAllPgs => cases he; exact hh.flushAllPgsImp hi
  | deletePg p =>
    obtain ⟨⟨b, s₂⟩, hdel, he⟩ := map_eq_ok he; cases he
    rcases deletePgImp_eq_ok hdel with ⟨rfl, -, rfl⟩ | ⟨rfl, -, -, -, rfl⟩ |
      ⟨rfl, f, r', hf, -, hr, rfl⟩
    · exact hh.unchanged
    · exact hh.unchanged
    · refine hh.delete hi hf hr _ fun q hq => ?_
      by_cases hd : (s.pages f).isDirty <;> simp [newWrites, hd, DiskManager.writePage] at hq
      exact hq

theorem init_histInv [Zero Data] {poolSize replacerK : Nat} {d : DiskManager Data}
    (h : init poolSize replacerK d = .ok s) : s.HistInv History.init := by
  unfold init at h
  cases hr : LRUKReplacer.init poolSize replacerK with
  | error e => rw [hr] at h; cases h
  | ok r =>
    rw [hr] at h; cases h
    unfold LRUKReplacer.init at hr; split at hr
    · cases hr
      exact ⟨rfl, fun f hf hnf => absurd (List.mem_range.2 hf) hnf⟩
    · cases hr

/-- Every run that allocates fewer than `2 ^ 31` pages keeps the pool in agreement with its
history. -/
theorem Observed.histInv [Zero Data] {cs : List BpmCall} {outs : List BpmReply}
    (h : Observed cs outs s g) (hn : allocations outs < 2 ^ 31) : s.HistInv g := by
  induction h with
  | init h => exact init_histInv h
  | step hobs hc he ih =>
    have hn' := allocations_le_append.trans_lt hn
    exact (ih hn').exec (hobs.run.inv hn') hc he

theorem Observed.inv [Zero Data] {cs : List BpmCall} {outs : List BpmReply}
    (h : Observed cs outs s g) (hn : allocations outs < 2 ^ 31) : s.Inv ∧ s.HistInv g :=
  ⟨h.run.inv hn, h.histInv hn⟩

end HistInv

/-! ## Eviction by LRU-K over the pages' accesses -/

/-- The pages resident in an unpinned frame: the candidates for eviction. -/
def Unpinned (s : BufferPoolManagerInstance Data) (q : Int) : Prop :=
  ∃ f, s.pageTable q = some f ∧ (s.pages f).pinCount = 0

/-- From `s` to `s'` exactly the page `v` leaves the page table. -/
def Evicted (s s' : BufferPoolManagerInstance Data) (v : Int) : Prop :=
  ∀ q, s.pageTable q ≠ none ∧ s'.pageTable q = none ↔ q = v

section Eviction

variable {s s' : BufferPoolManagerInstance Data} {g : History} {f : Nat} {p : Int}

/-- What the scan reads of a resident frame's record, in terms of its page's accesses. -/
theorem HistInv.record_front (hh : s.HistInv g) (hf : f < s.poolSize) (hnf : f ∉ s.freeList)
    {info : FrameInfo} (hinfo : s.replacer.frameMap f = some info) :
    info.front = FullLRUK.kthRecent s.replacer.k (g.accesses (s.pages f).pageId) ∧
      info.accessTimestamps.length = min (g.accesses (s.pages f).pageId).length s.replacer.k := by
  have hts : info.accessTimestamps = g.lastAccesses s.replacer.k (s.pages f).pageId := by
    simpa [hinfo] using (hh.frames f hf hnf).record
  refine ⟨?_, ?_⟩
  · rw [FrameInfo.front, hts]
    exact front_truncate s.replacer.k ⟨g.accesses (s.pages f).pageId, false⟩
  · rw [hts, History.lastAccesses, List.length_drop]; omega

/-- The replacer's victim holds the LRU-K page among the unpinned resident pages. -/
theorem HistInv.isLRUKChoice (hi : s.Inv) (hh : s.HistInv g) {w : Nat}
    (hv : s.replacer.IsVictim w) :
    IsLRUKChoice s.replacer.k s.Unpinned g.accesses (s.pages w).pageId := by
  obtain ⟨iv, hiv, hev, hle⟩ := hv
  have hw : w < s.poolSize := hi.replacerSize_eq ▸ hi.replacer_inv.in_range w (by simp [hiv])
  have hnw : w ∉ s.freeList := fun hm => by simp [(hi.free w hm).2.2] at hiv
  obtain ⟨hfront, hlen⟩ := hh.record_front hw hnw hiv
  -- every candidate ranks after the victim
  have hcand : ∀ q, s.Unpinned q →
      ((g.accesses (s.pages w).pageId).length < s.replacer.k ∧
        ((g.accesses q).length < s.replacer.k →
          FullLRUK.kthRecent s.replacer.k (g.accesses (s.pages w).pageId) ≤
            FullLRUK.kthRecent s.replacer.k (g.accesses q))) ∨
      (s.replacer.k ≤ (g.accesses (s.pages w).pageId).length ∧
        s.replacer.k ≤ (g.accesses q).length ∧
        FullLRUK.kthRecent s.replacer.k (g.accesses (s.pages w).pageId) ≤
          FullLRUK.kthRecent s.replacer.k (g.accesses q)) := by
    rintro q ⟨f, hqf, hf0⟩
    obtain ⟨hf, hnf, rfl⟩ := hi.table q f hqf
    obtain ⟨info, hinfo, hiff⟩ := hi.record f hf hnf
    obtain ⟨hfront', hlen'⟩ := hh.record_front hf hnf hinfo
    have := hle f info hinfo (hiff.2 hf0)
    unfold VictimLe at this
    rw [hfront, hfront', hlen, hlen'] at this
    omega
  have hself : s.Unpinned (s.pages w).pageId := by
    obtain ⟨info, hinfo, hiff⟩ := hi.record w hw hnw
    rw [hiv, Option.some.injEq] at hinfo; subst hinfo
    exact ⟨w, (hi.resident w hw hnw).table_eq, hiff.1 hev⟩
  refine ⟨hself, ?_⟩
  by_cases hk : (g.accesses (s.pages w).pageId).length < s.replacer.k
  · refine .inl ⟨hk, fun q hq hkq => ?_⟩
    have := hcand q hq
    rw [kthRecent_of_lt hk, kthRecent_of_lt hkq] at this
    omega
  · exact .inr ⟨fun q hq => by have := hcand q hq; omega,
      fun q hq => by have := hcand q hq; omega⟩

/-- Distinct candidates have distinct `k`-th most recent accesses: the replacer's records
have distinct fronts. -/
theorem HistInv.kthRecent_ne (hi : s.Inv) (hh : s.HistInv g) :
    ∀ q q', s.Unpinned q → s.Unpinned q' → q ≠ q' →
      FullLRUK.kthRecent s.replacer.k (g.accesses q) ≠
        FullLRUK.kthRecent s.replacer.k (g.accesses q') := by
  rintro q q' ⟨f, hf, -⟩ ⟨f', hf', -⟩ hne
  obtain ⟨hfl, hfnf, rfl⟩ := hi.table q f hf
  obtain ⟨hfl', hfnf', rfl⟩ := hi.table q' f' hf'
  obtain ⟨info, hinfo, -⟩ := hi.record f hfl hfnf
  obtain ⟨info', hinfo', -⟩ := hi.record f' hfl' hfnf'
  rw [← (hh.record_front hfl hfnf hinfo).1, ← (hh.record_front hfl' hfnf' hinfo').1]
  exact hi.replacer_inv.front_ne f f' info info' (fun he => hne (by rw [he])) hinfo hinfo'

/-- An eviction by `NewPgImp` or a miss of `FetchPgImp` removes exactly one page, LRU-K's
unique choice. -/
theorem HistInv.evicts (hi : s.Inv) (hh : s.HistInv g) {order : List Nat}
    (ho : s.replacer.IsIterationOrder order) {s₁ : BufferPoolManagerInstance Data}
    (ha : s.acquireFrame order = .ok (some f, s₁)) (hp : s.pageTable p = none)
    {n : Int} {d : Data}
    (hins : ({ s₁ with nextPageId := n } : BufferPoolManagerInstance Data).installPage f p d =
      .ok s')
    (hfree : s.freeList = []) :
    ∃ v, s.Evicted s' v ∧ IsLRUKChoice s.replacer.k s.Unpinned g.accesses v ∧
      ∀ w, IsLRUKChoice s.replacer.k s.Unpinned g.accesses w → w = v := by
  obtain ⟨hf, hvic, -, -, -, r', rfl, -⟩ := hi.bringIn ho ha hins
  have hnf : f ∉ s.freeList := by simp [hfree]
  have hch := hh.isLRUKChoice hi (hvic hnf).2
  exact ⟨_, fun q => (hi.bringIn_pageTable hf hp q).trans (by simp [hnf]), hch,
    fun w hw => IsLRUKChoice.unique (hh.kthRecent_ne hi) hw hch⟩

/-- With the free list empty and `w` the only frame without pins, `NewPgImp` evicts `w`: the
entry of the page it held leaves the page table, and the new page takes `w`. -/
theorem FrameInv.exec_newPg_evicts [Zero Data] (h : s.FrameInv) {order : List Nat}
    (ho : s.replacer.IsIterationOrder order) (hfree : s.freeList = []) {w : Nat}
    (hw : w < s.poolSize) (hw0 : (s.pages w).pinCount = 0)
    (hpinned : ∀ f < s.poolSize, f ≠ w → 0 < (s.pages f).pinCount) :
    ∃ s', s.exec (.newPg order) = .ok (.newPg (some (s.nextPageId, w)), s') ∧
      s'.pageTable = Function.update (Function.update s.pageTable (s.pages w).pageId none)
        s.nextPageId (some w) := by
  obtain ⟨out, s', he⟩ := h.exec_ok (c := .newPg order) ho
  obtain ⟨⟨res, s₂⟩, hn, he'⟩ := map_eq_ok he; cases he'
  obtain ⟨frame, s₁, ha, hres⟩ := newPgImp_eq_ok hn
  have hsize : s.replacer.currSize ≠ 0 := by
    have hcount := h.size_eq
    rw [size] at hcount
    rw [hcount]
    exact Nat.pos_iff_ne_zero.1 (List.countP_pos_iff.2 ⟨w, List.mem_range.2 hw, by simp [hfree, hw0]⟩)
  rcases acquireFrame_eq_ok ha with ⟨_, _, hfl, -⟩ | ⟨-, hcs, -⟩ | ⟨v, r', -, hev, rfl, rfl⟩
  · rw [hfree] at hfl; cases hfl
  · exact absurd hcs hsize
  obtain ⟨hv, -, hv0, -⟩ := h.evict_victim ho hev
  obtain rfl : v = w := by_contra fun hne => absurd hv0 (hpinned v hv hne).ne'
  rcases hres with ⟨hn, -⟩ | ⟨f, hf, rfl, hins⟩
  · cases hn
  cases hf
  obtain ⟨r'', -, rfl⟩ := installPage_eq_ok hins
  exact ⟨_, he, rfl⟩

end Eviction

/-! ## Write-backs -/

section Writes

variable {s s' : BufferPoolManagerInstance Data} {g : History} {f : Nat} {p : Int}

theorem HistInv.dirty_eq (hi : s.Inv) (hh : s.HistInv g) (hf : s.pageTable p = some f) :
    (s.pages f).isDirty = g.declared p := by
  obtain ⟨hfl, hfnf, rfl⟩ := hi.table p f hf
  exact (hh.frames f hfl hfnf).dirty

/-- A call that writes nothing and keeps the page table evicts and writes no page. -/
theorem writes_iff_of_same (hd : s'.diskManager = s.diskManager) (ht : s'.pageTable = s.pageTable)
    (b : Bool) (q : Int) :
    q ∈ s.newWrites s' ↔ s.pageTable q ≠ none ∧ s'.pageTable q = none ∧ b = true := by
  rw [newWrites_of_disk hd, ht]
  exact ⟨fun h => absurd h (List.not_mem_nil q), fun ⟨h1, h2, _⟩ => absurd h2 h1⟩

/-- `NewPgImp` and a miss of `FetchPgImp` write back exactly the evicted page, when it was
declared modified. -/
theorem HistInv.bringIn_writes (hi : s.Inv) (hh : s.HistInv g) {order : List Nat}
    (ho : s.replacer.IsIterationOrder order) {s₁ : BufferPoolManagerInstance Data}
    (ha : s.acquireFrame order = .ok (some f, s₁)) (hp : s.pageTable p = none)
    {n : Int} {d : Data}
    (hins : ({ s₁ with nextPageId := n } : BufferPoolManagerInstance Data).installPage f p d =
      .ok s')
    (q : Int) :
    q ∈ s.newWrites s' ↔
      s.pageTable q ≠ none ∧ s'.pageTable q = none ∧ g.declared q = true := by
  obtain ⟨hf, -, -, -, -, r', rfl, -⟩ := hi.bringIn ho ha hins
  rw [newWrites_eq (writeBack_writes s f), ← and_assoc]
  refine Iff.trans ?_ (and_congr_left' (hi.bringIn_pageTable hf hp q)).symm
  have hd := fun hnf => (hh.frames f hf hnf).dirty
  by_cases hc : f ∉ s.freeList ∧ (s.pages f).isDirty
  · -- the evicted page was dirty: it is the one write
    rw [if_pos hc, List.map_singleton, List.mem_singleton]
    rw [hd hc.1] at hc
    constructor
    · rintro rfl; exact ⟨⟨hc.1, rfl⟩, hc.2⟩
    · rintro ⟨⟨-, rfl⟩, -⟩; rfl
  · rw [if_neg hc, List.map_nil]
    refine iff_of_false (List.not_mem_nil q) fun ⟨⟨hnf, hq⟩, hdq⟩ => hc ⟨hnf, ?_⟩
    rw [hd hnf, ← hq]; exact hdq

/-- Apart from the flushes, a call writes back exactly the pages it evicts or deletes that
were declared modified. -/
theorem HistInv.writes_iff [Zero Data] (hi : s.Inv) (hh : s.HistInv g) {c : BpmCall}
    (hc : s.Admissible c) {out : BpmReply} (he : s.exec c = .ok (out, s'))
    (hflushAll : c ≠ .flushAllPgs) (hflush : ∀ p, c ≠ .flushPg p) (q : Int) :
    q ∈ s.newWrites s' ↔
      s.pageTable q ≠ none ∧ s'.pageTable q = none ∧ g.declared q = true := by
  cases c with
  | newPg order =>
    obtain ⟨⟨res, s₂⟩, hn, he⟩ := map_eq_ok he; cases he
    obtain ⟨frame, s₁, ha, ⟨rfl, -, rfl⟩ | ⟨f, rfl, -, hins⟩⟩ := newPgImp_eq_ok hn
    · cases acquireFrame_none ha; exact writes_iff_of_same rfl rfl _ q
    · obtain ⟨-, -, hnext, -⟩ := hi.bringIn hc ha hins
      exact hh.bringIn_writes hi hc ha (hnext ▸ hi.pageTable_nextPageId) hins q
  | fetchPg p order =>
    obtain ⟨⟨frame, s₂⟩, hfe, he⟩ := map_eq_ok he; cases he
    rcases fetchPgImp_eq_ok hfe with ⟨f, r', -, -, -, rfl⟩ |
      ⟨hp, s₁, ha, ⟨rfl, rfl⟩ | ⟨f, rfl, hins⟩⟩
    · exact writes_iff_of_same rfl rfl _ q
    · cases acquireFrame_none ha; exact writes_iff_of_same rfl rfl _ q
    · exact hh.bringIn_writes hi hc.2.2 ha hp hins q
  | unpinPg p isDirty =>
    obtain ⟨⟨b, s₂⟩, hu, he⟩ := map_eq_ok he; cases he
    rcases unpinPgImp_eq_ok hu with ⟨-, rfl, -⟩ | ⟨-, f, r', -, -, -, rfl⟩ <;>
      exact writes_iff_of_same rfl rfl _ q
  | flushPg p => exact absurd rfl (hflush p)
  | flushAllPgs => exact absurd rfl hflushAll
  | deletePg p =>
    obtain ⟨⟨b, s₂⟩, hdel, he⟩ := map_eq_ok he; cases he
    rcases deletePgImp_eq_ok hdel with ⟨-, -, rfl⟩ | ⟨-, -, -, -, rfl⟩ |
      ⟨-, f, r', hf, -, -, rfl⟩
    · exact writes_iff_of_same rfl rfl _ q
    · exact writes_iff_of_same rfl rfl _ q
    · -- the deleted page leaves, written back when declared modified
      have hd := hh.dirty_eq hi hf
      by_cases hq : q = p
      · subst hq; by_cases hdq : (s.pages f).isDirty <;>
          simp [newWrites, hdq, hf, ← hd, DiskManager.writePage]
      · by_cases hdq : (s.pages f).isDirty <;> simp [newWrites, hdq, hq, DiskManager.writePage] <;>
          exact fun h1 h2 => absurd h2 h1

end Writes

/-! ## Results -/

section Results

variable [Zero Data] {cs : List BpmCall} {outs : List BpmReply} {s : BufferPoolManagerInstance Data}
  {g : History}

/-- Pin counts count holders while fewer than `2 ^ 31` pages have been allocated: the pins of a
resident page are the `NewPgImp`/`FetchPgImp` calls that returned it since it became resident
less the `UnpinPgImp` calls that released it. While a page is pinned every call leaves it in
its frame, with its entry in the page table, so no eviction takes it, and `DeletePgImp` of it
returns `false`. -/
theorem pins_count_holders (h : Observed cs outs s g) (hn : allocations outs < 2 ^ 31) :
    (∀ p f, s.pageTable p = some f → (s.pages f).pinCount + g.released p = g.acquired p) ∧
    ∀ c out s', s.Admissible c → s.exec c = .ok (out, s') →
      ∀ p f, s.pageTable p = some f → 0 < (s.pages f).pinCount →
        s'.pageTable p = some f ∧ (s'.pages f).pageId = p ∧ (c = .deletePg p → out = .flag false) := by
  obtain ⟨hi, hh⟩ := h.inv hn
  refine ⟨fun p f hf => ?_, fun c out s' hc he p f hf h0 => hi.exec_pinned hc he hf h0⟩
  obtain ⟨hfl, hfnf, rfl⟩ := hi.table p f hf
  exact (hh.frames f hfl hfnf).pins

/-- A pool of two frames after one `NewPgImp`. -/
theorem pins_count_holders_new_page :
    ∃ (s : BufferPoolManagerInstance Nat) (g : History),
      Observed ([] ++ [.newPg []]) ([] ++ [.newPg (some (0, 0))]) s g ∧
      allocations ([] ++ [.newPg (some (0, 0))]) < 2 ^ 31 ∧ s.pageTable 0 = some 0 ∧
      ((∀ p f, s.pageTable p = some f → (s.pages f).pinCount + g.released p = g.acquired p) ∧
      ∀ c out s', s.Admissible c → s.exec c = .ok (out, s') →
        ∀ p f, s.pageTable p = some f → 0 < (s.pages f).pinCount →
          s'.pageTable p = some f ∧ (s'.pages f).pageId = p ∧
            (c = .deletePg p → out = .flag false)) := by
  have h₀ := Observed.init (rfl : init 2 2 (⟨fun _ => 0, []⟩ : DiskManager Nat) = _)
  have h₁ := h₀.step (c := .newPg []) ⟨List.nodup_nil, fun f => by simp⟩ rfl
  exact ⟨_, _, h₁, by decide, rfl, pins_count_holders h₁ (by decide)⟩

/-- Two frames: page `0` is created in frame `0` and kept pinned, while `2 ^ 32 - 1` rounds on
frame `1` wrap the counter back to `0`. `NewPgImp` then hands out `0` again, in frame `1`: the
page table entry of the pinned page now names the other frame. -/
theorem pinned_page_moves_after_wrap :
    ∃ cs outs, ∃ (s : BufferPoolManagerInstance Nat) (g : History), Observed cs outs s g ∧
      allocations outs = 2 ^ 32 ∧ s.pageTable 0 = some 0 ∧ 0 < (s.pages 0).pinCount ∧
      ∃ order out s', s.Admissible (.newPg order) ∧ s.exec (.newPg order) = .ok (out, s') ∧
        s'.pageTable 0 = some 1 := by
  obtain ⟨n, hn⟩ : ∃ n : Nat, n = 2 ^ 32 - 1 := ⟨_, rfl⟩
  let s₀ : BufferPoolManagerInstance Nat :=
    ⟨2, fun _ => Page.empty, ⟨fun _ => 0, []⟩, fun _ => none, ⟨fun _ => none, 0, 0, 2, 2⟩, [0, 1], 0⟩
  have h₀ : Observed [] [] s₀ History.init :=
    .init (rfl : init 2 2 (⟨fun _ => 0, []⟩ : DiskManager Nat) = .ok s₀)
  -- page `0` is created in frame `0` and stays pinned
  have h₁ := h₀.step (c := .newPg []) ⟨List.nodup_nil, fun f => by simp [s₀]⟩
    (exec_newPg_free (s := s₀) rfl (by decide) rfl [])
  -- rounds on frame `1` wrap the counter back to `0`
  obtain ⟨cs, outs, g, h₂, ha⟩ := h₁.rounds ⟨rfl, by decide, by simp [s₀], by simp [s₀]⟩ n
    fun i hi => by
      simp only [s₀, Function.update_apply, ite_eq_right_iff]
      intro h; unfold toPageId at h; omega
  have hz : toPageId (toPageId ((0 : Int) + 1) + n) = 0 := by unfold toPageId; omega
  refine ⟨cs, outs, _, g, h₂, by simp [allocations, List.filterMap_append, BpmReply.newPageId] at ha ⊢; omega,
    by simp [s₀], by simp [s₀], [0], _, _,
    ⟨List.nodup_singleton 0, fun f => by by_cases hf : f = 0 <;> simp [hf, s₀]⟩,
    exec_newPg_free rfl (show 1 < 2 by decide) (by simp [s₀]) [0], ?_⟩
  dsimp only [afterRounds_nextPageId, afterRounds_pageTable, s₀]
  rw [hz]
  exact Function.update_same _ _ _

/-- Eviction is LRU-K over the accesses of each page since it became resident, with nothing
carried over from earlier occupants of a frame, while fewer than `2 ^ 31` pages have been
allocated: when `NewPgImp`, or `FetchPgImp` of a page that is not resident, finds the free
list empty and succeeds, exactly one page leaves the page table, and it is LRU-K's unique
choice among the resident pages without pins. -/
theorem evicts_lru_k_page (h : Observed cs outs s g) (hn : allocations outs < 2 ^ 31) :
    (∀ order out s', s.Admissible (.newPg order) →
      s.exec (.newPg order) = .ok (.newPg (some out), s') → s.freeList = [] →
        ∃ v, s.Evicted s' v ∧ IsLRUKChoice s.replacer.k s.Unpinned g.accesses v ∧
          ∀ w, IsLRUKChoice s.replacer.k s.Unpinned g.accesses w → w = v) ∧
    (∀ p order out s', s.pageTable p = none → s.Admissible (.fetchPg p order) →
      s.exec (.fetchPg p order) = .ok (.fetchPg (some out), s') → s.freeList = [] →
        ∃ v, s.Evicted s' v ∧ IsLRUKChoice s.replacer.k s.Unpinned g.accesses v ∧
          ∀ w, IsLRUKChoice s.replacer.k s.Unpinned g.accesses w → w = v) := by
  obtain ⟨hi, hh⟩ := h.inv hn
  refine ⟨fun order out s' ho he hfree => ?_, fun p order out s' hp ho he hfree => ?_⟩
  · obtain ⟨⟨res, s₂⟩, hn, he⟩ := map_eq_ok he; cases he
    obtain ⟨frame, s₁, ha, ⟨-, hres, -⟩ | ⟨f, rfl, -, hins⟩⟩ := newPgImp_eq_ok hn
    · cases hres
    · obtain ⟨-, -, hnext, -⟩ := hi.bringIn ho ha hins
      exact hh.evicts hi ho ha (hnext ▸ hi.pageTable_nextPageId) hins hfree
  · obtain ⟨⟨frame, s₂⟩, hfe, he⟩ := map_eq_ok he; cases he
    rcases fetchPgImp_eq_ok hfe with ⟨f, -, hf, -⟩ |
      ⟨-, s₁, ha, ⟨hfr, -⟩ | ⟨f, hfo, hins⟩⟩
    · rw [hp] at hf; cases hf
    · cases hfr
    · cases hfo
      exact hh.evicts hi ho.2.2 ha hp hins hfree

/-- A pool of one frame holding one unpinned page: its free list is empty, and `NewPgImp`
evicts the page. -/
theorem evicts_lru_k_page_full_pool :
    ∃ (s : BufferPoolManagerInstance Nat) (g : History),
      Observed ([] ++ [.newPg []] ++ [.unpinPg 0 false]) ([] ++ [.newPg (some (0, 0))] ++ [.flag true])
        s g ∧ allocations ([] ++ [.newPg (some (0, 0))] ++ [.flag true]) < 2 ^ 31 ∧
      s.freeList = [] ∧ (∃ s', s.Admissible (.newPg [0]) ∧
        s.exec (.newPg [0]) = .ok (.newPg (some (1, 0)), s')) ∧
      ((∀ order out s', s.Admissible (.newPg order) →
        s.exec (.newPg order) = .ok (.newPg (some out), s') → s.freeList = [] →
          ∃ v, s.Evicted s' v ∧ IsLRUKChoice s.replacer.k s.Unpinned g.accesses v ∧
            ∀ w, IsLRUKChoice s.replacer.k s.Unpinned g.accesses w → w = v) ∧
      (∀ p order out s', s.pageTable p = none → s.Admissible (.fetchPg p order) →
        s.exec (.fetchPg p order) = .ok (.fetchPg (some out), s') → s.freeList = [] →
          ∃ v, s.Evicted s' v ∧ IsLRUKChoice s.replacer.k s.Unpinned g.accesses v ∧
            ∀ w, IsLRUKChoice s.replacer.k s.Unpinned g.accesses w → w = v)) := by
  have h₀ := Observed.init (rfl : init 1 2 (⟨fun _ => 0, []⟩ : DiskManager Nat) = _)
  have h₁ := h₀.step (c := .newPg []) ⟨List.nodup_nil, fun f => by simp⟩ rfl
  have h₂ := h₁.step (c := .unpinPg 0 false) trivial rfl
  exact ⟨_, _, h₂, by decide, rfl, ⟨_, ⟨List.nodup_singleton 0,
    fun f => by by_cases hf : f = 0 <;> simp [hf, Function.update]⟩, rfl⟩,
    evicts_lru_k_page h₂ (by decide)⟩

/-- Two frames: page `0` is created in frame `0` and released, and `2 ^ 32 - 1` rounds on frame
`1` wrap the counter back to `0`. `NewPgImp` hands out `0` again, pinned in frame `1`, whose
entry replaces that of frame `0`. The next `NewPgImp` finds the free list empty, evicts frame
`0` and removes the entry of page `0`, though no page resident in an unpinned frame is left
for LRU-K to choose. -/
theorem evicts_pinned_page_after_wrap :
    ∃ cs outs, ∃ (s : BufferPoolManagerInstance Nat) (g : History), Observed cs outs s g ∧
      allocations outs = 2 ^ 32 + 1 ∧ s.freeList = [] ∧
      ∃ order out s', s.Admissible (.newPg order) ∧
        s.exec (.newPg order) = .ok (.newPg (some out), s') ∧ s.Evicted s' 0 ∧
        ∀ v, ¬ IsLRUKChoice s.replacer.k s.Unpinned g.accesses v := by
  obtain ⟨n, hn⟩ : ∃ n : Nat, n = 2 ^ 32 - 1 := ⟨_, rfl⟩
  let s₀ : BufferPoolManagerInstance Nat :=
    ⟨2, fun _ => Page.empty, ⟨fun _ => 0, []⟩, fun _ => none, ⟨fun _ => none, 0, 0, 2, 2⟩, [0, 1], 0⟩
  have h₀ : Observed [] [] s₀ History.init :=
    .init (rfl : init 2 2 (⟨fun _ => 0, []⟩ : DiskManager Nat) = .ok s₀)
  -- page `0` is created in frame `0` and released
  obtain ⟨s₁, he₁, he₂⟩ := exec_newPg_unpin (s := s₀) rfl (by decide) rfl [] false
  have h₂ := (h₀.step (c := .newPg []) ⟨List.nodup_nil, fun f => by simp [s₀]⟩ he₁).step
    (c := .unpinPg _ false) trivial he₂
  -- rounds on frame `1` wrap the counter back to `0`
  obtain ⟨cs, outs, g, h₃, ha⟩ := h₂.rounds ⟨rfl, by decide, by simp [s₀], by simp [s₀]⟩ n
    fun i hi => by
      simp only [s₀, Function.update_apply, ite_eq_right_iff]
      intro h; unfold toPageId at h; omega
  have hz : toPageId (toPageId ((0 : Int) + 1) + n) = 0 := by unfold toPageId; omega
  -- `NewPgImp` hands out `0` again, in frame `1`
  have h₄ := h₃.step (c := .newPg [0]) ⟨List.nodup_singleton 0, fun f => by
    by_cases hf : f = 0 <;> simp [hf, s₀]⟩
    (exec_newPg_free rfl (show 1 < 2 by decide) (by simp [s₀]) [0])
  have hF := h₄.run.reachable.frameInv
  obtain ⟨s', he, htable⟩ := hF.exec_newPg_evicts
    (⟨by decide, fun f => by rcases f with _ | _ | f <;> simp [s₀]⟩ : IsIterationOrder _ [0, 1])
    rfl (w := 0) (show 0 < 2 by decide) (by simp [s₀]) fun f hf hf0 => by
      obtain rfl : f = 1 := by simp at hf; omega
      simp
  have h1 : toPageId ((0 : Int) + 1) = 1 := by unfold toPageId; omega
  refine ⟨_, _, _, _, h₄, ?_, rfl, [0, 1], _, s',
    ⟨by decide, fun f => by rcases f with _ | _ | f <;> simp [s₀]⟩, he, fun q => ?_, fun v hv => ?_⟩
  · simp [allocations, List.filterMap_append, BpmReply.newPageId] at ha ⊢; omega
  · rw [htable]
    dsimp only [afterRounds_nextPageId, afterRounds_pageTable, afterRounds_pages, s₀]
    rw [hz, h1]
    by_cases hq : q = 0 <;> simp [Function.update_apply, hq]
  · obtain ⟨f, hf, h0⟩ := hv.1
    dsimp only [afterRounds_nextPageId, afterRounds_pageTable, afterRounds_pages, s₀] at hf h0
    rw [hz] at hf
    by_cases hv0 : v = 0 <;> simp [Function.update_apply, hv0] at hf
    subst hf
    simp at h0

/-- The dirty flag of a resident page is its declaration while fewer than `2 ^ 31` pages have
been allocated: some `UnpinPgImp(p, true)` since the page was last read or written. Hence
`NewPgImp`, `FetchPgImp` and `DeletePgImp` write back exactly the pages they remove that were
declared modified, `FlushAllPgsImp` writes exactly the resident pages declared modified, and a
second `FlushAllPgsImp` right after it writes nothing. -/
theorem dirty_iff_declared (h : Observed cs outs s g) (hn : allocations outs < 2 ^ 31) :
    (∀ p f, s.pageTable p = some f → (s.pages f).isDirty = g.declared p) ∧
    (∀ c out s', s.Admissible c → s.exec c = .ok (out, s') → c ≠ .flushAllPgs →
      (∀ p, c ≠ .flushPg p) →
        ∀ q, q ∈ s.newWrites s' ↔ s.pageTable q ≠ none ∧ s'.pageTable q = none ∧ g.declared q = true) ∧
    (∀ q, q ∈ s.newWrites s.flushAllPgsImp ↔ s.pageTable q ≠ none ∧ g.declared q = true) ∧
    s.flushAllPgsImp.flushAllPgsImp.diskManager.writes = s.flushAllPgsImp.diskManager.writes := by
  obtain ⟨hi, hh⟩ := h.inv hn
  refine ⟨fun p f hf => hh.dirty_eq hi hf,
    fun c out s' hc he hfa hfp q => hh.writes_iff hi hc he hfa hfp q, fun q => ?_,
    flushAllPgsImp_flushAllPgsImp_writes s⟩
  rw [newWrites_eq (by rw [flushAllPgsImp_eq]; exact foldl_writePage_writes _ _),
    hi.mem_flushWrites]
  constructor
  · rintro ⟨f, hf, hd⟩
    exact ⟨by simp [hf], by rw [← hh.dirty_eq hi hf, hd]⟩
  · intro ⟨hq, hd⟩
    obtain ⟨f, hf⟩ := Option.ne_none_iff_exists'.1 hq
    exact ⟨f, hf, by rw [hh.dirty_eq hi hf, hd]⟩

/-- A pool of two frames after `NewPgImp` and `UnpinPgImp(0, true)`: page 0 is declared
modified. -/
theorem dirty_iff_declared_after_dirty_unpin :
    ∃ (s : BufferPoolManagerInstance Nat) (g : History),
      Observed ([] ++ [.newPg []] ++ [.unpinPg 0 true]) ([] ++ [.newPg (some (0, 0))] ++ [.flag true])
        s g ∧ allocations ([] ++ [.newPg (some (0, 0))] ++ [.flag true]) < 2 ^ 31 ∧
      g.declared 0 = true ∧
      ((∀ p f, s.pageTable p = some f → (s.pages f).isDirty = g.declared p) ∧
      (∀ c out s', s.Admissible c → s.exec c = .ok (out, s') → c ≠ .flushAllPgs →
        (∀ p, c ≠ .flushPg p) →
          ∀ q, q ∈ s.newWrites s' ↔
            s.pageTable q ≠ none ∧ s'.pageTable q = none ∧ g.declared q = true) ∧
      (∀ q, q ∈ s.newWrites s.flushAllPgsImp ↔ s.pageTable q ≠ none ∧ g.declared q = true) ∧
      s.flushAllPgsImp.flushAllPgsImp.diskManager.writes = s.flushAllPgsImp.diskManager.writes) := by
  have h₀ := Observed.init (rfl : init 2 2 (⟨fun _ => 0, []⟩ : DiskManager Nat) = _)
  have h₁ := h₀.step (c := .newPg []) ⟨List.nodup_nil, fun f => by simp⟩ rfl
  have h₂ := h₁.step (c := .unpinPg 0 true) trivial rfl
  exact ⟨_, _, h₂, by decide, rfl, dirty_iff_declared h₂ (by decide)⟩

/-- A pool of one frame: `2 ^ 32 - 1` rounds bring the counter to `-1`, `NewPgImp` hands out
`-1`, which is `INVALID_PAGE_ID`, and `UnpinPgImp(-1, true)` declares it modified. The page
is resident and its frame dirty, yet `FlushAllPgsImp` skips it and writes nothing. -/
theorem flush_all_skips_invalid_page :
    ∃ cs outs, ∃ (s : BufferPoolManagerInstance Nat) (g : History), Observed cs outs s g ∧
      allocations outs = 2 ^ 32 ∧ s.pageTable (-1) = some 0 ∧ (s.pages 0).isDirty = true ∧
      g.declared (-1) = true ∧ s.newWrites s.flushAllPgsImp = [] := by
  obtain ⟨n, hn⟩ : ∃ n : Nat, n = 2 ^ 32 - 1 := ⟨_, rfl⟩
  let s₀ : BufferPoolManagerInstance Nat :=
    ⟨1, fun _ => Page.empty, ⟨fun _ => 0, []⟩, fun _ => none, ⟨fun _ => none, 0, 0, 1, 2⟩, [0], 0⟩
  have h₀ : Observed [] [] s₀ History.init :=
    .init (rfl : init 1 2 (⟨fun _ => 0, []⟩ : DiskManager Nat) = .ok s₀)
  have hr : s₀.RoundReady 0 := ⟨rfl, by decide, rfl, rfl⟩
  -- rounds bring the counter to `-1`, which `NewPgImp` hands out; it is released dirty
  obtain ⟨cs, outs, g, h₁, ha⟩ := h₀.rounds hr n fun _ _ => rfl
  obtain ⟨s₁, he₁, he₂⟩ := exec_newPg_unpin (hr.afterRounds n).free (hr.afterRounds n).lt
    (hr.afterRounds n).no_record [] true
  have h₃ := (h₁.step (c := .newPg []) ⟨List.nodup_nil, fun f => by simp [s₀]⟩ he₁).step
    (c := .unpinPg _ true) trivial he₂
  have hm : toPageId (n : Int) = -1 := by unfold toPageId; omega
  refine ⟨_, _, _, _, h₃, ?_, ?_, by simp, ?_, ?_⟩
  · simp [allocations, List.filterMap_append, BpmReply.newPageId] at ha ⊢; omega
  · dsimp only [afterRounds_nextPageId, afterRounds_pageTable, s₀]
    rw [Int.zero_add, hm]; exact Function.update_same _ _ _
  · simp [History.step, History.release, s₀, hm]
  · rw [newWrites_eq (by rw [flushAllPgsImp_eq]; exact foldl_writePage_writes _ _)]
    simp [flushWrites, s₀, hm, invalidPageId]

end Results

end BufferPoolManagerInstance

end Bustub
