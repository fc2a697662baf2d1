import Bustub.BufferPool.Frames

/-! # The page ids that `NewPgImp` hands out

`AllocatePage` is `next_page_id_++` on the 32-bit `page_id_t`. Every call either hands out the
page `next_page_id_` and advances the counter by one, from `INT_MAX` to `INT_MIN`, or hands out
no page and leaves the counter (`exec_nextPageId`). So over a run from the constructor that
allocated `n` pages, the ids in the replies of `NewPgImp` are `0, 1, …, n - 1` taken into
`page_id_t`, in order, and the counter is `n` taken into `page_id_t` (`Run.newPageIds_eq`).

While fewer than `2 ^ 31` pages have been allocated the counter has not wrapped, and every run
keeps `Inv` (`Run.inv`): the ids are distinct, non-negative and fresh
(`new_page_ids_distinct`), the invariant holds (`reachable_pool_invariant`), and `nullptr`
means a pool of pinned pages (`null_iff_all_pinned`). `FrameInv`, and that no call fails an
assertion, hold over every run.

A round of `NewPgImp`, `UnpinPgImp` and `DeletePgImp` of the new page on a free frame moves
only the counter and the replacer's clock (`RoundReady.exec_round`), so a run of any number of
rounds exists (`RoundReady.rounds`). Such runs wrap the counter: a resident page then lies
above it, `NewPgImp` hands out `INT_MIN` and then `INVALID_PAGE_ID`, and returns `nullptr` with
no valid page pinned.
-/

namespace Bustub

namespace BufferPoolManagerInstance

open LRUKReplacer

variable {Data : Type} [Zero Data]
variable {s s' : BufferPoolManagerInstance Data} {cs : List BpmCall} {outs : List BpmReply}

/-! ## The counter over one call -/

theorem init_nextPageId {poolSize replacerK : Nat} {d : DiskManager Data}
    (h : init poolSize replacerK d = .ok s) : s.nextPageId = 0 := by
  unfold init at h
  cases hr : LRUKReplacer.init poolSize replacerK with
  | error e => rw [hr] at h; cases h
  | ok r => rw [hr] at h; cases h; rfl

omit [Zero Data] in
theorem acquireFrame_nextPageId {order : List Nat} {frame : Option Nat}
    (h : s.acquireFrame order = .ok (frame, s')) : s'.nextPageId = s.nextPageId := by
  rcases acquireFrame_eq_ok h with ⟨_, _, _, _, rfl⟩ | ⟨-, -, -, rfl⟩ | ⟨_, _, _, _, _, rfl⟩ <;>
    rfl

/-- Every call hands out the page `next_page_id_` and advances the counter, or hands out no
page and leaves the counter. -/
theorem exec_nextPageId {c : BpmCall} {out : BpmReply} (he : s.exec c = .ok (out, s')) :
    (out.newPageId = some s.nextPageId ∧ s'.nextPageId = toPageId (s.nextPageId + 1)) ∨
      (out.newPageId = none ∧ s'.nextPageId = s.nextPageId) := by
  cases c with
  | newPg order =>
    obtain ⟨⟨res, s₂⟩, hn, he⟩ := map_eq_ok he; cases he
    obtain ⟨frame, s₁, ha, ⟨rfl, rfl, rfl⟩ | ⟨f, rfl, rfl, hi⟩⟩ := newPgImp_eq_ok hn
    · exact .inr ⟨rfl, acquireFrame_nextPageId ha⟩
    · obtain ⟨r', -, rfl⟩ := installPage_eq_ok hi
      have hnext := acquireFrame_nextPageId ha
      exact .inl ⟨by rw [← hnext]; rfl, by rw [← hnext]; rfl⟩
  | fetchPg p order =>
    obtain ⟨⟨frame, s₂⟩, hfe, he⟩ := map_eq_ok he; cases he
    refine .inr ⟨rfl, ?_⟩
    rcases fetchPgImp_eq_ok hfe with ⟨f, r', -, -, -, rfl⟩ |
      ⟨-, s₁, ha, ⟨rfl, rfl⟩ | ⟨f, rfl, hi⟩⟩
    · rfl
    · exact acquireFrame_nextPageId ha
    · obtain ⟨r', -, rfl⟩ := installPage_eq_ok hi
      have hnext := acquireFrame_nextPageId ha
      exact hnext
  | unpinPg p isDirty =>
    obtain ⟨⟨b, s₂⟩, hu, he⟩ := map_eq_ok he; cases he
    refine .inr ⟨rfl, ?_⟩
    rcases unpinPgImp_eq_ok hu with ⟨-, rfl, -⟩ | ⟨-, f, r', -, -, -, rfl⟩ <;> rfl
  | flushPg p =>
    cases he
    refine .inr ⟨rfl, ?_⟩
    rcases flushPgImp_eq s p with he | ⟨f, -, -, he⟩ <;> rw [he]
  | flushAllPgs => cases he; exact .inr ⟨rfl, by rw [flushAllPgsImp_eq]⟩
  | deletePg p =>
    obtain ⟨⟨b, s₂⟩, hdel, he⟩ := map_eq_ok he; cases he
    refine .inr ⟨rfl, ?_⟩
    rcases deletePgImp_eq_ok hdel with ⟨-, -, rfl⟩ | ⟨-, -, -, -, rfl⟩ |
      ⟨-, f, r', -, -, -, rfl⟩ <;> rfl

/-- Only `NewPgImp` hands out a page. -/
theorem exec_newPageId_none {c : BpmCall} {out : BpmReply} (he : s.exec c = .ok (out, s'))
    (hc : ∀ order, c ≠ .newPg order) : out.newPageId = none := by
  cases c with
  | newPg order => exact absurd rfl (hc order)
  | fetchPg p order => obtain ⟨_, -, he⟩ := map_eq_ok he; cases he; rfl
  | unpinPg p isDirty => obtain ⟨_, -, he⟩ := map_eq_ok he; cases he; rfl
  | flushPg p => cases he; rfl
  | flushAllPgs => cases he; rfl
  | deletePg p => obtain ⟨_, -, he⟩ := map_eq_ok he; cases he; rfl

/-! ## The ids of a run -/

/-- Over a run, `NewPgImp` has handed out the first `allocations outs` values of the counter,
in order, and the counter is the next. -/
theorem Run.newPageIds_eq (h : Run cs outs s) :
    s.nextPageId = toPageId (allocations outs) ∧
      outs.filterMap BpmReply.newPageId = (List.range (allocations outs)).map fun i : Nat => toPageId i := by
  induction h with
  | init h => exact ⟨init_nextPageId h, rfl⟩
  | snoc _ _ he ih =>
    obtain ⟨hn, hids⟩ := ih
    rw [List.filterMap_append, hids]
    rcases exec_nextPageId he with ⟨hout, hnext⟩ | ⟨hout, hnext⟩
    · rw [allocations_append_some hout, hnext, hn, toPageId_toPageId_add]
      exact ⟨by push_cast; rfl, by simp [hout, hn, List.range_succ]⟩
    · rw [allocations_append_none hout]
      exact ⟨hnext.trans hn, by simp [hout]⟩

/-- Before the counter wraps it counts the pages allocated. -/
theorem Run.nextPageId_eq (h : Run cs outs s) (hn : allocations outs < 2 ^ 31) :
    s.nextPageId = allocations outs := by
  rw [h.newPageIds_eq.1, toPageId_of_mem (by omega) (by omega)]

/-- Every run that allocates fewer than `2 ^ 31` pages keeps `Inv`. -/
theorem Run.inv (h : Run cs outs s) (hn : allocations outs < 2 ^ 31) : s.Inv := by
  induction h with
  | init h => exact init_inv h
  | snoc hrun hc he ih =>
    rename_i out
    cases hout : out.newPageId with
    | none =>
      rw [allocations_append_none hout] at hn
      exact (ih hn).exec hc he (.inr hout)
    | some p =>
      rw [allocations_append_some hout] at hn
      exact (ih (by omega)).exec hc he (.inl (by rw [hrun.nextPageId_eq (by omega)]; omega))

/-! ## Rounds on a free frame -/

/-- The pool after `n` rounds of `NewPgImp`, `UnpinPgImp` and `DeletePgImp` of the new page:
the counter and the replacer's clock have moved on by `n`, and nothing else has changed. -/
def afterRounds (s : BufferPoolManagerInstance Data) (n : Nat) : BufferPoolManagerInstance Data :=
  { s with
    nextPageId := toPageId (s.nextPageId + n)
    replacer := { s.replacer with currentTimestamp := s.replacer.currentTimestamp + n } }

section AfterRounds

omit [Zero Data]

variable (s) (n : Nat)

@[simp] theorem afterRounds_nextPageId : (s.afterRounds n).nextPageId = toPageId (s.nextPageId + n) :=
  rfl
@[simp] theorem afterRounds_poolSize : (s.afterRounds n).poolSize = s.poolSize := rfl
@[simp] theorem afterRounds_pages : (s.afterRounds n).pages = s.pages := rfl
@[simp] theorem afterRounds_diskManager : (s.afterRounds n).diskManager = s.diskManager := rfl
@[simp] theorem afterRounds_pageTable : (s.afterRounds n).pageTable = s.pageTable := rfl
@[simp] theorem afterRounds_freeList : (s.afterRounds n).freeList = s.freeList := rfl
@[simp] theorem afterRounds_frameMap : (s.afterRounds n).replacer.frameMap = s.replacer.frameMap :=
  rfl
@[simp] theorem afterRounds_currSize : (s.afterRounds n).replacer.currSize = s.replacer.currSize :=
  rfl
@[simp] theorem afterRounds_replacerSize :
    (s.afterRounds n).replacer.replacerSize = s.replacer.replacerSize := rfl
@[simp] theorem afterRounds_k : (s.afterRounds n).replacer.k = s.replacer.k := rfl

end AfterRounds

omit [Zero Data] in
theorem afterRounds_zero (hnext : toPageId s.nextPageId = s.nextPageId) : s.afterRounds 0 = s := by
  simp [afterRounds, hnext]

omit [Zero Data] in
theorem afterRounds_afterRounds (m n : Nat) :
    (s.afterRounds m).afterRounds n = s.afterRounds (m + n) := by
  simp [afterRounds, toPageId_toPageId_add, add_assoc]

/-- A round can run on frame `b`: the only free frame, holding no page and no record. -/
structure RoundReady (s : BufferPoolManagerInstance Data) (b : Nat) : Prop where
  free : s.freeList = [b]
  lt : b < s.replacer.replacerSize
  no_record : s.replacer.frameMap b = none
  empty : s.pages b = Page.empty

theorem RoundReady.afterRounds {b : Nat} (hr : s.RoundReady b) (n : Nat) :
    (s.afterRounds n).RoundReady b :=
  ⟨hr.free, hr.lt, hr.no_record, hr.empty⟩

/-- With frame `b` at the front of the free list, and no record for it, `NewPgImp` hands out
`next_page_id_` in `b`, pinned, with a fresh record. -/
theorem exec_newPg_free {b : Nat} {rest : List Nat} (hfree : s.freeList = b :: rest)
    (hb : b < s.replacer.replacerSize) (hrec : s.replacer.frameMap b = none) (order : List Nat) :
    s.exec (.newPg order) = .ok (.newPg (some (s.nextPageId, b)), { s with
      pages := Function.update s.pages b ⟨s.nextPageId, 1, false, (s.pages b).data⟩
      pageTable := Function.update s.pageTable s.nextPageId (some b)
      replacer := { s.replacer with
        frameMap := Function.update s.replacer.frameMap b
          (some ⟨pushTimestamp s.replacer.k s.replacer.currentTimestamp [], false⟩)
        currentTimestamp := s.replacer.currentTimestamp + 1 }
      freeList := rest
      nextPageId := toPageId (s.nextPageId + 1) }) := by
  simp [exec, newPgImp, acquireFrame, hfree, allocatePage, installPage, accessFrame, recordAccess,
    hb, hrec, setEvictable, Functor.map, Except.map, bind, Except.bind]

/-- `UnpinPgImp` of a page with one pin, in a frame whose record is pinned: the frame is
unpinned, dirty when `is_dirty` is, and evictable. -/
theorem exec_unpin_last {p : Int} {f : Nat} {ts : List Nat} (hf : s.pageTable p = some f)
    (h1 : (s.pages f).pinCount = 1) (hlt : f < s.replacer.replacerSize)
    (hrec : s.replacer.frameMap f = some ⟨ts, false⟩) (isDirty : Bool) :
    s.exec (.unpinPg p isDirty) = .ok (.flag true, { s with
      pages := Function.update s.pages f
        { s.pages f with pinCount := 0, isDirty := (s.pages f).isDirty || isDirty }
      replacer := { s.replacer with
        currSize := s.replacer.currSize + 1
        frameMap := Function.update s.replacer.frameMap f (some ⟨ts, true⟩) } }) := by
  simp [exec, unpinPgImp, hf, h1, setEvictable, hlt, hrec, Functor.map, Except.map, bind,
    Except.bind]

/-- `FetchPgImp` of a resident page whose frame's record is pinned: a hit, returning the frame
with one more pin and a new access. -/
theorem exec_fetchPg_hit {p : Int} {f : Nat} {ts : List Nat} (hf : s.pageTable p = some f)
    (hlt : f < s.replacer.replacerSize) (hrec : s.replacer.frameMap f = some ⟨ts, false⟩)
    (order : List Nat) :
    s.exec (.fetchPg p order) = .ok (.fetchPg (some f), { s with
      pages := Function.update s.pages f
        { s.pages f with pinCount := (s.pages f).pinCount + 1 }
      replacer := { s.replacer with
        frameMap := Function.update s.replacer.frameMap f
          (some ⟨pushTimestamp s.replacer.k s.replacer.currentTimestamp ts, false⟩)
        currentTimestamp := s.replacer.currentTimestamp + 1 } }) := by
  simp [exec, fetchPgImp, hf, accessFrame, recordAccess, setEvictable, hlt, hrec, Functor.map,
    Except.map, bind, Except.bind]

/-- With no free frame and nothing evictable, `NewPgImp` returns `nullptr` and changes
nothing. -/
theorem exec_newPg_none (hfree : s.freeList = []) (hcs : s.replacer.currSize = 0)
    (order : List Nat) : s.exec (.newPg order) = .ok (.newPg none, s) := by
  obtain ⟨poolSize, pages, disk, table, replacer, freeList, next⟩ := s
  dsimp only at hfree hcs
  subst hfree
  simp [exec, newPgImp, acquireFrame, evict, hcs, Functor.map, Except.map, bind, Except.bind]

/-- `NewPgImp` hands out `next_page_id_` in the front frame `b` of the free list, and
`UnpinPgImp` of it leaves the page resident in `b`, unpinned and evictable, and dirty when
`is_dirty` is. -/
theorem exec_newPg_unpin {b : Nat} {rest : List Nat} (hfree : s.freeList = b :: rest)
    (hb : b < s.replacer.replacerSize) (hrec : s.replacer.frameMap b = none) (order : List Nat)
    (isDirty : Bool) :
    ∃ s₁, s.exec (.newPg order) = .ok (.newPg (some (s.nextPageId, b)), s₁) ∧
      s₁.exec (.unpinPg s.nextPageId isDirty) = .ok (.flag true, { s with
        pages := Function.update s.pages b ⟨s.nextPageId, 0, isDirty, (s.pages b).data⟩
        pageTable := Function.update s.pageTable s.nextPageId (some b)
        replacer := { s.replacer with
          frameMap := Function.update s.replacer.frameMap b
            (some ⟨pushTimestamp s.replacer.k s.replacer.currentTimestamp [], true⟩)
          currentTimestamp := s.replacer.currentTimestamp + 1
          currSize := s.replacer.currSize + 1 }
        freeList := rest
        nextPageId := toPageId (s.nextPageId + 1) }) := by
  refine ⟨_, exec_newPg_free hfree hb hrec order, ?_⟩
  rw [exec_unpin_last (Function.update_same _ _ _) (by simp) (by simpa using hb)
    (Function.update_same _ _ _) isDirty]
  simp

/-- One round on frame `b`, when the page `next_page_id_` is not resident: `NewPgImp` hands it
out in `b`, and `UnpinPgImp` and `DeletePgImp` of it return `b` to the free list. -/
theorem RoundReady.exec_round {b : Nat} (hr : s.RoundReady b)
    (hnew : s.pageTable s.nextPageId = none) (order : List Nat) :
    ∃ s₁ s₂, s.exec (.newPg order) = .ok (.newPg (some (s.nextPageId, b)), s₁) ∧
      s₁.exec (.unpinPg s.nextPageId false) = .ok (.flag true, s₂) ∧
      s₂.exec (.deletePg s.nextPageId) = .ok (.flag true, s.afterRounds 1) := by
  obtain ⟨s₁, he₁, he₂⟩ := exec_newPg_unpin hr.free hr.lt hr.no_record order false
  refine ⟨s₁, _, he₁, he₂, ?_⟩
  obtain ⟨hfree, hb, hrec, hpage⟩ := hr
  obtain ⟨poolSize, pages, disk, table, ⟨fm, ts, cs, rs, k⟩, freeList, next⟩ := s
  dsimp only at hfree hb hrec hpage hnew ⊢
  subst hfree
  have hfm : Function.update fm b none = fm := hrec ▸ Function.update_eq_self b fm
  have hpg : Function.update pages b Page.empty = pages := hpage ▸ Function.update_eq_self b pages
  have htb : Function.update table next none = table := hnew ▸ Function.update_eq_self next table
  simp [exec, deletePgImp, remove, hb, Functor.map, Except.map, bind, Except.bind, hfm, hpg, htb]
  rfl

/-- What one round keeps, any number of rounds keep, as long as no page that the rounds hand
out is resident. -/
theorem RoundReady.rounds {b : Nat} {P : BufferPoolManagerInstance Data → Nat → Prop}
    (hround : ∀ s k, P s k → s.RoundReady b → s.pageTable s.nextPageId = none →
      P (s.afterRounds 1) (k + 1))
    (hr : s.RoundReady b) (hnext : toPageId s.nextPageId = s.nextPageId) {k : Nat} (hs : P s k)
    (n : Nat) (hnew : ∀ i < n, s.pageTable (toPageId (s.nextPageId + i)) = none) :
    P (s.afterRounds n) (k + n) := by
  induction n with
  | zero => rwa [afterRounds_zero hnext]
  | succ n ih =>
    rw [← afterRounds_afterRounds, ← add_assoc]
    exact hround _ _ (ih fun i hi => hnew i (by omega)) (hr.afterRounds n) (hnew n (by omega))

/-- Rounds extend every run, one allocation each. -/
theorem Run.rounds {b : Nat} (h : Run cs outs s) (hr : s.RoundReady b) (n : Nat)
    (hnew : ∀ i < n, s.pageTable (toPageId (s.nextPageId + i)) = none) :
    ∃ cs' outs', Run cs' outs' (s.afterRounds n) ∧ allocations outs' = allocations outs + n := by
  refine hr.rounds (P := fun s k => ∃ cs outs, Run cs outs s ∧ allocations outs = k) ?_
    (by rw [h.newPageIds_eq.1, toPageId_toPageId]) ⟨cs, outs, h, rfl⟩ n hnew
  rintro s _ ⟨cs, outs, h, rfl⟩ hr hnew
  obtain ⟨order, ho⟩ := h.reachable.frameInv.replacer_inv.exists_iterationOrder
  obtain ⟨s₁, s₂, he₁, he₂, he₃⟩ := hr.exec_round hnew order
  exact ⟨_, _, ((h.snoc (c := .newPg order) ho he₁).snoc (c := .unpinPg _ false) trivial
    he₂).snoc (c := .deletePg _) trivial he₃, by
    simp [allocations, List.filterMap_append, BpmReply.newPageId]⟩

/-- A pool of one frame, after `n` rounds and a further `NewPgImp`: its frame holds the page
`n`, taken into `page_id_t`, with one pin, and nothing is evictable. -/
theorem exists_run_rounds_newPg (n : Nat) :
    ∃ cs outs, ∃ s : BufferPoolManagerInstance Nat, Run cs outs s ∧ allocations outs = n + 1 ∧
      s.poolSize = 1 ∧ s.freeList = [] ∧ (s.pages 0).pageId = toPageId n ∧
      (s.pages 0).pinCount = 1 ∧ s.pageTable (toPageId n) = some 0 ∧
      s.nextPageId = toPageId (n + 1) ∧ s.replacer.currSize = 0 ∧ s.Admissible (.newPg [0]) := by
  have h₀ := Run.init (rfl : init 1 2 (⟨fun _ => 0, []⟩ : DiskManager Nat) = _)
  obtain ⟨cs, outs, h₁, hn⟩ := h₀.rounds ⟨rfl, by decide, rfl, rfl⟩ n fun _ _ => rfl
  have h₂ := h₁.snoc (c := .newPg []) ⟨List.nodup_nil, fun f => by simp [afterRounds]⟩
    (exec_newPg_free rfl Nat.one_pos rfl [])
  refine ⟨_, _, _, h₂, ?_, rfl, rfl, by simp [afterRounds, firstPageId], by simp,
    by simp only [afterRounds, firstPageId]; rw [Int.zero_add]; exact Function.update_same _ _ _,
    by simp [afterRounds, firstPageId, toPageId_toPageId_add],
    rfl, List.nodup_singleton 0, fun f => ?_⟩
  · simp only [allocations_nil, zero_add] at hn
    rw [← hn]; exact allocations_append_some rfl
  · rcases eq_or_ne f 0 with rfl | hf <;> simp [*, afterRounds]

/-! ## Results -/

/-- While fewer than `2 ^ 31` pages have been allocated, so that no `next_page_id_++` has
wrapped, the counter counts them and the ids that `NewPgImp` handed out are
`0, 1, …, next_page_id_ - 1`, in order: pairwise distinct, non-negative, below `2 ^ 31` and
never `INVALID_PAGE_ID`; and the id that a further `NewPgImp` allocates is not resident. -/
theorem new_page_ids_distinct (h : Run cs outs s) (hn : allocations outs < 2 ^ 31) :
    s.nextPageId = allocations outs ∧
      outs.filterMap BpmReply.newPageId = (List.range (allocations outs)).map ((↑) : Nat → Int) ∧
      (outs.filterMap BpmReply.newPageId).Nodup ∧
      (∀ p ∈ outs.filterMap BpmReply.newPageId, 0 ≤ p ∧ p < 2 ^ 31 ∧ p ≠ invalidPageId) ∧
      ∀ order out s', s.exec (.newPg order) = .ok (out, s') →
        ∀ p, out.newPageId = some p → s.pageTable p = none := by
  have hids : outs.filterMap BpmReply.newPageId =
      (List.range (allocations outs)).map ((↑) : Nat → Int) := by
    rw [h.newPageIds_eq.2]
    refine List.map_congr_left fun i hi => ?_
    have := List.mem_range.1 hi
    exact toPageId_of_mem (by omega) (by omega)
  refine ⟨h.nextPageId_eq hn, hids, ?_, fun p hp => ?_, fun order out s' he p hp => ?_⟩
  · rw [hids]; exact (List.nodup_range _).map fun _ _ => Int.ofNat.inj
  · rw [hids] at hp
    obtain ⟨i, hi, rfl⟩ := List.mem_map.1 hp
    have := List.mem_range.1 hi
    unfold invalidPageId
    omega
  · rcases exec_nextPageId he with ⟨hout, -⟩ | ⟨hout, -⟩
    · rw [hout, Option.some.injEq] at hp
      exact hp ▸ (h.inv hn).pageTable_nextPageId
    · rw [hout] at hp; cases hp

/-- A pool of one frame after `NewPgImp` and an `UnpinPgImp` of the new page. -/
theorem new_page_ids_distinct_one_round :
    ∃ s : BufferPoolManagerInstance Nat,
      Run ([] ++ [.newPg []] ++ [.unpinPg 0 false]) ([] ++ [.newPg (some (0, 0))] ++ [.flag true])
        s ∧ allocations ([] ++ [.newPg (some (0, 0))] ++ [.flag true]) < 2 ^ 31 ∧
      (s.nextPageId = allocations ([] ++ [.newPg (some (0, 0))] ++ [.flag true]) ∧
        ([] ++ [.newPg (some (0, 0))] ++ [.flag true] : List BpmReply).filterMap
          BpmReply.newPageId = (List.range (allocations
            ([] ++ [.newPg (some (0, 0))] ++ [.flag true]))).map ((↑) : Nat → Int) ∧
        (([] ++ [.newPg (some (0, 0))] ++ [.flag true] : List BpmReply).filterMap
          BpmReply.newPageId).Nodup ∧
        (∀ p ∈ ([] ++ [.newPg (some (0, 0))] ++ [.flag true] : List BpmReply).filterMap
          BpmReply.newPageId, 0 ≤ p ∧ p < 2 ^ 31 ∧ p ≠ invalidPageId) ∧
        ∀ order out s', s.exec (.newPg order) = .ok (out, s') →
          ∀ p, out.newPageId = some p → s.pageTable p = none) := by
  have h₀ := Run.init (rfl : init 1 2 (⟨fun _ => 0, []⟩ : DiskManager Nat) = _)
  have h₁ := Run.snoc (c := .newPg []) h₀ ⟨List.nodup_nil, fun f => by simp⟩ rfl
  have h₂ := Run.snoc (c := .unpinPg 0 false) h₁ trivial rfl
  exact ⟨_, h₂, by decide, new_page_ids_distinct h₂ (by decide)⟩

/-- On a pool of one frame, `2 ^ 31 + 1` rounds hand out the id `INT_MIN`: the counter wrapped
past `INT_MAX`, and the id is negative. -/
theorem new_page_id_negative_after_wrap :
    ∃ cs outs, ∃ s : BufferPoolManagerInstance Nat, Run cs outs s ∧
      allocations outs = 2 ^ 31 + 1 ∧ (-2 ^ 31 : Int) ∈ outs.filterMap BpmReply.newPageId := by
  have h₀ := Run.init (rfl : init 1 2 (⟨fun _ => 0, []⟩ : DiskManager Nat) = _)
  obtain ⟨cs, outs, h, hn⟩ := h₀.rounds ⟨rfl, by decide, rfl, rfl⟩ (2 ^ 31 + 1) fun _ _ => rfl
  rw [allocations_nil, zero_add] at hn
  refine ⟨cs, outs, _, h, hn, ?_⟩
  rw [h.newPageIds_eq.2, hn]
  exact List.mem_map.2 ⟨2 ^ 31, List.mem_range.2 (by omega), by unfold toPageId; omega⟩

/-- Over every run the frames, the free list, the replacer's records and the page table's
entries keep `FrameInv`, `Size()` counts the unpinned resident frames, and no call fails an
assertion of the replacer. While fewer than `2 ^ 31` pages have been allocated, every resident
frame moreover holds a page below the counter that the page table maps to it: `Inv`. -/
theorem reachable_pool_invariant (h : Run cs outs s) :
    s.FrameInv ∧
      s.replacer.size = (List.range s.poolSize).countP
        (fun f => f ∉ s.freeList ∧ (s.pages f).pinCount = 0) ∧
      (∀ c, s.Admissible c → ∃ out s', s.exec c = .ok (out, s')) ∧
      (allocations outs < 2 ^ 31 → s.Inv) := by
  have hF := h.reachable.frameInv
  exact ⟨hF, hF.size_eq, fun c hc => hF.exec_ok hc, h.inv⟩

/-- A pool of two frames after one `NewPgImp`. -/
theorem reachable_pool_invariant_one_page :
    ∃ s : BufferPoolManagerInstance Nat, Run ([] ++ [.newPg []]) ([] ++ [.newPg (some (0, 0))]) s ∧
      allocations ([] ++ [.newPg (some (0, 0))]) = 1 ∧
      (s.FrameInv ∧
        s.replacer.size = (List.range s.poolSize).countP
          (fun f => f ∉ s.freeList ∧ (s.pages f).pinCount = 0) ∧
        (∀ c, s.Admissible c → ∃ out s', s.exec c = .ok (out, s')) ∧
        (allocations ([] ++ [.newPg (some (0, 0))]) < 2 ^ 31 → s.Inv)) := by
  have h₀ := Run.init (rfl : init 2 2 (⟨fun _ => 0, []⟩ : DiskManager Nat) = _)
  have h₁ := Run.snoc (c := .newPg []) h₀ ⟨List.nodup_nil, fun f => by simp⟩ rfl
  exact ⟨_, h₁, rfl, reachable_pool_invariant h₁⟩

/-- On a pool of one frame, `2 ^ 31 - 1` rounds bring the counter to `INT_MAX`; the next
`NewPgImp` hands out `INT_MAX` and wraps the counter to `INT_MIN`, below the page now
resident, so that `Inv` fails. -/
theorem resident_page_above_counter :
    ∃ cs outs, ∃ s : BufferPoolManagerInstance Nat, Run cs outs s ∧ allocations outs = 2 ^ 31 ∧
      0 ∉ s.freeList ∧ (s.pages 0).pageId = 2 ^ 31 - 1 ∧ s.pageTable (2 ^ 31 - 1) = some 0 ∧
      s.nextPageId = -2 ^ 31 ∧ ¬ s.Inv := by
  obtain ⟨cs, outs, s, h, hn, hsize, hfree, hid, -, htable, hnext, -⟩ :=
    exists_run_rounds_newPg (2 ^ 31 - 1)
  have hmax : toPageId ((2 ^ 31 - 1 : Nat) : Int) = 2 ^ 31 - 1 := by unfold toPageId; omega
  have hmin : s.nextPageId = -2 ^ 31 := by rw [hnext]; unfold toPageId; omega
  refine ⟨cs, outs, s, h, hn, by simp [hfree], hid.trans hmax, hmax ▸ htable, hmin, fun hi => ?_⟩
  have hlt := (hi.resident 0 (by omega) (by simp [hfree])).pageId_lt
  rw [hid, hmax, hmin] at hlt
  omega

/-- `NewPgImp`, and `FetchPgImp` of a page that is not resident, return `nullptr` exactly when
every frame holds a pinned page, while fewer than `2 ^ 31` pages have been allocated; and
whenever they return `nullptr`, the whole pool is unchanged, and no page id is consumed. -/
theorem null_iff_all_pinned (h : Run cs outs s) (hn : allocations outs < 2 ^ 31) :
    (∀ order out s', s.Admissible (.newPg order) → s.exec (.newPg order) = .ok (out, s') →
      (out = .newPg none ↔ s.AllPinned) ∧ (out = .newPg none → s' = s)) ∧
    (∀ p order out s', s.pageTable p = none → s.Admissible (.fetchPg p order) →
      s.exec (.fetchPg p order) = .ok (out, s') →
        (out = .fetchPg none ↔ s.AllPinned) ∧ (out = .fetchPg none → s' = s)) := by
  have hi := h.inv hn
  refine ⟨fun order out s' ho he => ?_, fun p order out s' hp ho he => ?_⟩
  · obtain ⟨⟨res, s₂⟩, hn, he⟩ := map_eq_ok he; cases he
    obtain ⟨frame, s₁, ha, ⟨rfl, rfl, rfl⟩ | ⟨f, rfl, rfl, -⟩⟩ := newPgImp_eq_ok hn
    · exact ⟨⟨fun _ => (hi.acquireFrame_none_iff ho ha).1 rfl, fun _ => rfl⟩,
        fun _ => acquireFrame_none ha⟩
    · have hnot := hi.acquireFrame_none_iff ho ha
      exact ⟨⟨fun hn => (by cases hn), fun hall => (by cases hnot.2 hall)⟩,
        fun hn => (by cases hn)⟩
  · obtain ⟨⟨frame, s₂⟩, hfe, he⟩ := map_eq_ok he; cases he
    rcases fetchPgImp_eq_ok hfe with ⟨f, -, hf, -⟩ |
      ⟨-, s₁, ha, ⟨rfl, rfl⟩ | ⟨f, rfl, -⟩⟩
    · rw [hp] at hf; cases hf
    · exact ⟨⟨fun _ => (hi.acquireFrame_none_iff ho.2.2 ha).1 rfl, fun _ => rfl⟩,
        fun _ => acquireFrame_none ha⟩
    · have hnot := hi.acquireFrame_none_iff ho.2.2 ha
      exact ⟨⟨fun hn => (by cases hn), fun hall => (by cases hnot.2 hall)⟩,
        fun hn => (by cases hn)⟩

/-- A pool of one frame holding a new, pinned page. -/
theorem null_iff_all_pinned_full_pool :
    ∃ s : BufferPoolManagerInstance Nat, Run ([] ++ [.newPg []]) ([] ++ [.newPg (some (0, 0))]) s ∧
      allocations ([] ++ [.newPg (some (0, 0))]) < 2 ^ 31 ∧ s.AllPinned ∧
      ((∀ order out s', s.Admissible (.newPg order) → s.exec (.newPg order) = .ok (out, s') →
        (out = .newPg none ↔ s.AllPinned) ∧ (out = .newPg none → s' = s)) ∧
      (∀ p order out s', s.pageTable p = none → s.Admissible (.fetchPg p order) →
        s.exec (.fetchPg p order) = .ok (out, s') →
          (out = .fetchPg none ↔ s.AllPinned) ∧ (out = .fetchPg none → s' = s))) := by
  have h₀ := Run.init (rfl : init 1 2 (⟨fun _ => 0, []⟩ : DiskManager Nat) = _)
  have h₁ := Run.snoc (c := .newPg []) h₀ ⟨List.nodup_nil, fun f => by simp⟩ rfl
  refine ⟨_, h₁, by decide, fun f hf => ?_, null_iff_all_pinned h₁ (by decide)⟩
  obtain rfl : f = 0 := by simpa using hf
  exact ⟨by decide, by decide⟩

/-- On a pool of one frame, after `2 ^ 32 - 1` rounds `NewPgImp` hands out `-1`, which is
`INVALID_PAGE_ID`, and pins it in the only frame. A further `NewPgImp` returns `nullptr`,
though the frame holds no valid page. -/
theorem new_page_null_with_invalid_page :
    ∃ cs outs, ∃ s : BufferPoolManagerInstance Nat, Run cs outs s ∧ allocations outs = 2 ^ 32 ∧
      (s.pages 0).pageId = invalidPageId ∧ 0 < (s.pages 0).pinCount ∧ ¬ s.AllPinned ∧
      s.Admissible (.newPg [0]) ∧ s.exec (.newPg [0]) = .ok (.newPg none, s) := by
  obtain ⟨cs, outs, s, h, hn, hsize, hfree, hid, hpin, -, -, hcs, ho⟩ :=
    exists_run_rounds_newPg (2 ^ 32 - 1)
  have hinvalid : (s.pages 0).pageId = invalidPageId := by
    rw [hid]; unfold toPageId invalidPageId; omega
  exact ⟨cs, outs, s, h, hn, hinvalid, by omega, fun hall => (hall 0 (by omega)).1 hinvalid, ho,
    exec_newPg_none hfree hcs [0]⟩

end BufferPoolManagerInstance

end Bustub
