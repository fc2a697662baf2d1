import Bustub.BufferPool.Basic
import Bustub.Replacer.Invariant
import Mathlib.Data.List.Nodup

/-! # The pool's invariant

Every pool reached from the constructor by admissible calls satisfies `Inv`, a statement
frame by frame: a frame on `free_list_` holds no page, no pin and no replacer record; any
other frame holds an allocated page that the page table maps to it, and a record that is
evictable exactly when the page is unpinned; the page table has no other entries. From it,
`Size()` of the replacer counts the unpinned resident frames, and no call of the replacer
fails its assertions.

`NewPgImp` and the miss path of `FetchPgImp` first take a frame (`acquireFrame`) and then
install a page in it (`installPage`). Between the two the frame is `Detached`: on no list,
in no entry of the page table, without a record. `Inv.acquireFrame` and
`Detached.installPage` are the two halves of both operations.
-/

namespace Bustub

namespace BufferPoolManagerInstance

open LRUKReplacer

/-! ## The replacer calls of the pool -/

section Access

variable {r r' : LRUKReplacer} {f : Nat}

/-- `RecordAccess` then `SetEvictable(false)`: the frame's record gains the current
timestamp and is not evictable; no other record changes. -/
theorem accessFrame_eq_ok (h : accessFrame r f = .ok r') :
    f < r.replacerSize ∧
      r'.frameMap = Function.update r.frameMap f
        (some ⟨pushTimestamp r.k r.currentTimestamp ((r.frameMap f).getD {}).accessTimestamps,
          false⟩) ∧
      r'.currentTimestamp = r.currentTimestamp + 1 ∧ r'.replacerSize = r.replacerSize ∧
      r'.k = r.k := by
  unfold accessFrame at h
  cases h₁ : r.recordAccess f with
  | error e => rw [h₁] at h; cases h
  | ok r₁ =>
    rw [h₁] at h
    obtain ⟨hf, hmap, hcur, -, hrs, hk⟩ := recordAccess_eq_ok h₁
    obtain ⟨-, ⟨rfl, hev⟩ | ⟨i, hi, -, hmap', -, hcur', hrs', hk'⟩⟩ :=
      setEvictable_eq_ok h
    · have he := hev _ (by rw [hmap, Function.update_same])
      refine ⟨hf, ?_, hcur, hrs, hk⟩
      simp only at he
      rw [hmap]; simp only [he]
    · rw [hmap, Function.update_same, Option.some.injEq] at hi
      subst hi
      exact ⟨hf, by rw [hmap', hmap, Function.update_idem], hcur'.trans hcur, hrs'.trans hrs,
        hk'.trans hk⟩

theorem accessFrame_inv (h : r.Inv) (hr : accessFrame r f = .ok r') : r'.Inv := by
  unfold accessFrame at hr
  cases h₁ : r.recordAccess f with
  | error e => rw [h₁] at hr; cases hr
  | ok r₁ => rw [h₁] at hr; exact setEvictable_inv (recordAccess_inv h h₁) hr

theorem accessFrame_ok (hf : f < r.replacerSize) : ∃ r', accessFrame r f = .ok r' := by
  simp only [accessFrame, recordAccess, if_pos hf, bind, Except.bind, setEvictable]
  split <;> (try split) <;> exact ⟨_, rfl⟩

end Access

variable {Data : Type}

/-! ## The operations, one spec lemma each -/

section Spec

variable {s s' : BufferPoolManagerInstance Data}

/-- `acquireFrame`'s three outcomes: the front of the free list; no frame, with nothing
changed; or the victim of `Evict`, written back when dirty, now clean, and out of the page
table. -/
theorem acquireFrame_eq_ok {order : List Nat} {frame : Option Nat}
    (h : s.acquireFrame order = .ok (frame, s')) :
    (∃ f rest, s.freeList = f :: rest ∧ frame = some f ∧ s' = { s with freeList := rest }) ∨
    (s.freeList = [] ∧ s.replacer.currSize = 0 ∧ frame = none ∧ s' = s) ∨
    (∃ w r', s.freeList = [] ∧ s.replacer.evict order = .ok (some w, r') ∧ frame = some w ∧
      s' = { s with
        replacer := r'
        diskManager := if (s.pages w).isDirty then
          s.diskManager.writePage (s.pages w).pageId (s.pages w).data else s.diskManager
        pages := Function.update s.pages w { s.pages w with isDirty := false }
        pageTable := Function.update s.pageTable (s.pages w).pageId none }) := by
  unfold acquireFrame at h
  split at h
  · rename_i f rest hfl; cases h; exact .inl ⟨f, rest, hfl, rfl, rfl⟩
  · rename_i hfl
    cases he : s.replacer.evict order with
    | error e => rw [he] at h; cases h
    | ok res =>
      obtain ⟨v, r'⟩ := res
      rw [he] at h
      cases v with
      | none =>
        obtain ⟨hcs, -, rfl⟩ | ⟨_, _, _, _, _, hv, _⟩ := evict_eq_ok he
        · cases h; exact .inr (.inl ⟨hfl, hcs, rfl, rfl⟩)
        · cases hv
      | some w =>
        refine .inr (.inr ⟨w, r', hfl, rfl, ?_⟩)
        simp only [bind, Except.bind] at h
        split_ifs at h with hd
        · cases h; simp [hd]
        · have hpw : Function.update s.pages w { s.pages w with isDirty := false } = s.pages := by
            conv_rhs => rw [← Function.update_eq_self w s.pages]
            cases hp : s.pages w; simp_all
          cases h; simp [hd, hpw]

/-- `acquireFrame` without a frame changes nothing. -/
theorem acquireFrame_none {order : List Nat} (h : s.acquireFrame order = .ok (none, s')) :
    s' = s := by
  rcases acquireFrame_eq_ok h with ⟨_, _, _, h', _⟩ | ⟨-, -, -, rfl⟩ |
    ⟨_, _, _, _, h', _⟩
  · cases h'
  · rfl
  · cases h'

/-- `installPage` runs the replacer calls and sets the frame, the page table and the replacer. -/
theorem installPage_eq_ok {f : Nat} {p : Int} {d : Data} (h : s.installPage f p d = .ok s') :
    ∃ r', accessFrame s.replacer f = .ok r' ∧
      s' = { s with
        pages := Function.update s.pages f ⟨p, 1, false, d⟩
        pageTable := Function.update s.pageTable p (some f)
        replacer := r' } := by
  unfold installPage at h
  cases ha : accessFrame s.replacer f with
  | error e => rw [ha] at h; cases h
  | ok r' => rw [ha] at h; cases h; exact ⟨r', rfl, rfl⟩

theorem newPgImp_eq_ok {order : List Nat} {res : Option (Int × Nat)}
    (h : s.newPgImp order = .ok (res, s')) :
    ∃ frame s₁, s.acquireFrame order = .ok (frame, s₁) ∧
      (frame = none ∧ res = none ∧ s' = s₁ ∨
        ∃ f, frame = some f ∧ res = some (s₁.nextPageId, f) ∧
          (s₁.allocatePage).2.installPage f s₁.nextPageId (s₁.pages f).data = .ok s') := by
  unfold newPgImp at h
  cases ha : s.acquireFrame order with
  | error e => rw [ha] at h; cases h
  | ok res₁ =>
    obtain ⟨frame, s₁⟩ := res₁
    rw [ha] at h
    simp only [bind, Except.bind] at h
    refine ⟨frame, s₁, rfl, ?_⟩
    cases frame with
    | none => cases h; exact .inl ⟨rfl, rfl, rfl⟩
    | some f =>
      simp only at h
      cases hi : (s₁.allocatePage).2.installPage f s₁.nextPageId (s₁.pages f).data with
      | error e => simp only [allocatePage] at hi h; rw [hi] at h; cases h
      | ok s₂ =>
        simp only [allocatePage] at hi h; rw [hi] at h; cases h
        exact .inr ⟨f, rfl, rfl, hi⟩

theorem fetchPgImp_eq_ok {p : Int} {order : List Nat} {frame : Option Nat}
    (h : s.fetchPgImp p order = .ok (frame, s')) :
    (∃ f r', s.pageTable p = some f ∧ accessFrame s.replacer f = .ok r' ∧ frame = some f ∧
      s' = { s with
        pages := Function.update s.pages f { s.pages f with pinCount := (s.pages f).pinCount + 1 }
        replacer := r' }) ∨
    (s.pageTable p = none ∧ ∃ s₁, s.acquireFrame order = .ok (frame, s₁) ∧
      (frame = none ∧ s' = s₁ ∨
        ∃ f, frame = some f ∧
          s₁.installPage f p (s₁.diskManager.readPage p) = .ok s')) := by
  unfold fetchPgImp at h
  split at h
  · rename_i f hf
    cases ha : accessFrame s.replacer f with
    | error e => rw [ha] at h; cases h
    | ok r' => rw [ha] at h; cases h; exact .inl ⟨f, r', hf, ha, rfl, rfl⟩
  · rename_i hf
    cases ha : s.acquireFrame order with
    | error e => rw [ha] at h; cases h
    | ok res₁ =>
      obtain ⟨frame₁, s₁⟩ := res₁
      rw [ha] at h
      simp only [bind, Except.bind] at h
      cases frame₁ with
      | none => cases h; exact .inr ⟨hf, _, rfl, .inl ⟨rfl, rfl⟩⟩
      | some f =>
        simp only at h
        cases hi : s₁.installPage f p (s₁.diskManager.readPage p) with
        | error e => rw [hi] at h; cases h
        | ok s₂ => rw [hi] at h; cases h; exact .inr ⟨hf, s₁, rfl, .inr ⟨f, rfl, hi⟩⟩

theorem unpinPgImp_eq_ok {p : Int} {isDirty b : Bool} (h : s.unpinPgImp p isDirty = .ok (b, s')) :
    (b = false ∧ s' = s ∧ ∀ f, s.pageTable p = some f → (s.pages f).pinCount = 0) ∨
    (b = true ∧ ∃ f r', s.pageTable p = some f ∧ 0 < (s.pages f).pinCount ∧
      (if (s.pages f).pinCount = 1 then s.replacer.setEvictable f true else .ok s.replacer) =
        .ok r' ∧
      s' = { s with
        pages := Function.update s.pages f { s.pages f with
          pinCount := (s.pages f).pinCount - 1, isDirty := (s.pages f).isDirty || isDirty }
        replacer := r' }) := by
  unfold unpinPgImp at h
  split at h
  · rename_i hf; cases h; exact .inl ⟨rfl, rfl, fun f hf' => by simp [hf] at hf'⟩
  · rename_i f hf
    dsimp only at h
    split_ifs at h with h0 h1
    · cases h; exact .inl ⟨rfl, rfl, fun f' hf' => by rw [hf] at hf'; cases hf'; exact h0⟩
    · cases hs : s.replacer.setEvictable f true with
      | error e => simp only [hs, bind, Except.bind] at h; cases h
      | ok r' =>
        simp only [hs, bind, Except.bind] at h; cases h
        exact .inr ⟨rfl, f, r', hf, Nat.pos_of_ne_zero h0, by rw [if_pos (by omega), hs], rfl⟩
    · cases h
      exact .inr ⟨rfl, f, s.replacer, hf, Nat.pos_of_ne_zero h0, by rw [if_neg (by omega)], rfl⟩

theorem deletePgImp_eq_ok [Zero Data] {p : Int} {b : Bool} (h : s.deletePgImp p = .ok (b, s')) :
    (b = true ∧ s.pageTable p = none ∧ s' = s) ∨
    (b = false ∧ ∃ f, s.pageTable p = some f ∧ 0 < (s.pages f).pinCount ∧ s' = s) ∨
    (b = true ∧ ∃ f r', s.pageTable p = some f ∧ (s.pages f).pinCount = 0 ∧
      s.replacer.remove f = .ok r' ∧
      s' = { s with
        diskManager := if (s.pages f).isDirty then s.diskManager.writePage p (s.pages f).data
          else s.diskManager
        pageTable := Function.update s.pageTable p none
        replacer := r'
        pages := Function.update s.pages f Page.empty
        freeList := s.freeList ++ [f] }) := by
  unfold deletePgImp at h
  split at h
  · rename_i hf; cases h; exact .inl ⟨rfl, hf, rfl⟩
  · rename_i f hf
    dsimp only at h
    by_cases h0 : (s.pages f).pinCount > 0
    · rw [if_pos h0] at h; cases h; exact .inr (.inl ⟨rfl, f, hf, h0, rfl⟩)
    · rw [if_neg h0] at h
      cases hr : s.replacer.remove f with
      | error e => simp only [hr, bind, Except.bind] at h; cases h
      | ok r' =>
        simp only [hr, bind, Except.bind] at h; cases h
        exact .inr (.inr ⟨rfl, f, r', hf, by omega, hr, rfl⟩)

end Spec

/-! ## The invariants -/

/-- What every run keeps, page ids aside: a frame is on the free list or resident, never
both; a free frame holds no page, no pin and no replacer record; a resident frame has a record
that is evictable exactly when its page is unpinned; every entry of the page table maps a page
to the resident frame that holds it. -/
structure FrameInv (s : BufferPoolManagerInstance Data) : Prop where
  replacer_inv : s.replacer.Inv
  replacerSize_eq : s.replacer.replacerSize = s.poolSize
  free_nodup : s.freeList.Nodup
  free_lt : ∀ f ∈ s.freeList, f < s.poolSize
  free : ∀ f ∈ s.freeList, (s.pages f).pageId = invalidPageId ∧ (s.pages f).pinCount = 0 ∧
    s.replacer.frameMap f = none
  record : ∀ f < s.poolSize, f ∉ s.freeList → ∃ info, s.replacer.frameMap f = some info ∧
    (info.evictable = true ↔ (s.pages f).pinCount = 0)
  table : ∀ p f, s.pageTable p = some f →
    f < s.poolSize ∧ f ∉ s.freeList ∧ (s.pages f).pageId = p

/-- The page of a resident frame: allocated, below the counter, and mapped to the frame. -/
structure ResidentOk (s : BufferPoolManagerInstance Data) (f : Nat) : Prop where
  pageId_nonneg : 0 ≤ (s.pages f).pageId
  pageId_lt : (s.pages f).pageId < s.nextPageId
  table_eq : s.pageTable (s.pages f).pageId = some f

/-- The invariant of the pools reached while the counter has not wrapped: `FrameInv`, and
every resident frame holds an allocated page that the page table maps to it, so that the page
table maps exactly the resident pages to their frames. -/
structure Inv (s : BufferPoolManagerInstance Data) extends FrameInv s : Prop where
  resident : ∀ f < s.poolSize, f ∉ s.freeList → s.ResidentOk f
  nextPageId_nonneg : 0 ≤ s.nextPageId

/-- `FrameInv` with frame `f` taken out: on no list, in no entry of the page table, and
without a record. This is the state between taking a frame and installing a page in it. -/
structure FrameDetached (s : BufferPoolManagerInstance Data) (f : Nat) : Prop where
  replacer_inv : s.replacer.Inv
  replacerSize_eq : s.replacer.replacerSize = s.poolSize
  free_nodup : s.freeList.Nodup
  free_lt : ∀ g ∈ s.freeList, g < s.poolSize
  free : ∀ g ∈ s.freeList, (s.pages g).pageId = invalidPageId ∧ (s.pages g).pinCount = 0 ∧
    s.replacer.frameMap g = none
  lt : f < s.poolSize
  not_free : f ∉ s.freeList
  no_entry : ∀ p, s.pageTable p ≠ some f
  no_record : s.replacer.frameMap f = none
  record : ∀ g < s.poolSize, g ∉ s.freeList → g ≠ f → ∃ info, s.replacer.frameMap g = some info ∧
    (info.evictable = true ↔ (s.pages g).pinCount = 0)
  table : ∀ p g, s.pageTable p = some g →
    g < s.poolSize ∧ g ∉ s.freeList ∧ (s.pages g).pageId = p

/-- `Inv` with frame `f` taken out. -/
structure Detached (s : BufferPoolManagerInstance Data) (f : Nat) extends FrameDetached s f :
    Prop where
  resident : ∀ g < s.poolSize, g ∉ s.freeList → g ≠ f → s.ResidentOk g
  nextPageId_nonneg : 0 ≤ s.nextPageId

/-! ## What every call keeps -/

section FrameInv

variable {s s' : BufferPoolManagerInstance Data} {f : Nat} {p : Int}

/-- Updating one frame with a page that agrees with it on a field keeps that field in every
frame. -/
theorem apply_update_pages {β : Type} (φ : Page Data → β) {pages : Nat → Page Data}
    {x : Page Data} (hx : φ x = φ (pages f)) (g : Nat) :
    φ (Function.update pages f x g) = φ (pages g) := by
  by_cases hg : g = f
  · subst hg; rw [Function.update_same, hx]
  · rw [Function.update_noteq hg]

theorem FrameInv.isEvictable_eq (h : s.FrameInv) (hf : f < s.poolSize) :
    s.replacer.isEvictable f = decide (f ∉ s.freeList ∧ (s.pages f).pinCount = 0) := by
  by_cases hfree : f ∈ s.freeList
  · simp [LRUKReplacer.isEvictable, (h.free f hfree).2.2, hfree]
  · obtain ⟨info, hinfo, hiff⟩ := h.record f hf hfree
    rw [LRUKReplacer.isEvictable, hinfo, Option.any_some]
    simp only [hfree, not_false_eq_true, true_and]
    exact Bool.eq_iff_iff.2 (hiff.trans decide_eq_true_iff.symm)

/-- `Size()` of the replacer counts the resident frames without pins. -/
theorem FrameInv.size_eq (h : s.FrameInv) :
    s.replacer.size = (List.range s.poolSize).countP
      fun f => f ∉ s.freeList ∧ (s.pages f).pinCount = 0 := by
  rw [size, h.replacer_inv.currSize_eq, evictableCount, h.replacerSize_eq]
  exact List.countP_congr fun f hf => by rw [h.isEvictable_eq (List.mem_range.1 hf)]

/-- The victim of `Evict` is a resident frame without pins, ranked first by the replacer;
its record is erased and nothing else changes. -/
theorem FrameInv.evict_victim (h : s.FrameInv) {order : List Nat} {w : Nat} {r' : LRUKReplacer}
    (ho : s.replacer.IsIterationOrder order) (he : s.replacer.evict order = .ok (some w, r')) :
    w < s.poolSize ∧ w ∉ s.freeList ∧ (s.pages w).pinCount = 0 ∧ s.replacer.IsVictim w ∧
      r'.Inv ∧ r'.frameMap = Function.update s.replacer.frameMap w none ∧
      r'.currentTimestamp = s.replacer.currentTimestamp ∧
      r'.replacerSize = s.replacer.replacerSize ∧ r'.k = s.replacer.k := by
  obtain ⟨-, hv, -⟩ | ⟨acc, w', -, hscan, hw, hv, hmap, -, hcur, hrs, hk⟩ := evict_eq_ok he
  · cases hv
  cases hv
  obtain ⟨iw, hiw, hev, -⟩ := (evictScan_victim h.replacer_inv.scannable ho hscan).2 w hw
  have hlt : w < s.poolSize :=
    h.replacerSize_eq ▸ h.replacer_inv.in_range w (by simp [hiw])
  have hnf : w ∉ s.freeList := fun hf => by simp [(h.free w hf).2.2] at hiw
  obtain ⟨info, hinfo, hiff⟩ := h.record w hlt hnf
  rw [hiw, Option.some.injEq] at hinfo; subst hinfo
  exact ⟨hlt, hnf, hiff.1 hev, (evictScan_victim h.replacer_inv.scannable ho hscan).2 w hw,
    evict_inv h.replacer_inv he, hmap, hcur, hrs, hk⟩

/-- Taking a frame leaves it detached and allocates no page id. -/
theorem FrameInv.acquireFrame (h : s.FrameInv) {order : List Nat}
    (ho : s.replacer.IsIterationOrder order) (ha : s.acquireFrame order = .ok (some f, s')) :
    s'.FrameDetached f ∧ s'.nextPageId = s.nextPageId ∧ s'.poolSize = s.poolSize := by
  rcases acquireFrame_eq_ok ha with ⟨g, rest, hfl, hfg, rfl⟩ | ⟨-, -, hnone, -⟩ |
    ⟨w, r', hfl, he, hfw, rfl⟩
  · cases hfg
    have hmem : f ∈ s.freeList := hfl ▸ List.mem_cons_self _ _
    have hnd : f ∉ rest ∧ rest.Nodup := List.nodup_cons.1 (hfl ▸ h.free_nodup)
    have hsub : ∀ g ∈ rest, g ∈ s.freeList := fun g hg => hfl ▸ List.mem_cons_of_mem _ hg
    refine ⟨⟨h.replacer_inv, h.replacerSize_eq, hnd.2, fun g hg => h.free_lt g (hsub g hg),
      fun g hg => h.free g (hsub g hg), h.free_lt f hmem, hnd.1,
      fun p hp => (h.table p f hp).2.1 hmem, (h.free f hmem).2.2,
      fun g hg hng hgf => h.record g hg (by simp [hfl, hng, hgf]), fun p g hp => ?_⟩, rfl, rfl⟩
    obtain ⟨hg, hng, hpg⟩ := h.table p g hp
    exact ⟨hg, fun hg' => hng (hsub g hg'), hpg⟩
  · cases hnone
  · cases hfw
    obtain ⟨hlt, hnf, -, -, hinv', hmap, -, hrs, -⟩ := h.evict_victim ho he
    -- the entries left are those of other frames, which keep their pages
    have htable : ∀ p g, Function.update s.pageTable (s.pages f).pageId none p = some g →
        s.pageTable p = some g ∧ p ≠ (s.pages f).pageId := fun p g hp => by
      by_cases hpq : p = (s.pages f).pageId
      · subst hpq; simp at hp
      · rw [Function.update_noteq hpq] at hp; exact ⟨hp, hpq⟩
    refine ⟨⟨hinv', hrs.trans h.replacerSize_eq, by simp [hfl], fun g hg => by simp [hfl] at hg,
      fun g hg => by simp [hfl] at hg, hlt, by simp [hfl], fun p hp => ?_, by simp [hmap],
      fun g hg _ hgf => ?_, fun p g hp => ?_⟩, rfl, rfl⟩
    · obtain ⟨hp', hpq⟩ := htable p f hp
      exact hpq ((h.table p f hp').2.2).symm
    · simpa [hmap, hgf] using h.record g hg (by simp [hfl])
    · obtain ⟨hp', -⟩ := htable p g hp
      obtain ⟨hg, -, hpg⟩ := h.table p g hp'
      exact ⟨hg, by simp [hfl], (apply_update_pages Page.pageId (by rfl) g).trans hpg⟩

theorem FrameDetached.allocatePage (h : s.FrameDetached f) : (s.allocatePage).2.FrameDetached f :=
  { h with }

/-- Installing a page into a detached frame restores `FrameInv`, whatever the page. -/
theorem FrameDetached.installPage (h : s.FrameDetached f) {d : Data}
    (hi : s.installPage f p d = .ok s') : s'.FrameInv := by
  obtain ⟨r', ha, rfl⟩ := installPage_eq_ok hi
  obtain ⟨-, hmap, -, hrs, -⟩ := accessFrame_eq_ok ha
  have hfree : ∀ g ∈ s.freeList, g ≠ f := fun g hg hgf => h.not_free (hgf ▸ hg)
  refine ⟨accessFrame_inv h.replacer_inv ha, hrs.trans h.replacerSize_eq, h.free_nodup, h.free_lt,
    fun g hg => ?_, fun g hg hng => ?_, fun q g hq => ?_⟩
  · simpa [hmap, hfree g hg] using h.free g hg
  · by_cases hgf : g = f
    · subst hgf
      exact ⟨_, (congrFun hmap g).trans (Function.update_same _ _ _), by simp⟩
    · simpa [hmap, hgf] using h.record g hg hng hgf
  · by_cases hqp : q = p
    · subst hqp; simp only [Function.update_same, Option.some.injEq] at hq; subst hq
      exact ⟨h.lt, h.not_free, by simp⟩
    · replace hq := (Function.update_noteq hqp _ _).symm.trans hq
      obtain ⟨hg, hng, hpg⟩ := h.table q g hq
      have hgf : g ≠ f := fun hgf => h.no_entry q (hgf ▸ hq)
      exact ⟨hg, hng, by simpa [hgf] using hpg⟩

/-- A hit of `FetchPgImp` keeps `FrameInv`: one more pin, and a record that is not evictable. -/
theorem FrameInv.fetchHit (h : s.FrameInv) (hf : s.pageTable p = some f) {r' : LRUKReplacer}
    (ha : accessFrame s.replacer f = .ok r') :
    ({ s with
      pages := Function.update s.pages f { s.pages f with pinCount := (s.pages f).pinCount + 1 }
      replacer := r' } : BufferPoolManagerInstance Data).FrameInv := by
  obtain ⟨-, hmap, -, hrs, -⟩ := accessFrame_eq_ok ha
  obtain ⟨-, hfnf, -⟩ := h.table p f hf
  have hfree : ∀ g ∈ s.freeList, g ≠ f := fun g hg hgf => hfnf (hgf ▸ hg)
  refine ⟨accessFrame_inv h.replacer_inv ha, hrs.trans h.replacerSize_eq, h.free_nodup, h.free_lt,
    fun g hg => by simpa [hmap, hfree g hg] using h.free g hg, fun g hg hng => ?_,
    fun q g hq => ?_⟩
  · by_cases hgf : g = f
    · subst hgf; exact ⟨_, (congrFun hmap g).trans (Function.update_same _ _ _), by simp⟩
    · simpa [hmap, hgf] using h.record g hg hng
  · obtain ⟨hg, hng, hpg⟩ := h.table q g hq
    exact ⟨hg, hng, (apply_update_pages Page.pageId (by rfl) g).trans hpg⟩

/-- A successful `UnpinPgImp` keeps `FrameInv`: one pin less, and the record evictable when
none is left. -/
theorem FrameInv.unpin (h : s.FrameInv) (hf : s.pageTable p = some f)
    (h0 : 0 < (s.pages f).pinCount) {isDirty : Bool} {r' : LRUKReplacer}
    (hr : (if (s.pages f).pinCount = 1 then s.replacer.setEvictable f true else .ok s.replacer) =
      .ok r') :
    ({ s with
      pages := Function.update s.pages f { s.pages f with
        pinCount := (s.pages f).pinCount - 1, isDirty := (s.pages f).isDirty || isDirty }
      replacer := r' } : BufferPoolManagerInstance Data).FrameInv := by
  obtain ⟨hflt, hfnf, -⟩ := h.table p f hf
  obtain ⟨info, hinfo, hiff⟩ := h.record f hflt hfnf
  -- what the replacer call did: the record of `f` only, made evictable at zero pins
  have hrep : r'.Inv ∧ r'.replacerSize = s.replacer.replacerSize ∧
      (∀ g ≠ f, r'.frameMap g = s.replacer.frameMap g) ∧
      ∃ info', r'.frameMap f = some info' ∧
        (info'.evictable = true ↔ (s.pages f).pinCount = 1) := by
    split_ifs at hr with h1
    · refine ⟨setEvictable_inv h.replacer_inv hr, ?_⟩
      obtain ⟨-, ⟨rfl, hev⟩ | ⟨i, hi, -, hmap, -, -, hrs, -⟩⟩ := setEvictable_eq_ok hr
      · exact ⟨rfl, fun _ _ => rfl, info, hinfo, by simp [hev info hinfo, h1]⟩
      · exact ⟨hrs, fun g hg => by simp [hmap, hg], _,
          (congrFun hmap f).trans (Function.update_same _ _ _), by simp [h1]⟩
    · cases hr
      exact ⟨h.replacer_inv, rfl, fun _ _ => rfl, info, hinfo, by rw [hiff]; omega⟩
  obtain ⟨hinv', hrs, hother, info', hinfo', hiff'⟩ := hrep
  have hfree : ∀ g ∈ s.freeList, g ≠ f := fun g hg hgf => hfnf (hgf ▸ hg)
  refine ⟨hinv', hrs.trans h.replacerSize_eq, h.free_nodup, h.free_lt,
    fun g hg => by simpa [hother g (hfree g hg), hfree g hg] using h.free g hg, fun g hg hng => ?_,
    fun q g hq => ?_⟩
  · by_cases hgf : g = f
    · subst hgf; exact ⟨info', hinfo', by rw [hiff']; simp; omega⟩
    · simpa [hother g hgf, hgf] using h.record g hg hng
  · obtain ⟨hg, hng, hpg⟩ := h.table q g hq
    exact ⟨hg, hng, (apply_update_pages Page.pageId (by rfl) g).trans hpg⟩

/-- A `DeletePgImp` that frees a frame keeps `FrameInv`: the frame is reset, without a record,
at the end of the free list, and its page leaves the page table. -/
theorem FrameInv.delete [Zero Data] (h : s.FrameInv) (hf : s.pageTable p = some f)
    {r' : LRUKReplacer} (hr : s.replacer.remove f = .ok r') (d : DiskManager Data) :
    ({ s with
      diskManager := d
      pageTable := Function.update s.pageTable p none
      replacer := r'
      pages := Function.update s.pages f Page.empty
      freeList := s.freeList ++ [f] } : BufferPoolManagerInstance Data).FrameInv := by
  obtain ⟨hflt, hfnf, hpf⟩ := h.table p f hf
  obtain ⟨info, hinfo, -⟩ := h.record f hflt hfnf
  obtain ⟨-, ⟨hnone, -⟩ | ⟨i, -, -, hmap, -, -, hrs, -⟩⟩ := remove_eq_ok hr
  · simp [hinfo] at hnone
  have hnd : (s.freeList ++ [f]).Nodup :=
    List.nodup_append.2 ⟨h.free_nodup, List.nodup_singleton f, by simpa using hfnf⟩
  refine ⟨remove_inv h.replacer_inv hr, hrs.trans h.replacerSize_eq, hnd, fun g hg => ?_,
    fun g hg => ?_, fun g hg hng => ?_, fun q g hq => ?_⟩
  · rcases List.mem_append.1 hg with hg | hg
    · exact h.free_lt g hg
    · rw [List.mem_singleton.1 hg]; exact hflt
  · rcases List.mem_append.1 hg with hg | hg
    · have hgf : g ≠ f := fun hgf => hfnf (hgf ▸ hg)
      simpa [hmap, hgf] using h.free g hg
    · rw [List.mem_singleton.1 hg]; simp [hmap, Page.empty]
  · have hgf : g ≠ f := fun hgf => hng (by simp [hgf])
    simpa [hmap, hgf] using h.record g hg fun hg' => hng (List.mem_append_left _ hg')
  · by_cases hqp : q = p
    · subst hqp; simp at hq
    · replace hq := (Function.update_noteq hqp _ _).symm.trans hq
      obtain ⟨hg, hng, hpg⟩ := h.table q g hq
      have hgf : g ≠ f := fun hgf => hqp (hpg.symm.trans (hgf ▸ hpf))
      exact ⟨hg, by simp [hng, hgf], by simpa [hgf] using hpg⟩

/-- `FrameInv` reads a frame's page id and pins only: changing dirty flags, data, the disk or
the counter keeps it. -/
theorem FrameInv.of_pages (h : s.FrameInv)
    (hsame : ∀ g, (s'.pages g).pageId = (s.pages g).pageId ∧
      (s'.pages g).pinCount = (s.pages g).pinCount)
    (hsize : s'.poolSize = s.poolSize) (htable : s'.pageTable = s.pageTable)
    (hrep : s'.replacer = s.replacer) (hfree : s'.freeList = s.freeList) : s'.FrameInv := by
  refine ⟨hrep ▸ h.replacer_inv, by rw [hrep, hsize]; exact h.replacerSize_eq,
    hfree ▸ h.free_nodup, fun g hg => ?_, fun g hg => ?_, fun g hg hng => ?_, fun q g hq => ?_⟩
  · rw [hsize]; exact h.free_lt g (hfree ▸ hg)
  · rw [(hsame g).1, (hsame g).2, hrep]; exact h.free g (hfree ▸ hg)
  · rw [(hsame g).2, hrep]; exact h.record g (hsize ▸ hg) (hfree ▸ hng)
  · obtain ⟨hg, hng, hpg⟩ := h.table q g (htable ▸ hq)
    exact ⟨hsize ▸ hg, hfree ▸ hng, (hsame g).1.trans hpg⟩

theorem flushFrame_same (s : BufferPoolManagerInstance Data) (i g : Nat) :
    ((s.flushFrame i).pages g).pageId = (s.pages g).pageId ∧
      ((s.flushFrame i).pages g).pinCount = (s.pages g).pinCount := by
  unfold flushFrame
  dsimp only
  split_ifs
  · exact ⟨apply_update_pages Page.pageId (by rfl) g,
      apply_update_pages Page.pinCount (by rfl) g⟩
  · exact ⟨rfl, rfl⟩

/-- A turn of `FlushAllPgsImp` changes the disk and one dirty flag at most. -/
theorem flushFrame_eq (s : BufferPoolManagerInstance Data) (i : Nat) :
    ∃ d pages, s.flushFrame i = { s with diskManager := d, pages := pages } := by
  unfold flushFrame
  dsimp only
  split_ifs
  · exact ⟨_, _, rfl⟩
  · exact ⟨s.diskManager, s.pages, rfl⟩

/-- `FlushAllPgsImp` changes the disk and dirty flags only: every page keeps its id and its
pins. -/
theorem flushAllPgsImp_same (s : BufferPoolManagerInstance Data) :
    (∀ g, (s.flushAllPgsImp.pages g).pageId = (s.pages g).pageId ∧
      (s.flushAllPgsImp.pages g).pinCount = (s.pages g).pinCount) ∧
    ∃ d pages, s.flushAllPgsImp = { s with diskManager := d, pages := pages } := by
  unfold BufferPoolManagerInstance.flushAllPgsImp
  generalize List.range s.poolSize = l
  induction l generalizing s with
  | nil => exact ⟨fun _ => ⟨rfl, rfl⟩, s.diskManager, s.pages, rfl⟩
  | cons i l ih =>
    obtain ⟨hsame, d, pages, he⟩ := ih (s.flushFrame i)
    obtain ⟨d', pages', he'⟩ := flushFrame_eq s i
    refine ⟨fun g => ⟨(hsame g).1.trans (flushFrame_same s i g).1,
      (hsame g).2.trans (flushFrame_same s i g).2⟩, d, pages, ?_⟩
    rw [List.foldl_cons, he, he']

/-- `FlushPgImp` changes the disk and one dirty flag at most. -/
theorem flushPgImp_same (s : BufferPoolManagerInstance Data) (p : Int) :
    (∀ g, ((s.flushPgImp p).2.pages g).pageId = (s.pages g).pageId ∧
      ((s.flushPgImp p).2.pages g).pinCount = (s.pages g).pinCount) ∧
    ∃ d pages, (s.flushPgImp p).2 = { s with diskManager := d, pages := pages } := by
  unfold BufferPoolManagerInstance.flushPgImp
  split_ifs
  · exact ⟨fun _ => ⟨rfl, rfl⟩, s.diskManager, s.pages, rfl⟩
  · split
    · exact ⟨fun _ => ⟨rfl, rfl⟩, s.diskManager, s.pages, rfl⟩
    · exact ⟨fun g => ⟨apply_update_pages Page.pageId (by rfl) g,
        apply_update_pages Page.pinCount (by rfl) g⟩, _, _, rfl⟩

theorem FrameInv.flushAllPgsImp (h : s.FrameInv) : s.flushAllPgsImp.FrameInv := by
  obtain ⟨hsame, d, pages, he⟩ := flushAllPgsImp_same s
  rw [he] at hsame ⊢
  exact h.of_pages hsame rfl rfl rfl rfl

theorem FrameInv.flushPgImp (h : s.FrameInv) : (s.flushPgImp p).2.FrameInv := by
  obtain ⟨hsame, d, pages, he⟩ := flushPgImp_same s p
  rw [he] at hsame ⊢
  exact h.of_pages hsame rfl rfl rfl rfl

/-- Every admissible call keeps `FrameInv`, whatever page id it hands out. -/
theorem FrameInv.exec [Zero Data] (h : s.FrameInv) {c : BpmCall} (hc : s.Admissible c)
    {out : BpmReply} (he : s.exec c = .ok (out, s')) : s'.FrameInv := by
  cases c with
  | newPg order =>
    obtain ⟨⟨res, s₂⟩, hn, he⟩ := map_eq_ok he; cases he
    obtain ⟨frame, s₁, ha, ⟨rfl, -, rfl⟩ | ⟨f, rfl, -, hi⟩⟩ := newPgImp_eq_ok hn
    · cases acquireFrame_none ha; exact h
    · exact (h.acquireFrame hc ha).1.allocatePage.installPage hi
  | fetchPg p order =>
    obtain ⟨⟨frame, s₂⟩, hfe, he⟩ := map_eq_ok he; cases he
    rcases fetchPgImp_eq_ok hfe with ⟨f, r', hf, ha, -, rfl⟩ |
      ⟨hp, s₁, ha, ⟨rfl, rfl⟩ | ⟨f, rfl, hi⟩⟩
    · exact h.fetchHit hf ha
    · cases acquireFrame_none ha; exact h
    · exact (h.acquireFrame hc.2.2 ha).1.installPage hi
  | unpinPg p isDirty =>
    obtain ⟨⟨b, s₂⟩, hu, he⟩ := map_eq_ok he; cases he
    rcases unpinPgImp_eq_ok hu with ⟨-, rfl, -⟩ | ⟨-, f, r', hf, h0, hr, rfl⟩
    · exact h
    · exact h.unpin hf h0 hr
  | flushPg p => cases he; exact h.flushPgImp
  | flushAllPgs => cases he; exact h.flushAllPgsImp
  | deletePg p =>
    obtain ⟨⟨b, s₂⟩, hdel, he⟩ := map_eq_ok he; cases he
    rcases deletePgImp_eq_ok hdel with ⟨-, -, rfl⟩ | ⟨-, -, -, -, rfl⟩ |
      ⟨-, f, r', hf, -, hr, rfl⟩
    · exact h
    · exact h
    · exact h.delete hf hr _

theorem init_frameInv [Zero Data] {poolSize replacerK : Nat} {d : DiskManager Data}
    (h : init poolSize replacerK d = .ok s) : s.FrameInv := by
  unfold init at h
  cases hr : LRUKReplacer.init poolSize replacerK with
  | error e => rw [hr] at h; cases h
  | ok r =>
    rw [hr] at h; cases h
    have hsize : r.replacerSize = poolSize ∧ r.frameMap = fun _ => none := by
      unfold LRUKReplacer.init at hr; split at hr
      · cases hr; exact ⟨rfl, rfl⟩
      · cases hr
    exact ⟨LRUKReplacer.init_inv hr, hsize.1, List.nodup_range _, fun f hf => List.mem_range.1 hf,
      fun f _ => ⟨rfl, rfl, by rw [hsize.2]⟩, fun f hf hnf => absurd (List.mem_range.2 hf) hnf,
      fun p f hp => (by cases hp)⟩

/-- Every reachable pool satisfies `FrameInv`: no run, however long, breaks the frames, the
free list, the replacer's records or the page table's entries. -/
theorem Reachable.frameInv [Zero Data] (h : s.Reachable) : s.FrameInv := by
  induction h with
  | init h => exact init_frameInv h
  | step _ hc he ih => exact ih.exec hc he

end FrameInv

/-! ## The page ids while the counter does not wrap -/

section Inv

variable {s s' : BufferPoolManagerInstance Data} {f : Nat} {p : Int}

/-- A resident frame's page stays allocated and mapped to it when its id and its entry in
the page table are unchanged and the counter does not go down. -/
theorem ResidentOk.congr (h : s.ResidentOk f) (hpage : (s'.pages f).pageId = (s.pages f).pageId)
    (hnext : s.nextPageId ≤ s'.nextPageId)
    (htable : s'.pageTable (s.pages f).pageId = s.pageTable (s.pages f).pageId) :
    s'.ResidentOk f :=
  ⟨hpage ▸ h.pageId_nonneg, hpage ▸ h.pageId_lt.trans_le hnext, by rw [hpage, htable, h.table_eq]⟩

/-- `Inv` reads of a frame only its page id: a call that keeps `FrameInv`, every page id, the
page table, the free list and the counter keeps `Inv`. -/
theorem Inv.of_frameInv (h : s.Inv) (h' : s'.FrameInv)
    (hpage : ∀ g, (s'.pages g).pageId = (s.pages g).pageId) (hsize : s'.poolSize = s.poolSize)
    (htable : s'.pageTable = s.pageTable) (hfree : s'.freeList = s.freeList)
    (hnext : s'.nextPageId = s.nextPageId) : s'.Inv :=
  ⟨h', fun g hg hng => (h.resident g (hsize ▸ hg) (hfree ▸ hng)).congr (hpage g) hnext.ge
    (by rw [htable]), hnext ▸ h.nextPageId_nonneg⟩

/-- A change of the frames' data and dirty flags alone keeps `Inv`. -/
theorem Inv.of_pages (h : s.Inv)
    (hsame : ∀ g, (s'.pages g).pageId = (s.pages g).pageId ∧
      (s'.pages g).pinCount = (s.pages g).pinCount)
    (hsize : s'.poolSize = s.poolSize) (htable : s'.pageTable = s.pageTable)
    (hrep : s'.replacer = s.replacer) (hfree : s'.freeList = s.freeList)
    (hnext : s'.nextPageId = s.nextPageId) : s'.Inv :=
  h.of_frameInv (h.toFrameInv.of_pages hsame hsize htable hrep hfree) (fun g => (hsame g).1) hsize
    htable hfree hnext

/-- Taking a frame leaves it detached, allocates no page id and adds no entry. -/
theorem Inv.acquireFrame (h : s.Inv) {order : List Nat} (ho : s.replacer.IsIterationOrder order)
    (ha : s.acquireFrame order = .ok (some f, s')) :
    s'.Detached f ∧ s'.nextPageId = s.nextPageId ∧ s'.poolSize = s.poolSize ∧
      ∀ p, s.pageTable p = none → s'.pageTable p = none := by
  obtain ⟨hd, -⟩ := h.toFrameInv.acquireFrame ho ha
  rcases acquireFrame_eq_ok ha with ⟨g, rest, hfl, hfg, rfl⟩ | ⟨-, -, hnone, -⟩ |
    ⟨w, r', hfl, he, hfw, rfl⟩
  · cases hfg
    refine ⟨⟨hd, fun g hg hng hgf =>
      (h.resident g hg (by simp [hfl, hng, hgf])).congr rfl le_rfl rfl, h.nextPageId_nonneg⟩,
      rfl, rfl, fun _ hp => hp⟩
  · cases hnone
  · cases hfw
    obtain ⟨hlt, hnf, -⟩ := h.evict_victim ho he
    have hq := (h.resident f hlt hnf).table_eq
    refine ⟨⟨hd, fun g hg hng hgf => ?_, h.nextPageId_nonneg⟩, rfl, rfl, fun p hp => ?_⟩
    · have hres := h.resident g hg (by simp [hfl])
      refine hres.congr (apply_update_pages Page.pageId (by rfl) g) le_rfl
        (Function.update_noteq (fun hpq => ?_) _ _)
      exact hgf (Option.some.inj ((hres.table_eq.symm.trans (hpq ▸ hq))))
    · by_cases hpq : p = (s.pages f).pageId
      · subst hpq; exact Function.update_same _ _ _
      · exact (Function.update_noteq hpq _ _).trans hp

theorem Detached.pageTable_nextPageId (h : s.Detached f) : s.pageTable s.nextPageId = none := by
  cases hp : s.pageTable s.nextPageId with
  | none => rfl
  | some g =>
    obtain ⟨hg, hng, hpg⟩ := h.table _ g hp
    have hgf : g ≠ f := fun hgf => h.no_entry _ (hgf ▸ hp)
    have := (h.resident g hg hng hgf).pageId_lt
    omega

/-- Below `INT_MAX`, `next_page_id_++` is the increment. -/
theorem allocatePage_nextPageId (h0 : 0 ≤ s.nextPageId) (hwrap : s.nextPageId + 1 < 2 ^ 31) :
    (s.allocatePage).2.nextPageId = s.nextPageId + 1 :=
  toPageId_of_mem (by omega) hwrap

/-- An allocation that does not wrap the counter keeps every resident page below it. -/
theorem Detached.allocatePage (h : s.Detached f) (hwrap : s.nextPageId + 1 < 2 ^ 31) :
    (s.allocatePage).2.Detached f :=
  have hnext : s.nextPageId ≤ (s.allocatePage).2.nextPageId :=
    (allocatePage_nextPageId h.nextPageId_nonneg hwrap).symm ▸ Int.le_add_one le_rfl
  ⟨h.toFrameDetached.allocatePage, fun g hg hng hgf =>
    (h.resident g hg hng hgf).congr rfl hnext rfl, h.nextPageId_nonneg.trans hnext⟩

/-- Installing a page with an allocated id that is not resident into a detached frame
restores `Inv`. -/
theorem Detached.installPage (h : s.Detached f) (hp : s.pageTable p = none) (h0 : 0 ≤ p)
    (hlt : p < s.nextPageId) {d : Data} (hi : s.installPage f p d = .ok s') : s'.Inv := by
  have hF := h.toFrameDetached.installPage hi
  obtain ⟨r', -, rfl⟩ := installPage_eq_ok hi
  refine ⟨hF, fun g hg hng => ?_, h.nextPageId_nonneg⟩
  by_cases hgf : g = f
  · subst hgf
    have hpf : Function.update s.pages g ⟨p, 1, false, d⟩ g = ⟨p, 1, false, d⟩ :=
      Function.update_same _ _ _
    refine ⟨?_, ?_, ?_⟩ <;> dsimp only <;> rw [hpf]
    exacts [h0, hlt, Function.update_same _ _ _]
  · have hres := h.resident g hg hng hgf
    refine hres.congr (by simp [hgf]) le_rfl (Function.update_noteq (fun hpq => ?_) _ _)
    rw [← hpq, hres.table_eq] at hp; cases hp

/-- A `DeletePgImp` that frees a frame keeps `Inv`: the other resident pages keep their
entries. -/
theorem Inv.delete [Zero Data] (h : s.Inv) (hf : s.pageTable p = some f) {r' : LRUKReplacer}
    (hr : s.replacer.remove f = .ok r') (d : DiskManager Data) :
    ({ s with
      diskManager := d
      pageTable := Function.update s.pageTable p none
      replacer := r'
      pages := Function.update s.pages f Page.empty
      freeList := s.freeList ++ [f] } : BufferPoolManagerInstance Data).Inv := by
  refine ⟨h.toFrameInv.delete hf hr d, fun g hg hng => ?_, h.nextPageId_nonneg⟩
  have hgf : g ≠ f := fun hgf => hng (by simp [hgf])
  have hres := h.resident g hg fun hg' => hng (List.mem_append_left _ hg')
  refine hres.congr (by simp [hgf]) le_rfl (Function.update_noteq (fun hpq => hgf ?_) _ _)
  exact Option.some.inj (hres.table_eq.symm.trans (hpq ▸ hf))

/-- Every admissible call keeps `Inv` unless it hands out the page `INT_MAX` and wraps the
counter. -/
theorem Inv.exec [Zero Data] (h : s.Inv) {c : BpmCall} (hc : s.Admissible c) {out : BpmReply}
    (he : s.exec c = .ok (out, s')) (hwrap : s.nextPageId + 1 < 2 ^ 31 ∨ out.newPageId = none) :
    s'.Inv := by
  have hF := h.toFrameInv.exec hc he
  cases c with
  | newPg order =>
    obtain ⟨⟨res, s₂⟩, hn, he⟩ := map_eq_ok he; cases he
    obtain ⟨frame, s₁, ha, ⟨rfl, -, rfl⟩ | ⟨f, rfl, rfl, hi⟩⟩ := newPgImp_eq_ok hn
    · cases acquireFrame_none ha; exact h
    · obtain ⟨hd, hnext, -⟩ := h.acquireFrame hc ha
      have hwrap' : s₁.nextPageId + 1 < 2 ^ 31 := by
        rcases hwrap with hwrap | hwrap
        · rwa [hnext]
        · cases hwrap
      exact (hd.allocatePage hwrap').installPage hd.pageTable_nextPageId hd.nextPageId_nonneg
        (by rw [allocatePage_nextPageId hd.nextPageId_nonneg hwrap']; omega) hi
  | fetchPg p order =>
    obtain ⟨h0, hlt, ho⟩ := hc
    obtain ⟨⟨frame, s₂⟩, hfe, he⟩ := map_eq_ok he; cases he
    rcases fetchPgImp_eq_ok hfe with ⟨f, r', hf, ha, -, rfl⟩ |
      ⟨hp, s₁, ha, ⟨rfl, rfl⟩ | ⟨f, rfl, hi⟩⟩
    · exact h.of_frameInv hF (apply_update_pages Page.pageId (by rfl)) rfl rfl rfl rfl
    · cases acquireFrame_none ha; exact h
    · obtain ⟨hd, hnext, -, hnone⟩ := h.acquireFrame ho ha
      exact hd.installPage (hnone p hp) h0 (hnext ▸ hlt) hi
  | unpinPg p isDirty =>
    obtain ⟨⟨b, s₂⟩, hu, he⟩ := map_eq_ok he; cases he
    rcases unpinPgImp_eq_ok hu with ⟨-, rfl, -⟩ | ⟨-, f, r', hf, h0, hr, rfl⟩
    · exact h
    · exact h.of_frameInv hF (apply_update_pages Page.pageId (by rfl)) rfl rfl rfl rfl
  | flushPg p =>
    cases he
    obtain ⟨hsame, d, pages, he⟩ := flushPgImp_same s p
    rw [he] at hsame hF ⊢
    exact h.of_frameInv hF (fun g => (hsame g).1) rfl rfl rfl rfl
  | flushAllPgs =>
    cases he
    obtain ⟨hsame, d, pages, he⟩ := flushAllPgsImp_same s
    rw [he] at hsame hF ⊢
    exact h.of_frameInv hF (fun g => (hsame g).1) rfl rfl rfl rfl
  | deletePg p =>
    obtain ⟨⟨b, s₂⟩, hdel, he⟩ := map_eq_ok he; cases he
    rcases deletePgImp_eq_ok hdel with ⟨-, -, rfl⟩ | ⟨-, -, -, -, rfl⟩ |
      ⟨-, f, r', hf, -, hr, rfl⟩
    · exact h
    · exact h
    · exact h.delete hf hr _

theorem init_inv [Zero Data] {poolSize replacerK : Nat} {d : DiskManager Data}
    (h : init poolSize replacerK d = .ok s) : s.Inv := by
  have hfree : ∀ f < s.poolSize, f ∈ s.freeList := fun f hf => by
    unfold init at h
    cases hr : LRUKReplacer.init poolSize replacerK with
    | error e => rw [hr] at h; cases h
    | ok r => rw [hr] at h; cases h; exact List.mem_range.2 hf
  have hnext : s.nextPageId = 0 := by
    unfold init at h
    cases hr : LRUKReplacer.init poolSize replacerK with
    | error e => rw [hr] at h; cases h
    | ok r => rw [hr] at h; cases h; rfl
  exact ⟨init_frameInv h, fun f hf hnf => absurd (hfree f hf) hnf, hnext.ge⟩

end Inv

/-! ## No assertion fails -/

section Ok

variable {s : BufferPoolManagerInstance Data}

theorem FrameInv.acquireFrame_ok (h : s.FrameInv) {order : List Nat}
    (ho : s.replacer.IsIterationOrder order) :
    ∃ frame s₁, s.acquireFrame order = .ok (frame, s₁) := by
  unfold BufferPoolManagerInstance.acquireFrame
  split
  · exact ⟨_, _, rfl⟩
  · obtain ⟨v, r', he⟩ := evict_ok h.replacer_inv ho
    simp only [he, bind, Except.bind]
    cases v <;> exact ⟨_, _, rfl⟩

theorem installPage_ok {f : Nat} (hf : f < s.replacer.replacerSize) (p : Int) (d : Data) :
    ∃ s', s.installPage f p d = .ok s' := by
  obtain ⟨r', ha⟩ := accessFrame_ok hf
  simp only [installPage, ha, bind, Except.bind]
  exact ⟨_, rfl⟩

theorem FrameInv.newPgImp_ok (h : s.FrameInv) {order : List Nat}
    (ho : s.replacer.IsIterationOrder order) : ∃ a, s.newPgImp order = .ok a := by
  obtain ⟨frame, s₁, ha⟩ := h.acquireFrame_ok ho
  cases frame with
  | none => simp only [newPgImp, ha, bind, Except.bind]; exact ⟨_, rfl⟩
  | some f =>
    obtain ⟨hd, -⟩ := h.acquireFrame ho ha
    obtain ⟨s', hi⟩ := installPage_ok
      (show f < ({ s₁ with nextPageId := toPageId (s₁.nextPageId + 1) } :
        BufferPoolManagerInstance Data).replacer.replacerSize from hd.replacerSize_eq ▸ hd.lt)
      s₁.nextPageId (s₁.pages f).data
    simp only [newPgImp, ha, allocatePage, bind, Except.bind, hi]
    exact ⟨_, rfl⟩

theorem FrameInv.fetchPgImp_ok (h : s.FrameInv) (p : Int) {order : List Nat}
    (ho : s.replacer.IsIterationOrder order) : ∃ a, s.fetchPgImp p order = .ok a := by
  unfold BufferPoolManagerInstance.fetchPgImp
  split
  · rename_i f hf
    obtain ⟨r', ha⟩ := accessFrame_ok (h.replacerSize_eq ▸ (h.table p f hf).1)
    simp only [ha, bind, Except.bind]
    exact ⟨_, rfl⟩
  · obtain ⟨frame, s₁, ha⟩ := h.acquireFrame_ok ho
    cases frame with
    | none => simp only [ha, bind, Except.bind]; exact ⟨_, rfl⟩
    | some f =>
      obtain ⟨hd, -⟩ := h.acquireFrame ho ha
      obtain ⟨s', hi⟩ :=
        installPage_ok (hd.replacerSize_eq ▸ hd.lt) p (s₁.diskManager.readPage p)
      simp only [ha, bind, Except.bind, hi]
      exact ⟨_, rfl⟩

theorem FrameInv.unpinPgImp_ok (h : s.FrameInv) (p : Int) (isDirty : Bool) :
    ∃ a, s.unpinPgImp p isDirty = .ok a := by
  unfold BufferPoolManagerInstance.unpinPgImp
  split
  · exact ⟨_, rfl⟩
  · rename_i f hf
    have hfr : f < s.replacer.replacerSize := h.replacerSize_eq ▸ (h.table p f hf).1
    obtain ⟨out, r', he⟩ := exec_ok h.replacer_inv
      (show s.replacer.Admissible (.setEvictable f true) from hfr)
    obtain ⟨r'', hr, -⟩ := map_eq_ok he
    dsimp only
    split_ifs
    · exact ⟨_, rfl⟩
    · simp only [hr, bind, Except.bind]; exact ⟨_, rfl⟩
    · exact ⟨_, rfl⟩

/-- `DeletePgImp` removes from the replacer only a frame whose record is evictable. -/
theorem FrameInv.deletePgImp_ok [Zero Data] (h : s.FrameInv) (p : Int) :
    ∃ a, s.deletePgImp p = .ok a := by
  unfold BufferPoolManagerInstance.deletePgImp
  split
  · exact ⟨_, rfl⟩
  · rename_i f hf
    obtain ⟨hflt, hfnf, -⟩ := h.table p f hf
    obtain ⟨info, hinfo, hiff⟩ := h.record f hflt hfnf
    dsimp only
    by_cases h0 : (s.pages f).pinCount > 0
    · rw [if_pos h0]; exact ⟨_, rfl⟩
    · rw [if_neg h0]
      obtain ⟨out, r', he⟩ := exec_ok h.replacer_inv
        (show s.replacer.Admissible (.remove f) from ⟨h.replacerSize_eq ▸ hflt, fun i hi => by
          rw [hinfo, Option.some.injEq] at hi; subst hi; exact hiff.2 (by omega)⟩)
      obtain ⟨r'', hr, -⟩ := map_eq_ok he
      simp only [hr, bind, Except.bind]
      exact ⟨_, rfl⟩

/-- From every pool satisfying `FrameInv`, every admissible call returns: no assertion of the
replacer fails. -/
theorem FrameInv.exec_ok [Zero Data] (h : s.FrameInv) {c : BpmCall} (hc : s.Admissible c) :
    ∃ out s', s.exec c = .ok (out, s') := by
  cases c with
  | newPg order =>
    obtain ⟨a, ha⟩ := h.newPgImp_ok hc
    exact ⟨_, _, by simp only [BufferPoolManagerInstance.exec, ha]; rfl⟩
  | fetchPg p order =>
    obtain ⟨a, ha⟩ := h.fetchPgImp_ok p hc.2.2
    exact ⟨_, _, by simp only [BufferPoolManagerInstance.exec, ha]; rfl⟩
  | unpinPg p isDirty =>
    obtain ⟨a, ha⟩ := h.unpinPgImp_ok p isDirty
    exact ⟨_, _, by simp only [BufferPoolManagerInstance.exec, ha]; rfl⟩
  | flushPg p => exact ⟨_, _, rfl⟩
  | flushAllPgs => exact ⟨_, _, rfl⟩
  | deletePg p =>
    obtain ⟨a, ha⟩ := h.deletePgImp_ok p
    exact ⟨_, _, by simp only [BufferPoolManagerInstance.exec, ha]; rfl⟩

/-- Every frame of the pool holds a page with a pin. -/
def AllPinned (s : BufferPoolManagerInstance Data) : Prop :=
  ∀ f < s.poolSize, (s.pages f).pageId ≠ invalidPageId ∧ 0 < (s.pages f).pinCount

/-- `acquireFrame` finds no frame exactly when every frame holds a pinned page, and then
changes nothing. -/
theorem Inv.acquireFrame_none_iff (h : s.Inv) {order : List Nat}
    (ho : s.replacer.IsIterationOrder order) {frame : Option Nat} {s' : BufferPoolManagerInstance Data}
    (ha : s.acquireFrame order = .ok (frame, s')) : frame = none ↔ s.AllPinned := by
  rcases acquireFrame_eq_ok ha with ⟨f, rest, hfl, rfl, -⟩ | ⟨hfl, hcs, rfl, -⟩ |
    ⟨w, r', -, he, rfl, -⟩
  · have hmem : f ∈ s.freeList := hfl ▸ List.mem_cons_self _ _
    exact ⟨fun hn => (by cases hn),
      fun hall => absurd (h.free f hmem).1 (hall f (h.free_lt f hmem)).1⟩
  · refine ⟨fun _ f hf => ?_, fun _ => rfl⟩
    have hres := h.resident f hf (by simp [hfl])
    have hzero : (List.range s.poolSize).countP
        (fun f => f ∉ s.freeList ∧ (s.pages f).pinCount = 0) = 0 := by
      rw [← h.size_eq]; exact hcs
    have hpin := List.countP_eq_zero.1 hzero f (List.mem_range.2 hf)
    simp only [hfl, List.not_mem_nil, not_false_eq_true, true_and, decide_eq_true_eq] at hpin
    exact ⟨by have := hres.pageId_nonneg; unfold invalidPageId; omega, Nat.pos_of_ne_zero hpin⟩
  · obtain ⟨hw, -, h0, -⟩ := h.evict_victim ho he
    exact ⟨fun hn => (by cases hn), fun hall => absurd h0 (hall w hw).2.ne'⟩

end Ok

end BufferPoolManagerInstance

end Bustub
