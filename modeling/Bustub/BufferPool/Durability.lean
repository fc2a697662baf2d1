import Bustub.BufferPool.PageIds

/-! # No declared update is lost

The pool together with callers that keep its contract: a page is modified only through a
pointer that `NewPgImp` or `FetchPgImp` returned, while its pin is held, and the `UnpinPgImp`
that releases the pin passes `is_dirty = true` when the page was modified through it. A
`Handle` is such a pointer with its pin; `Callers` is the pool with the handles its callers
hold and the last data written to each page since the page was last passed to `DeletePgImp`.

`Durable` relates them. A page with a last write holds that data in its frame while it is
resident, and on disk as well unless its frame is dirty or a holder has written it and not
yet released it; while it is not resident, the disk holds that data. Every step that does not
take the page-id counter past `2 ^ 31 - 1` keeps `Durable` (`Durable.step`), so while fewer
than `2 ^ 31` pages have been handed out (`Reachable.durable`), `FetchPgImp` of a written page
returns its last data
(`fetch_returns_last_write`), whether the page stayed resident or was evicted, flushed and
read back. `DeletePgImp` writes a dirty frame back before freeing it, so deleting a page loses
nothing either: the disk keeps its last write, and a fetch right after reads it back
(`delete_keeps_last_write`).

Past that bound the 32-bit counter wraps and `NewPgImp` hands out an id that is still
resident with a pin held; the table then maps it to the new frame, and a fetch misses a write
made through the old handle (`fetch_misses_last_write_after_wrap`).

What callers do with a pointer after releasing its pin is outside the contract: a caller
writes a page only through a handle it holds.
-/

namespace Bustub

/-- A pointer a caller got from `NewPgImp` or `FetchPgImp`, with the pin it holds, and
whether the caller has written the page through it. -/
structure Handle where
  pageId : Int
  frameId : Nat
  wrote : Bool

/-- The pool, the handles its callers hold, the last data written to each page since it was
last passed to `DeletePgImp`, and the number of pages `NewPgImp` has handed out. -/
structure Callers (Data : Type) where
  pool : BufferPoolManagerInstance Data
  handles : List Handle
  latest : Int → Option Data
  allocated : Nat

namespace Callers

open BufferPoolManagerInstance LRUKReplacer

variable {Data : Type}

/-- The steps of callers that keep the contract: calls on the pool (a returned page comes
with a handle), writes through a held handle, and unpins that release a held handle, dirty
when it was written through. -/
inductive Step [Zero Data] : Callers Data → Callers Data → Prop
  | newPg {c : Callers Data} {order : List Nat} {page : Option (Int × Nat)}
      {pool' : BufferPoolManagerInstance Data} :
      c.pool.Admissible (.newPg order) → c.pool.exec (.newPg order) = .ok (.newPg page, pool') →
      Step c { c with
        pool := pool'
        handles := c.handles ++ (page.map fun x => (⟨x.1, x.2, false⟩ : Handle)).toList
        allocated := if page = none then c.allocated else c.allocated + 1 }
  | fetchPg {c : Callers Data} {p : Int} {order : List Nat} {frame : Option Nat}
      {pool' : BufferPoolManagerInstance Data} :
      c.pool.Admissible (.fetchPg p order) →
      c.pool.exec (.fetchPg p order) = .ok (.fetchPg frame, pool') →
      Step c { c with
        pool := pool'
        handles := c.handles ++ (frame.map fun f => (⟨p, f, false⟩ : Handle)).toList }
  | write {c : Callers Data} {i : Nat} (hi : i < c.handles.length) (d : Data) :
      Step c { c with
        pool := { c.pool with
          pages := Function.update c.pool.pages c.handles[i].frameId
            { c.pool.pages c.handles[i].frameId with data := d } }
        handles := c.handles.set i { c.handles[i] with wrote := true }
        latest := Function.update c.latest c.handles[i].pageId (some d) }
  | unpinPg {c : Callers Data} {i : Nat} (hi : i < c.handles.length) {isDirty : Bool}
      {out : BpmReply} {pool' : BufferPoolManagerInstance Data} :
      (c.handles[i].wrote = true → isDirty = true) →
      c.pool.exec (.unpinPg c.handles[i].pageId isDirty) = .ok (out, pool') →
      Step c { c with pool := pool', handles := c.handles.eraseIdx i }
  | flushPg {c : Callers Data} {p : Int} {out : BpmReply} {pool' : BufferPoolManagerInstance Data} :
      c.pool.exec (.flushPg p) = .ok (out, pool') → Step c { c with pool := pool' }
  | flushAllPgs {c : Callers Data} {out : BpmReply} {pool' : BufferPoolManagerInstance Data} :
      c.pool.exec .flushAllPgs = .ok (out, pool') → Step c { c with pool := pool' }
  | deletePg {c : Callers Data} {p : Int} {out : BpmReply}
      {pool' : BufferPoolManagerInstance Data} :
      c.pool.exec (.deletePg p) = .ok (out, pool') →
      Step c { c with pool := pool', latest := Function.update c.latest p none }

/-- Callers of a pool as constructed, holding nothing and having written nothing, after any
steps. -/
inductive Reachable [Zero Data] : Callers Data → Prop
  | init {poolSize replacerK : Nat} {diskManager : DiskManager Data}
      {pool : BufferPoolManagerInstance Data} :
      BufferPoolManagerInstance.init poolSize replacerK diskManager = .ok pool →
      Reachable ⟨pool, [], fun _ => none, 0⟩
  | step {c c' : Callers Data} : Reachable c → Step c c' → Reachable c'

/-- The handles on frame `f`. -/
def holders (c : Callers Data) (f : Nat) : Nat := c.handles.countP (·.frameId = f)

/-- The pool keeps its invariant, handles hold pins on resident pages, and every page with a
last write holds it in its frame or on disk. -/
structure Durable (c : Callers Data) : Prop where
  inv : c.pool.Inv
  handle_table : ∀ h ∈ c.handles, c.pool.pageTable h.pageId = some h.frameId
  pins : ∀ f < c.pool.poolSize, f ∉ c.pool.freeList → (c.pool.pages f).pinCount = c.holders f
  written_lt : ∀ p d, c.latest p = some d → p < c.pool.nextPageId
  resident : ∀ p d f, c.latest p = some d → c.pool.pageTable p = some f →
    (c.pool.pages f).data = d ∧
      (c.pool.diskManager.readPage p = d ∨ (c.pool.pages f).isDirty = true ∨
        ∃ h ∈ c.handles, h.pageId = p ∧ h.wrote = true)
  absent : ∀ p d, c.latest p = some d → c.pool.pageTable p = none →
    c.pool.diskManager.readPage p = d

/-! ## Releasing and marking one handle -/

section Handles

variable {α : Type} {l : List α} {i : Nat}

/-- A list without its `i`-th element, and that element. -/
theorem eraseIdx_decompose (hi : i < l.length) :
    l = l.take i ++ l[i] :: l.drop (i + 1) ∧ l.eraseIdx i = l.take i ++ l.drop (i + 1) :=
  ⟨by rw [List.getElem_cons_drop, List.take_append_drop], List.eraseIdx_eq_take_drop_succ l i⟩

theorem countP_eraseIdx (P : α → Bool) (hi : i < l.length) :
    (l.eraseIdx i).countP P + (if P l[i] then 1 else 0) = l.countP P := by
  obtain ⟨hl, he⟩ := eraseIdx_decompose hi
  conv_rhs => rw [hl]
  rw [he, List.countP_append, List.countP_append, List.countP_cons]
  omega

theorem mem_eraseIdx_of_ne {x : α} (hx : x ∈ l) (hi : i < l.length) (hne : x ≠ l[i]) :
    x ∈ l.eraseIdx i := by
  obtain ⟨hl, he⟩ := eraseIdx_decompose hi
  rw [hl] at hx
  rw [he]
  simp only [List.mem_append, List.mem_cons] at hx ⊢
  tauto

theorem mem_set_of_ne {x a : α} (hx : x ∈ l) (hi : i < l.length) (hne : x ≠ l[i]) :
    x ∈ l.set i a := by
  obtain ⟨j, hj, rfl⟩ := List.mem_iff_getElem.1 hx
  have hji : i ≠ j := fun he => hne (by subst he; rfl)
  exact List.mem_iff_getElem.2 ⟨j, by simpa using hj, List.getElem_set_ne hji _⟩

end Handles

/-! ## The disk -/

@[simp] theorem readPage_writePage (d : DiskManager Data) (p q : Int) (x : Data) :
    (d.writePage p x).readPage q = if q = p then x else d.readPage q := by
  by_cases hq : q = p
  · subst hq; simp [DiskManager.readPage, DiskManager.writePage]
  · simp [DiskManager.readPage, DiskManager.writePage, hq]

/-- The disk after a frame is taken still holds every page that was not resident. -/
theorem Inv.writeBack_readPage_absent {s : BufferPoolManagerInstance Data} (h : s.Inv) {f : Nat}
    (hf : f < s.poolSize) {p : Int} (hp : s.pageTable p = none) :
    (s.writeBack f).readPage p = s.diskManager.readPage p := by
  rw [writeBack_readPage, if_neg]
  rintro ⟨hnf, -, rfl⟩
  rw [(h.resident f hf hnf).table_eq] at hp; cases hp

/-! ## The invariant is kept -/

section Durable

variable {c : Callers Data} {f : Nat} {p : Int}

/-- `Durable` does not read the count of pages handed out. -/
theorem Durable.allocated (hD : c.Durable) (k : Nat) :
    ({ c with allocated := k } : Callers Data).Durable :=
  ⟨hD.inv, hD.handle_table, hD.pins, hD.written_lt, hD.resident, hD.absent⟩

/-- A free frame, or a resident one without pins, carries no handle. -/
theorem Durable.no_handle (hD : c.Durable) (hf : f ∈ c.pool.freeList ∨
      (f < c.pool.poolSize ∧ f ∉ c.pool.freeList ∧ (c.pool.pages f).pinCount = 0)) :
    ∀ h ∈ c.handles, h.frameId ≠ f := by
  intro h hh he
  obtain ⟨hlt, hnf, -⟩ := hD.inv.table _ _ (hD.handle_table h hh)
  rw [he] at hlt hnf
  rcases hf with hf | ⟨-, -, h0⟩
  · exact hnf hf
  · have hpos : 0 < c.holders f := List.countP_pos_iff.2 ⟨h, hh, by simp [he]⟩
    rw [← hD.pins f hlt hnf, h0] at hpos
    exact absurd hpos (lt_irrefl 0)

/-- `NewPgImp` and a miss of `FetchPgImp` keep `Durable` when the page brought in holds its
last write, if it has one. -/
theorem Durable.bringIn (hD : c.Durable) {order : List Nat}
    (ho : c.pool.replacer.IsIterationOrder order) {s₁ pool' : BufferPoolManagerInstance Data}
    (ha : c.pool.acquireFrame order = .ok (some f, s₁)) (hp : c.pool.pageTable p = none)
    {n : Int} (hn : c.pool.nextPageId ≤ n) {d : Data}
    (hd : ∀ d', c.latest p = some d' → d = d')
    (hins : ({ s₁ with nextPageId := n } : BufferPoolManagerInstance Data).installPage f p d =
      .ok pool')
    (hinv : pool'.Inv) :
    ({ c with pool := pool', handles := c.handles ++ [⟨p, f, false⟩] } :
      Callers Data).Durable := by
  obtain ⟨hf, hvic, -, -, -, r', rfl, -⟩ := hD.inv.bringIn ho ha hins
  have hnoh : ∀ h ∈ c.handles, h.frameId ≠ f := hD.no_handle (by
    by_cases hm : f ∈ c.pool.freeList
    · exact .inl hm
    · exact .inr ⟨hf, hm, (hvic hm).1⟩)
  -- the page table loses the evicted page only
  have htable : ∀ q g, c.pool.pageTable q = some g → g ≠ f →
      Function.update (Function.update c.pool.pageTable (c.pool.pages f).pageId none) p (some f) q =
        some g := fun q g hq hgf => by
    have hqp : q ≠ p := fun he => by rw [he, hp] at hq; cases hq
    rw [Function.update_noteq hqp,
      Function.update_noteq (hD.inv.pageId_ne hq hf (Ne.symm hgf)).symm, hq]
  refine ⟨hinv, fun h hh => ?_, fun g hg hng => ?_, fun q d' hq => ?_, fun q d' g hq hg => ?_,
    fun q d' hq hq' => ?_⟩
  · -- handles keep their entries, and the new one has its own
    rcases List.mem_append.1 hh with hh | hh
    · exact htable _ _ (hD.handle_table h hh) (hnoh h hh)
    · rw [List.mem_singleton.1 hh]; simp
  · -- pins: one on `f`, for the new handle
    simp only [holders, List.countP_append]
    by_cases hgf : g = f
    · subst hgf
      rw [List.countP_eq_zero.2 fun h hh => by simpa using hnoh h hh]
      simp
    · have hng' : g ∉ c.pool.freeList := fun hm => hng ((List.mem_erase_of_ne hgf).2 hm)
      simp only [Function.update_noteq hgf]
      rw [hD.pins g hg hng']
      simp [holders, Ne.symm hgf]
  · exact (hD.written_lt q d' hq).trans_le hn
  · dsimp only at hg ⊢
    by_cases hqp : q = p
    · -- the page brought in holds its last write, as on disk
      subst hqp
      simp only [Function.update_same, Option.some.injEq] at hg
      subst hg
      refine ⟨by simpa using hd d' hq, .inl ?_⟩
      rw [Inv.writeBack_readPage_absent hD.inv hf hp, hD.absent q d' hq hp]
    · -- another resident page keeps its frame, data and flag
      rw [Function.update_noteq hqp] at hg
      have hqf : q ≠ (c.pool.pages f).pageId := fun he => by rw [he] at hg; simp at hg
      rw [Function.update_noteq hqf] at hg
      have hgf : g ≠ f := fun he => hqf (hD.inv.table q g hg |>.2.2 ▸ he ▸ rfl)
      obtain ⟨hdata, hdisk⟩ := hD.resident q d' g hq hg
      simp only [Function.update_noteq hgf]
      refine ⟨hdata, ?_⟩
      rw [writeBack_readPage, if_neg fun ⟨_, _, he⟩ => hqf he]
      exact hdisk.imp_right
        (.imp_right fun ⟨h, hh, hw⟩ => ⟨h, List.mem_append_left _ hh, hw⟩)
  · dsimp only at hq' ⊢
    have hqp : q ≠ p := fun he => by subst he; simp at hq'
    rw [Function.update_noteq hqp] at hq'
    rw [writeBack_readPage]
    split_ifs with hev
    · -- the evicted page was dirty: its data is written back
      obtain ⟨hnf, -, rfl⟩ := hev
      obtain ⟨hdata, -⟩ := hD.resident _ d' f hq (hD.inv.resident f hf hnf).table_eq
      exact hdata
    · by_cases hqf : q = (c.pool.pages f).pageId ∧ f ∉ c.pool.freeList
      · -- the evicted page was clean: nothing in hand had written it
        obtain ⟨rfl, hnf⟩ := hqf
        obtain ⟨-, hdisk⟩ := hD.resident _ d' f hq (hD.inv.resident f hf hnf).table_eq
        rcases hdisk with hdisk | hdisk | ⟨h, hh, hhq, -⟩
        · exact hdisk
        · exact absurd ⟨hnf, hdisk, rfl⟩ hev
        · have ht := (hD.inv.resident f hf hnf).table_eq
          rw [← hhq, hD.handle_table h hh] at ht
          exact absurd (Option.some.inj ht) (hnoh h hh)
      · refine hD.absent q d' hq ?_
        by_cases hqf' : q = (c.pool.pages f).pageId
        · have hm : f ∈ c.pool.freeList := by by_contra hm; exact hqf ⟨hqf', hm⟩
          rw [hqf', (hD.inv.free f hm).1]; exact hD.inv.pageTable_invalid
        · rwa [Function.update_noteq hqf'] at hq'

/-- A hit of `FetchPgImp` keeps `Durable`: one more pin, for the new handle. -/
theorem Durable.hit (hD : c.Durable) (hf : c.pool.pageTable p = some f) {r' : LRUKReplacer}
    (hinv : ({ c.pool with
      pages := Function.update c.pool.pages f
        { c.pool.pages f with pinCount := (c.pool.pages f).pinCount + 1 }
      replacer := r' } : BufferPoolManagerInstance Data).Inv) :
    ({ c with
      pool := { c.pool with
        pages := Function.update c.pool.pages f
          { c.pool.pages f with pinCount := (c.pool.pages f).pinCount + 1 }
        replacer := r' }
      handles := c.handles ++ [⟨p, f, false⟩] } : Callers Data).Durable := by
  refine ⟨hinv, fun h hh => ?_, fun g hg hng => ?_, hD.written_lt, fun q d g hq hg => ?_,
    hD.absent⟩
  · rcases List.mem_append.1 hh with hh | hh
    · exact hD.handle_table h hh
    · rw [List.mem_singleton.1 hh]; exact hf
  · dsimp only
    rw [holders, List.countP_append]
    by_cases hgf : g = f
    · subst hgf; simp [hD.pins g hg hng, holders]
    · simp [hgf, hD.pins g hg hng, holders, Ne.symm hgf]
  · obtain ⟨hdata, hdisk⟩ := hD.resident q d g hq hg
    -- data and flags are unchanged
    dsimp only
    rw [apply_update_pages Page.data (by rfl) g, apply_update_pages Page.isDirty (by rfl) g]
    exact ⟨hdata, hdisk.imp_right
      (.imp_right fun ⟨h, hh, hw⟩ => ⟨h, List.mem_append_left _ hh, hw⟩)⟩

/-- A write through a held handle keeps `Durable`: the page's last write is in its frame,
and the handle has written it. -/
theorem Durable.write (hD : c.Durable) {i : Nat} (hi : i < c.handles.length) (d : Data) :
    ({ c with
      pool := { c.pool with
        pages := Function.update c.pool.pages c.handles[i].frameId
          { c.pool.pages c.handles[i].frameId with data := d } }
      handles := c.handles.set i { c.handles[i] with wrote := true }
      latest := Function.update c.latest c.handles[i].pageId (some d) } :
        Callers Data).Durable := by
  have hmem : c.handles[i] ∈ c.handles := List.getElem_mem hi
  have ht := hD.handle_table _ hmem
  obtain ⟨hflt, hfnf, hpf⟩ := hD.inv.table _ _ ht
  refine ⟨hD.inv.of_pages (fun g => ⟨apply_update_pages Page.pageId (by rfl) g,
      apply_update_pages Page.pinCount (by rfl) g⟩) rfl rfl rfl rfl rfl, fun h hh => ?_,
    fun g hg hng => ?_,
    fun q d' hq => ?_, fun q d' g hq hg => ?_, fun q d' hq hq' => ?_⟩
  · rcases List.mem_or_eq_of_mem_set hh with hh | rfl
    · exact hD.handle_table h hh
    · exact ht
  · dsimp only
    rw [apply_update_pages Page.pinCount (by rfl) g, hD.pins g hg hng, holders, holders,
      List.countP_set _ _ _ _ hi]
    split_ifs with hfg
    · have : 0 < c.handles.countP (·.frameId = g) :=
        List.countP_pos_iff.2 ⟨_, hmem, by simpa using hfg⟩
      omega
    · rfl
  · dsimp only at hq ⊢
    by_cases hqp : q = c.handles[i].pageId
    · subst hqp; rw [← hpf]; exact (hD.inv.resident _ hflt hfnf).pageId_lt
    · rw [Function.update_noteq hqp] at hq; exact hD.written_lt q d' hq
  · dsimp only at hq hg ⊢
    by_cases hqp : q = c.handles[i].pageId
    · -- the page written: its frame holds the write, and the handle has written it
      subst hqp
      rw [ht, Option.some.injEq] at hg; subst hg
      simp only [Function.update_same, Option.some.injEq] at hq ⊢
      refine ⟨hq, .inr (.inr ⟨_, List.mem_set c.handles i hi _, rfl, rfl⟩)⟩
    · rw [Function.update_noteq hqp] at hq
      have hgf : g ≠ c.handles[i].frameId := fun he => hqp (by
        rw [← (hD.inv.table q g hg).2.2, he, hpf])
      obtain ⟨hdata, hdisk⟩ := hD.resident q d' g hq hg
      simp only [Function.update_noteq hgf]
      exact ⟨hdata, hdisk.imp_right (.imp_right fun ⟨h, hh, hhq, hw⟩ =>
        ⟨h, mem_set_of_ne hh hi fun he => hqp (he ▸ hhq).symm, hhq, hw⟩)⟩
  · dsimp only at hq hq' ⊢
    have hqp : q ≠ c.handles[i].pageId := fun he => by rw [he, ht] at hq'; cases hq'
    rw [Function.update_noteq hqp] at hq
    exact hD.absent q d' hq hq'

/-- Releasing a held handle through `UnpinPgImp` keeps `Durable`: a write through it is now
declared by the dirty flag. -/
theorem Durable.unpin (hD : c.Durable) {i : Nat} (hi : i < c.handles.length) {isDirty : Bool}
    (hw : c.handles[i].wrote = true → isDirty = true) {b : Bool}
    {pool' : BufferPoolManagerInstance Data}
    (hu : c.pool.unpinPgImp c.handles[i].pageId isDirty = .ok (b, pool')) (hinv : pool'.Inv) :
    ({ c with pool := pool', handles := c.handles.eraseIdx i } : Callers Data).Durable := by
  have hmem : c.handles[i] ∈ c.handles := List.getElem_mem hi
  have ht := hD.handle_table _ hmem
  obtain ⟨hflt, hfnf, hpf⟩ := hD.inv.table _ _ ht
  have hpos : 0 < (c.pool.pages c.handles[i].frameId).pinCount := by
    rw [hD.pins _ hflt hfnf]; exact List.countP_pos_iff.2 ⟨_, hmem, by simp⟩
  rcases unpinPgImp_eq_ok hu with ⟨-, -, h0⟩ | ⟨-, f, r', hf, -, -, rfl⟩
  · exact absurd (h0 _ ht) hpos.ne'
  rw [ht, Option.some.injEq] at hf; subst hf
  have hsub : ∀ h ∈ c.handles.eraseIdx i, h ∈ c.handles :=
    fun h hh => List.mem_of_mem_eraseIdx hh
  refine ⟨hinv, fun h hh => hD.handle_table h (hsub h hh), fun g hg hng => ?_, hD.written_lt,
    fun q d g hq hg => ?_, hD.absent⟩
  · -- one pin less on the handle's frame
    have hc := countP_eraseIdx (fun h : Handle => decide (h.frameId = g)) hi
    dsimp only
    by_cases hgf : g = c.handles[i].frameId
    · subst hgf
      simp only [Function.update_same, holders]
      have := hD.pins _ hg hng
      simp only [holders, decide_True, if_true] at this hc
      omega
    · simp only [Function.update_noteq hgf, holders]
      simp only [Ne.symm hgf, decide_False, if_false] at hc
      rw [hD.pins g hg hng, holders, ← hc]; rfl
  · obtain ⟨hdata, hdisk⟩ := hD.resident q d g hq hg
    dsimp only at hg ⊢
    by_cases hgf : g = c.handles[i].frameId
    · -- the released page: a write through the handle is declared dirty
      subst hgf
      simp only [Function.update_same]
      refine ⟨hdata, ?_⟩
      rcases hdisk with hdisk | hdisk | ⟨h, hh, hhq, hhw⟩
      · exact .inl hdisk
      · exact .inr (.inl (by simp [hdisk]))
      · by_cases hhi : h = c.handles[i]
        · subst hhi; exact .inr (.inl (by simp [hw hhw]))
        · exact .inr (.inr ⟨h, mem_eraseIdx_of_ne hh hi hhi, hhq, hhw⟩)
    · simp only [Function.update_noteq hgf]
      refine ⟨hdata, hdisk.imp_right (.imp_right fun ⟨h, hh, hhq, hhw⟩ =>
        ⟨h, mem_eraseIdx_of_ne hh hi fun he => hgf ?_, hhq, hhw⟩)⟩
      exact Option.some.inj (hg.symm.trans (by rw [← hhq, he]; exact ht))

/-- `FlushPgImp` of a resident page keeps `Durable`: the disk now holds the frame's data. -/
theorem Durable.flushPg (hD : c.Durable) (hf : c.pool.pageTable p = some f) :
    ({ c with
      pool := { c.pool with
        diskManager := c.pool.diskManager.writePage p (c.pool.pages f).data
        pages := Function.update c.pool.pages f { c.pool.pages f with isDirty := false } } } :
          Callers Data).Durable := by
  refine ⟨hD.inv.of_pages (fun g => ⟨apply_update_pages Page.pageId (by rfl) g,
      apply_update_pages Page.pinCount (by rfl) g⟩) rfl rfl rfl rfl rfl, hD.handle_table,
    fun g hg hng => ?_, hD.written_lt, fun q d g hq hg => ?_, fun q d hq hq' => ?_⟩
  · exact (apply_update_pages Page.pinCount (by rfl) g).trans (hD.pins g hg hng)
  · obtain ⟨hdata, hdisk⟩ := hD.resident q d g hq hg
    dsimp only
    by_cases hgf : g = f
    · -- the page flushed: the disk holds its data
      subst hgf
      have hqp : q = p := (hD.inv.table q g hg).2.2.symm.trans (hD.inv.table p g hf).2.2
      subst hqp
      simp [hdata]
    · have hqp : q ≠ p := fun he => hgf (Option.some.inj (hg.symm.trans (he ▸ hf)))
      simp only [Function.update_noteq hgf, readPage_writePage, hqp, if_false]
      exact ⟨hdata, hdisk⟩
  · have hqp : q ≠ p := fun he => by rw [he, hf] at hq'; cases hq'
    simp only [readPage_writePage, hqp, if_false]
    exact hD.absent q d hq hq'

theorem Durable.flushFrame (hD : c.Durable) {i : Nat} (hi : i < c.pool.poolSize) :
    ({ c with pool := c.pool.flushFrame i } : Callers Data).Durable := by
  unfold BufferPoolManagerInstance.flushFrame
  dsimp only
  split_ifs with hc
  · have hnf : i ∉ c.pool.freeList := fun hm => hc.1 (hD.inv.free i hm).1
    exact hD.flushPg (hD.inv.resident i hi hnf).table_eq
  · exact hD

/-- `FlushAllPgsImp` keeps `Durable`, one frame at a time. -/
theorem Durable.flushAllPgsImp (hD : c.Durable) :
    ({ c with pool := c.pool.flushAllPgsImp } : Callers Data).Durable := by
  have key : ∀ (l : List Nat) (c : Callers Data), c.Durable →
      (∀ i ∈ l, i < c.pool.poolSize) →
      ({ c with pool := l.foldl BufferPoolManagerInstance.flushFrame c.pool } :
        Callers Data).Durable := by
    intro l
    induction l with
    | nil => intro c hD _; exact hD
    | cons i l ih =>
      intro c hD hl
      have hsize : (c.pool.flushFrame i).poolSize = c.pool.poolSize := by
        obtain ⟨d, pages, he⟩ := flushFrame_eq c.pool i; rw [he]
      exact ih { c with pool := c.pool.flushFrame i }
        (hD.flushFrame (hl i (List.mem_cons_self _ _)))
        fun j hj => hsize ▸ hl j (List.mem_cons_of_mem _ hj)
  exact key _ c hD fun i hi => List.mem_range.1 hi

/-- Forgetting the last write of a page keeps `Durable`. -/
theorem Durable.forget (hD : c.Durable) (p : Int) :
    ({ c with latest := Function.update c.latest p none } : Callers Data).Durable := by
  have hl : ∀ q d, Function.update c.latest p none q = some d → c.latest q = some d := by
    intro q d h
    by_cases hq : q = p
    · subst hq; simp at h
    · rwa [Function.update_noteq hq] at h
  exact ⟨hD.inv, hD.handle_table, hD.pins, fun q d hq => hD.written_lt q d (hl q d hq),
    fun q d g hq => hD.resident q d g (hl q d hq), fun q d hq => hD.absent q d (hl q d hq)⟩

/-- A `DeletePgImp` that frees the frame of `p` keeps `Durable` once `p`'s last write is
forgotten: no handle is on the frame, and no other page is touched. -/
theorem Durable.delete [Zero Data] (hD : c.Durable) (hf : c.pool.pageTable p = some f)
    (h0 : (c.pool.pages f).pinCount = 0) {r' : LRUKReplacer}
    (hinv : ({ c.pool with
      diskManager := if (c.pool.pages f).isDirty then
        c.pool.diskManager.writePage p (c.pool.pages f).data else c.pool.diskManager
      pageTable := Function.update c.pool.pageTable p none
      replacer := r'
      pages := Function.update c.pool.pages f Page.empty
      freeList := c.pool.freeList ++ [f] } : BufferPoolManagerInstance Data).Inv) :
    ({ c with
      pool := { c.pool with
        diskManager := if (c.pool.pages f).isDirty then
          c.pool.diskManager.writePage p (c.pool.pages f).data else c.pool.diskManager
        pageTable := Function.update c.pool.pageTable p none
        replacer := r'
        pages := Function.update c.pool.pages f Page.empty
        freeList := c.pool.freeList ++ [f] }
      latest := Function.update c.latest p none } : Callers Data).Durable := by
  have hF := hD.forget p
  obtain ⟨hflt, hfnf, -⟩ := hD.inv.table p f hf
  have hnoh := hD.no_handle (.inr ⟨hflt, hfnf, h0⟩)
  -- another page keeps its frame and its place on disk
  have hother : ∀ q g, c.pool.pageTable q = some g → q ≠ p → g ≠ f :=
    fun q g hg hqp hgf =>
    hqp ((hD.inv.table q g hg).2.2.symm.trans (hgf ▸ (hD.inv.table p f hf).2.2))
  have hdisk : ∀ q, q ≠ p → (if (c.pool.pages f).isDirty then
      c.pool.diskManager.writePage p (c.pool.pages f).data else c.pool.diskManager).readPage q =
        c.pool.diskManager.readPage q := fun q hqp => by
    split_ifs <;> simp [hqp]
  refine ⟨hinv, fun h hh => ?_, fun g hg hng => ?_, hF.written_lt, fun q d g hq hg => ?_,
    fun q d hq hq' => ?_⟩
  · have ht := hD.handle_table h hh
    have hqp : h.pageId ≠ p := fun he => hnoh h hh (Option.some.inj (ht.symm.trans (he ▸ hf)))
    simp only [Function.update_noteq hqp]
    exact ht
  · have hgf : g ≠ f := fun he => hng (by simp [he])
    have hng' : g ∉ c.pool.freeList := fun hm => hng (List.mem_append_left _ hm)
    simp only [Function.update_noteq hgf]
    exact hD.pins g hg hng'
  · have hqp : q ≠ p := fun he => by subst he; simp at hq
    dsimp only at hq hg ⊢
    rw [Function.update_noteq hqp] at hq hg
    have hgf := hother q g hg hqp
    simp only [Function.update_noteq hgf, hdisk q hqp]
    exact hD.resident q d g hq hg
  · have hqp : q ≠ p := fun he => by subst he; simp at hq
    dsimp only at hq hq' ⊢
    rw [Function.update_noteq hqp] at hq hq'
    rw [hdisk q hqp]
    exact hD.absent q d hq hq'

/-- Every step of callers that keep the contract keeps `Durable`, unless it hands out the page
`INT_MAX` and wraps the counter. -/
theorem Durable.step [Zero Data] {c' : Callers Data} (hD : c.Durable) (hs : c.Step c')
    (hwrap : c.pool.nextPageId + 1 < 2 ^ 31 ∨ c'.allocated = c.allocated) : c'.Durable := by
  cases hs with
  | newPg ho he =>
    obtain ⟨⟨res, s₂⟩, hn, he'⟩ := map_eq_ok he; cases he'
    obtain ⟨frame, s₁, ha, ⟨rfl, rfl, rfl⟩ | ⟨f, rfl, rfl, hins⟩⟩ := newPgImp_eq_ok hn
    · cases acquireFrame_none ha
      rw [Option.map_none', Option.toList_none, List.append_nil]; exact hD.allocated _
    · -- a new page: never written, as its id is fresh
      have hwrap' : c.pool.nextPageId + 1 < 2 ^ 31 := hwrap.resolve_right (by simp)
      have hinv := hD.inv.exec ho he (.inl hwrap')
      obtain ⟨-, -, hnext, -⟩ := hD.inv.bringIn ho ha hins
      have h0 := hD.inv.nextPageId_nonneg
      refine (hD.bringIn ho ha (hnext ▸ hD.inv.pageTable_nextPageId) ?_
        (fun d' hd' => absurd (hD.written_lt _ d' hd') (by rw [hnext]; exact lt_irrefl _)) hins
        hinv).allocated _
      show _ ≤ toPageId (s₁.nextPageId + 1)
      rw [hnext, toPageId_of_mem (by omega) hwrap']
      omega
  | fetchPg ho he =>
    have hinv := hD.inv.exec ho he (.inr rfl)
    obtain ⟨⟨frame, s₂⟩, hfe, he'⟩ := map_eq_ok he; cases he'
    rcases fetchPgImp_eq_ok hfe with ⟨f, r', hf, ha, rfl, rfl⟩ |
      ⟨hp, s₁, ha, ⟨rfl, rfl⟩ | ⟨f, rfl, hins⟩⟩
    · exact hD.hit hf hinv
    · cases acquireFrame_none ha
      rw [Option.map_none', Option.toList_none, List.append_nil]; exact hD
    · -- a page read back from disk holds its last write
      obtain ⟨hf, -, hnext, -, hdisk, -⟩ := hD.inv.bringIn ho.2.2 ha hins
      exact hD.bringIn ho.2.2 ha hp hnext.ge
        (fun d' hd' => by
          rw [hdisk, Inv.writeBack_readPage_absent hD.inv hf hp, hD.absent _ d' hd' hp])
        hins hinv
  | write hi d => exact hD.write hi d
  | unpinPg hi hw he =>
    obtain ⟨⟨b, s₂⟩, hu, he'⟩ := map_eq_ok he; cases he'
    exact hD.unpin hi hw hu (hD.inv.exec (by exact trivial) he (.inr rfl))
  | flushPg he =>
    cases he
    rcases flushPgImp_eq c.pool _ with h | ⟨f, -, hf, h⟩ <;> rw [h]
    · exact hD
    · exact hD.flushPg hf
  | flushAllPgs he => cases he; exact hD.flushAllPgsImp
  | deletePg he =>
    obtain ⟨⟨b, s₂⟩, hdel, he'⟩ := map_eq_ok he; cases he'
    have hinv := hD.inv.exec (by exact trivial) he (.inr rfl)
    rcases deletePgImp_eq_ok hdel with ⟨-, -, rfl⟩ | ⟨-, -, -, -, rfl⟩ |
      ⟨-, f, r', hf, h0, -, rfl⟩
    · exact hD.forget _
    · exact hD.forget _
    · exact hD.delete hf h0 hinv

theorem init_durable [Zero Data] {poolSize replacerK : Nat} {d : DiskManager Data}
    {pool : BufferPoolManagerInstance Data}
    (h : BufferPoolManagerInstance.init poolSize replacerK d = .ok pool) :
    (⟨pool, [], fun _ => none, 0⟩ : Callers Data).Durable := by
  have hfree : ∀ f < pool.poolSize, f ∈ pool.freeList := fun f hf => by
    unfold BufferPoolManagerInstance.init at h
    cases hr : LRUKReplacer.init poolSize replacerK with
    | error e => rw [hr] at h; cases h
    | ok r => rw [hr] at h; cases h; exact List.mem_range.2 hf
  exact ⟨init_inv h, fun _ hh => absurd hh (List.not_mem_nil _),
    fun f hf hnf => absurd (hfree f hf) hnf, fun _ _ hp => (by cases hp),
    fun _ _ _ hp => (by cases hp), fun _ _ hp => (by cases hp)⟩

/-- A step hands out at most one page. -/
theorem Step.allocated_eq [Zero Data] {c' : Callers Data} (hs : c.Step c') :
    c'.allocated = c.allocated ∨ c'.allocated = c.allocated + 1 := by
  cases hs <;> try exact .inl rfl
  dsimp only
  split_ifs
  exacts [.inl rfl, .inr rfl]

/-- The counter is the number of pages handed out, taken into `page_id_t`. -/
theorem Reachable.nextPageId_eq [Zero Data] (h : c.Reachable) :
    c.pool.nextPageId = toPageId c.allocated := by
  induction h with
  | init h => rw [init_nextPageId h]; show (0 : Int) = toPageId ((0 : Nat) : Int); rfl
  | @step c _ _ hs ih =>
    have hcall : ∀ {cl : BpmCall} {out : BpmReply} {pool' : BufferPoolManagerInstance Data},
        c.pool.exec cl = .ok (out, pool') → (∀ order, cl ≠ .newPg order) →
          pool'.nextPageId = c.pool.nextPageId := fun he hc =>
      ((exec_nextPageId he).resolve_left fun h => by
        rw [exec_newPageId_none he hc] at h; cases h.1).2
    cases hs with
    | @newPg _ page _ _ he =>
      cases page with
      | none => exact ((exec_nextPageId he).resolve_left fun h => by cases h.1).2.trans ih
      | some x =>
        rw [((exec_nextPageId he).resolve_right fun h => by cases h.1).2, ih]
        simp only [reduceCtorEq, if_false, toPageId_toPageId_add]
        push_cast; rfl
    | write => exact ih
    | fetchPg _ he | unpinPg _ _ he | flushPg he | flushAllPgs he | deletePg he =>
      exact (hcall he nofun).trans ih

/-- The pool of every run of the callers keeps `FrameInv`. -/
theorem Reachable.frameInv [Zero Data] (h : c.Reachable) : c.pool.FrameInv := by
  induction h with
  | init h => exact init_frameInv h
  | step _ hs ih =>
    cases hs with
    | newPg ho he | fetchPg ho he => exact ih.exec ho he
    | unpinPg _ _ he | flushPg he | flushAllPgs he | deletePg he =>
      exact ih.exec (by exact trivial) he
    | write hi d =>
      exact ih.of_pages (fun g => ⟨apply_update_pages Page.pageId (by rfl) g,
        apply_update_pages Page.pinCount (by rfl) g⟩) rfl rfl rfl rfl

/-- Every run of the callers that hands out fewer than `2 ^ 31` pages keeps `Durable`. -/
theorem Reachable.durable [Zero Data] (h : c.Reachable) (hn : c.allocated < 2 ^ 31) :
    c.Durable := by
  induction h with
  | init h => exact init_durable h
  | step hc hs ih =>
    rcases hs.allocated_eq with he | he
    · exact (ih (he ▸ hn)).step hs (.inr he)
    · refine (ih (by omega)).step hs (.inl ?_)
      rw [hc.nextPageId_eq, toPageId_of_mem (by omega) (by omega)]
      omega

/-- Rounds on a free frame extend every run of the callers, who keep their handles. -/
theorem Reachable.rounds [Zero Data] {b : Nat} (h : c.Reachable) (hr : c.pool.RoundReady b)
    (n : Nat) (hnew : ∀ i < n, c.pool.pageTable (toPageId (c.pool.nextPageId + i)) = none) :
    ∃ c' : Callers Data, c'.Reachable ∧ c'.pool = c.pool.afterRounds n ∧ c'.handles = c.handles ∧
      c'.allocated = c.allocated + n := by
  refine hr.rounds (P := fun s k => ∃ c' : Callers Data, c'.Reachable ∧ c'.pool = s ∧
    c'.handles = c.handles ∧ c'.allocated = k) ?_ (by rw [h.nextPageId_eq, toPageId_toPageId])
    ⟨c, h, rfl, rfl, rfl⟩ n hnew
  rintro s _ ⟨c', h', rfl, hH, rfl⟩ hr hnew
  obtain ⟨order, ho⟩ := h'.frameInv.replacer_inv.exists_iterationOrder
  obtain ⟨s₁, s₂, he₁, he₂, he₃⟩ := hr.exec_round hnew order
  have h₁ := h'.step (Step.newPg ho he₁)
  have h₂ := h₁.step (Step.unpinPg (i := c'.handles.length) (by simp) (fun h => by simp at h)
    (by simpa using he₂))
  exact ⟨_, h₂.step (Step.deletePg he₃), rfl,
    by simp [hH, List.eraseIdx_append_of_length_le (le_refl _)], by simp⟩

end Durable

/-! ## No declared update is lost -/

section Results

variable [Zero Data] {c : Callers Data}

/-- Under the callers' contract, while fewer than `2 ^ 31` pages have been handed out, a
successful `FetchPgImp` of a page written since it was last passed to `DeletePgImp` returns a
frame holding the last data written to it, whether the page stayed resident or was evicted,
flushed and read back. -/
theorem fetch_returns_last_write (h : c.Reachable) (hn : c.allocated < 2 ^ 31) :
    ∀ p d order f pool', c.latest p = some d → c.pool.Admissible (.fetchPg p order) →
      c.pool.exec (.fetchPg p order) = .ok (.fetchPg (some f), pool') → (pool'.pages f).data = d := by
  have hD := h.durable hn
  intro p d order f pool' hp ho he
  obtain ⟨⟨frame, s₂⟩, hfe, he'⟩ := map_eq_ok he; cases he'
  rcases fetchPgImp_eq_ok hfe with ⟨g, r', hg, -, hgf, rfl⟩ |
    ⟨hp', s₁, ha, ⟨hfr, -⟩ | ⟨g, hgf, hins⟩⟩
  · -- resident: the frame holds the last write
    cases hgf
    simpa using (hD.resident p d f hp hg).1
  · cases hfr
  · -- read back from disk, which holds the last write
    cases hgf
    obtain ⟨hf, -, -, -, hdisk, r', rfl, -⟩ := hD.inv.bringIn ho.2.2 ha hins
    simp only [Function.update_same]
    rw [hdisk, Inv.writeBack_readPage_absent hD.inv hf hp', hD.absent p d hp hp']

/-- One frame: page 0 is written, released dirty, evicted by a new page, which is released
in turn; `FetchPgImp(0)` then evicts page 1 and reads page 0 back from disk. -/
theorem fetch_returns_last_write_after_eviction :
    ∃ (c : Callers Nat) (pool' : BufferPoolManagerInstance Nat), c.Reachable ∧
      c.allocated < 2 ^ 31 ∧ c.latest 0 = some 5 ∧ c.pool.pageTable 0 = none ∧
      c.pool.exec (.fetchPg 0 [0]) = .ok (.fetchPg (some 0), pool') ∧ (pool'.pages 0).data = 5 := by
  have h₀ := Reachable.init
    (rfl : BufferPoolManagerInstance.init 1 2 (⟨fun _ => 0, []⟩ : DiskManager Nat) = _)
  have h₁ := Reachable.step h₀
    (@Step.newPg Nat _ _ [] _ _ ⟨List.nodup_nil, fun f => by simp⟩ rfl)
  have h₂ := Reachable.step h₁ (by exact @Step.write Nat _ _ 0 (by decide) 5)
  have h₃ := Reachable.step h₂
    (by exact @Step.unpinPg Nat _ _ 0 (by decide) true _ _ (fun _ => rfl) (by rfl))
  have h₄ := Reachable.step h₃ (@Step.newPg Nat _ _ [0] _ _ ⟨List.nodup_singleton 0,
    fun f => by by_cases hf : f = 0 <;> simp [hf, Function.update]⟩ rfl)
  have h₅ := Reachable.step h₄
    (by exact @Step.unpinPg Nat _ _ 0 (by decide) false _ _ (fun h => h) (by rfl))
  exact ⟨_, _, h₅, by decide, rfl, rfl, rfl,
    fetch_returns_last_write h₅ (by decide) 0 5 [0] 0 _ rfl
      ⟨le_rfl, by decide, List.nodup_singleton 0,
        fun f => by by_cases hf : f = 0 <;> simp [hf, Function.update]⟩ rfl⟩

/-- Two frames: a caller creates page `0` in frame `0` and keeps the handle, while `2 ^ 32 - 1`
rounds on frame `1` wrap the counter back to `0`; the caller then writes `5` through the handle.
`NewPgImp` hands out `0` again, in frame `1`, and `FetchPgImp(0)` returns frame `1`, which
does not hold the write. -/
theorem fetch_misses_last_write_after_wrap :
    ∃ (c : Callers Nat) (pool' : BufferPoolManagerInstance Nat), c.Reachable ∧
      c.allocated = 2 ^ 32 + 1 ∧ c.latest 0 = some 5 ∧ c.pool.Admissible (.fetchPg 0 [0, 1]) ∧
      c.pool.exec (.fetchPg 0 [0, 1]) = .ok (.fetchPg (some 1), pool') ∧ (pool'.pages 1).data = 0 := by
  obtain ⟨n, hn⟩ : ∃ n : Nat, n = 2 ^ 32 - 1 := ⟨_, rfl⟩
  let s₀ : BufferPoolManagerInstance Nat :=
    ⟨2, fun _ => Page.empty, ⟨fun _ => 0, []⟩, fun _ => none, ⟨fun _ => none, 0, 0, 2, 2⟩, [0, 1], 0⟩
  have h₀ : (⟨s₀, [], fun _ => none, 0⟩ : Callers Nat).Reachable :=
    .init (rfl : BufferPoolManagerInstance.init 2 2 (⟨fun _ => 0, []⟩ : DiskManager Nat) = .ok s₀)
  -- a caller creates page `0` in frame `0` and keeps the handle
  have h₁ := h₀.step (Step.newPg ⟨List.nodup_nil, fun f => by simp [s₀]⟩
    (exec_newPg_free (s := s₀) rfl (by decide) rfl []))
  -- rounds on frame `1` wrap the counter back to `0`
  obtain ⟨⟨pool₂, H₂, L₂, A₂⟩, h₂, rfl, rfl, rfl⟩ := h₁.rounds
    ⟨rfl, by decide, by simp [s₀], by simp [s₀]⟩ n fun i hi => by
      simp only [s₀, Function.update_apply, ite_eq_right_iff]
      intro h; unfold toPageId at h; omega
  -- the caller writes `5` through its handle
  have h₃ := h₂.step (Step.write (i := 0) (by simp) 5)
  have hz : toPageId (toPageId ((0 : Int) + 1) + n) = 0 := by unfold toPageId; omega
  -- `NewPgImp` hands out `0` again, in frame `1`
  have h₄ := h₃.step (Step.newPg (⟨List.nodup_singleton 0, fun f => by
      by_cases hf : f = 0 <;> simp [hf, s₀]⟩ : IsIterationOrder _ [0])
    (exec_newPg_free rfl (show 1 < 2 by decide) (by simp [s₀]) [0]))
  have h1 : toPageId ((0 : Int) + 1) = 1 := by unfold toPageId; omega
  refine ⟨_, _, h₄, ?_, ?_, ⟨le_rfl, ?_, ?_⟩,
    exec_fetchPg_hit ?_ (show 1 < 2 by decide) (by simp [s₀]; rfl) [0, 1], ?_⟩
  · simp; omega
  · simp [s₀]
  · dsimp only [afterRounds_nextPageId, s₀]
    rw [hz, h1]; decide
  · exact ⟨by decide, fun f => by rcases f with _ | _ | f <;> simp [s₀]⟩
  · dsimp only [afterRounds_nextPageId, afterRounds_pageTable, s₀]
    rw [hz]; exact Function.update_same _ _ _
  · simp [s₀]; rfl

/-- Under the callers' contract, while fewer than `2 ^ 31` pages have been handed out, a
`DeletePgImp` that returns `true` loses nothing: the page is out of the table, the disk holds its
last write (the frame is written back when dirty, and no handle holds an unreleased write), and a
`FetchPgImp` of it right after reads that write back. -/
theorem delete_keeps_last_write (h : c.Reachable) (hn : c.allocated < 2 ^ 31) {p : Int} {d : Data}
    {pool' : BufferPoolManagerInstance Data} (hp : c.latest p = some d)
    (he : c.pool.exec (.deletePg p) = .ok (.flag true, pool')) :
    pool'.pageTable p = none ∧ pool'.diskManager.readPage p = d ∧
      ∀ order f pool'', pool'.Admissible (.fetchPg p order) →
        pool'.exec (.fetchPg p order) = .ok (.fetchPg (some f), pool'') →
          (pool''.pages f).data = d := by
  have hD := h.durable hn
  have hinv' := hD.inv.exec (c := .deletePg p) trivial he (.inr rfl)
  obtain ⟨⟨b, s₂⟩, hdel, he'⟩ := map_eq_ok he
  simp only [Prod.mk.injEq, BpmReply.flag.injEq] at he'
  obtain ⟨rfl, rfl⟩ := he'
  -- the table and the disk after the call
  have hgone : s₂.pageTable p = none ∧ s₂.diskManager.readPage p = d := by
    rcases deletePgImp_eq_ok hdel with ⟨-, hq, rfl⟩ | ⟨hb, -⟩ | ⟨-, f, r', hf, h0, -, rfl⟩
    · exact ⟨hq, hD.absent p d hp hq⟩
    · cases hb
    · obtain ⟨hflt, hfnf, -⟩ := hD.inv.table p f hf
      obtain ⟨hdata, hdisk⟩ := hD.resident p d f hp hf
      refine ⟨by simp, ?_⟩
      dsimp only
      split_ifs with hdirty
      · simp [hdata]
      · rcases hdisk with hdisk | hdirty' | ⟨g, hg, hgp, -⟩
        · exact hdisk
        · exact absurd hdirty' hdirty
        · -- a handle on the page would be on its frame, which holds no pin
          refine absurd ?_ (hD.no_handle (.inr ⟨hflt, hfnf, h0⟩) g hg)
          exact Option.some.inj ((hD.handle_table g hg).symm.trans (hgp ▸ hf))
  refine ⟨hgone.1, hgone.2, fun order f pool'' ho he₂ => ?_⟩
  -- a fetch right after reads the page back from disk
  obtain ⟨⟨frame, s₃⟩, hfe, he₂'⟩ := map_eq_ok he₂
  cases he₂'
  rcases fetchPgImp_eq_ok hfe with ⟨g, r', hg, -⟩ | ⟨-, s₁, ha, ⟨hfr, -⟩ | ⟨g, hgf, hins⟩⟩
  · rw [hgone.1] at hg; cases hg
  · cases hfr
  · cases hgf
    obtain ⟨hf, -, -, -, hdisk, r', rfl, -⟩ := hinv'.bringIn ho.2.2 ha hins
    simp only [Function.update_same]
    rw [hdisk, Inv.writeBack_readPage_absent hinv' hf hgone.1, hgone.2]

/-- One frame: page 0 is written, released dirty and deleted; its frame is then free. -/
theorem delete_keeps_last_write_dirty_page :
    ∃ (c : Callers Nat) (pool' : BufferPoolManagerInstance Nat), c.Reachable ∧
      c.allocated < 2 ^ 31 ∧ c.latest 0 = some 5 ∧ c.pool.exec (.deletePg 0) = .ok (.flag true, pool') ∧
      (pool'.pageTable 0 = none ∧ pool'.diskManager.readPage 0 = 5 ∧
        ∀ order f pool'', pool'.Admissible (.fetchPg 0 order) →
          pool'.exec (.fetchPg 0 order) = .ok (.fetchPg (some f), pool'') →
            (pool''.pages f).data = 5) := by
  have h₀ := Reachable.init
    (rfl : BufferPoolManagerInstance.init 1 2 (⟨fun _ => 0, []⟩ : DiskManager Nat) = _)
  have h₁ := Reachable.step h₀
    (@Step.newPg Nat _ _ [] _ _ ⟨List.nodup_nil, fun f => by simp⟩ rfl)
  have h₂ := Reachable.step h₁ (by exact @Step.write Nat _ _ 0 (by decide) 5)
  have h₃ := Reachable.step h₂
    (by exact @Step.unpinPg Nat _ _ 0 (by decide) true _ _ (fun _ => rfl) (by rfl))
  obtain ⟨c, hc, hn, hl, pool', he⟩ : ∃ c : Callers Nat, c.Reachable ∧ c.allocated < 2 ^ 31 ∧
      c.latest 0 = some 5 ∧ ∃ pool', c.pool.exec (.deletePg 0) = .ok (.flag true, pool') :=
    ⟨_, h₃, by decide, rfl, _, rfl⟩
  exact ⟨c, pool', hc, hn, hl, he, delete_keeps_last_write hc hn hl he⟩

end Results

end Callers

end Bustub
