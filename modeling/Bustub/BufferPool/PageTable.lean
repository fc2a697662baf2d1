import Bustub.BufferPool.PageIds
import Bustub.HashTable.Shape

/-! # The pool with its page table

`page_table_` of the pool is an `ExtendibleHashTable<page_id_t, frame_id_t>`, made by the
constructor with bucket size `bucket_size_`, and the pool calls its `Find`, `Insert` and
`Remove`. The model of the pool (`BufferPoolManagerInstance`) reads its page table as a
function. `Conc.BufferPoolManagerInstance` is the pool as the code composes it: the same
six operations, with `page_table_` the table of `ExtendibleHashTable`, whose `Insert` runs its
loop for at most `fuel` turns.

A call changes the table by at most one `Remove` and then at most one `Insert`, of the new
page `next_page_id_` or of the page it fetches, into the frame it took; it keeps the frames,
and moves the replacer only by replacer calls that returned (`exec_effect`). So every run keeps
the replacer's invariant (`Run.replacer_inv`), and since `Evict` ends on the same victim over
every iteration order of its map, `NewPgImp` and `FetchPgImp` of the code do the same over
every one of them (`Run.exec_order_independent`).

`Conc.view` reads the table through `Find`. From a table that satisfies the directory
invariant, a call of the code that returns, leaving a table below depth 32, has seen each of
its `Insert` calls return; it replies as the model does on the view and leaves the view of the
model's result (`exec_view_ok`). Over which runs the table stays that shallow, so that the
code's pool is the model, is the subject of `TableDepth`.
-/

namespace Bustub

/-- `page_id_t` as the key type of `page_table_`. -/
structure PageKey where
  id : Int
deriving DecidableEq

/-- Modelled from the spec: `std::hash<page_id_t>`, the id converted to `size_t`. -/
instance : Hashable PageKey := ⟨fun p => UInt64.ofNat (p.id % 2 ^ 64).toNat⟩

/-! ## The page table -/

namespace ExtendibleHashTable

variable {t t' : ExtendibleHashTable PageKey Nat} {fuel f : Nat} {p : Int}

/-- After `Remove`, `Find` reads the page table with the page erased. -/
theorem Inv.find_remove_pageKey (h : t.Inv) (p : Int) :
    (fun q => (t.remove ⟨p⟩).2.find ⟨q⟩) = Function.update (fun q => t.find ⟨q⟩) p none := by
  funext q
  rw [(h.find_remove ⟨p⟩).2, Function.update_apply]
  simp only [PageKey.mk.injEq]

/-- After an `Insert` that leaves the table below depth 32, `Find` reads the page table with
the page mapped to its frame. -/
theorem Inv.find_insert_pageKey (h : t.Inv) (hins : t.insert fuel ⟨p⟩ f = some t')
    (hG : t'.globalDepth < 32) :
    (fun q => t'.find ⟨q⟩) = Function.update (fun q => t.find ⟨q⟩) p (some f) := by
  funext q
  rw [Inv.find_insert fuel h hins hG, Function.update_apply]
  simp only [PageKey.mk.injEq]

end ExtendibleHashTable

namespace Conc

/-- The fields of `BufferPoolManagerInstance`, with `page_table_` the extendible hash table
from page ids to frames. -/
structure BufferPoolManagerInstance (Data : Type) where
  poolSize : Nat
  pages : Nat → Page Data
  diskManager : DiskManager Data
  pageTable : ExtendibleHashTable PageKey Nat
  replacer : LRUKReplacer
  freeList : List Nat
  nextPageId : Int

namespace BufferPoolManagerInstance

open LRUKReplacer

variable {Data : Type}

/-- The pool as the model reads it: the page table through `Find`. -/
def view (s : BufferPoolManagerInstance Data) : Bustub.BufferPoolManagerInstance Data :=
  ⟨s.poolSize, s.pages, s.diskManager, fun p => s.pageTable.find ⟨p⟩, s.replacer, s.freeList,
    s.nextPageId⟩

/-- The message standing for a loop of `Insert` that has not returned within its fuel. -/
def insertMsg : String := "ExtendibleHashTable::Insert did not return"

/-- `page_table_->Insert(page_id, frame_id)`, its loop run for at most `fuel` turns. -/
def insertPageTable (t : ExtendibleHashTable PageKey Nat) (fuel : Nat) (pageId : Int)
    (frameId : Nat) : Except String (ExtendibleHashTable PageKey Nat) :=
  match t.insert fuel ⟨pageId⟩ frameId with
  | some t => .ok t
  | none => .error insertMsg

section Code

variable [Zero Data]

/-- The constructor: every frame empty and on the free list, in order, and `page_table_` a
new table of bucket size `bucketSize`. -/
def init (poolSize replacerK bucketSize : Nat) (diskManager : DiskManager Data) :
    Except String (BufferPoolManagerInstance Data) := do
  let replacer ← LRUKReplacer.init poolSize replacerK
  .ok ⟨poolSize, fun _ => Page.empty, diskManager, ExtendibleHashTable.init bucketSize, replacer,
    List.range poolSize, Bustub.BufferPoolManagerInstance.firstPageId⟩

/-- `AllocatePage()`: `next_page_id_++`, on the 32-bit `page_id_t`. -/
def allocatePage (s : BufferPoolManagerInstance Data) : Int × BufferPoolManagerInstance Data :=
  (s.nextPageId, { s with nextPageId := toPageId (s.nextPageId + 1) })

/-- The frame for a page to bring in: the front of `free_list_`, or else the victim of
`Evict`, written back when dirty and removed from `page_table_`. -/
def acquireFrame (s : BufferPoolManagerInstance Data) (order : List Nat) :
    Except String (Option Nat × BufferPoolManagerInstance Data) :=
  match s.freeList with
  | frameId :: rest => .ok (some frameId, { s with freeList := rest })
  | [] => do
    let (victim, replacer) ← s.replacer.evict order
    match victim with
    | none => .ok (none, { s with replacer })
    | some frameId =>
      let victimPage := s.pages frameId
      let s := { s with replacer }
      let s := if victimPage.isDirty then
        { s with
          diskManager := s.diskManager.writePage victimPage.pageId victimPage.data
          pages := Function.update s.pages frameId { victimPage with isDirty := false } }
        else s
      .ok (some frameId, { s with pageTable := (s.pageTable.remove ⟨victimPage.pageId⟩).2 })

/-- The frame takes page `pageId` with contents `data`, one pin and a clean flag; then
`page_table_->Insert`, `RecordAccess` and `SetEvictable(false)`, in the code's order. -/
def installPage (s : BufferPoolManagerInstance Data) (fuel frameId : Nat) (pageId : Int)
    (data : Data) : Except String (BufferPoolManagerInstance Data) := do
  let pageTable ← insertPageTable s.pageTable fuel pageId frameId
  let replacer ← Bustub.BufferPoolManagerInstance.accessFrame s.replacer frameId
  .ok { s with
    pages := Function.update s.pages frameId ⟨pageId, 1, false, data⟩
    pageTable
    replacer }

/-- `NewPgImp(&page_id)`. -/
def newPgImp (s : BufferPoolManagerInstance Data) (fuel : Nat) (order : List Nat) :
    Except String (Option (Int × Nat) × BufferPoolManagerInstance Data) := do
  let (frame, s) ← s.acquireFrame order
  match frame with
  | none => .ok (none, s)
  | some frameId =>
    let (pageId, s) := s.allocatePage
    let s ← s.installPage fuel frameId pageId (s.pages frameId).data
    .ok (some (pageId, frameId), s)

/-- `FetchPgImp(page_id)`: `page_table_->Find`, then a pin on the resident page or a read
from disk into a frame. -/
def fetchPgImp (s : BufferPoolManagerInstance Data) (fuel : Nat) (pageId : Int)
    (order : List Nat) : Except String (Option Nat × BufferPoolManagerInstance Data) :=
  match s.pageTable.find ⟨pageId⟩ with
  | some frameId => do
    let replacer ← Bustub.BufferPoolManagerInstance.accessFrame s.replacer frameId
    .ok (some frameId, { s with
      pages := Function.update s.pages frameId
        { s.pages frameId with pinCount := (s.pages frameId).pinCount + 1 }
      replacer })
  | none => do
    let (frame, s) ← s.acquireFrame order
    match frame with
    | none => .ok (none, s)
    | some frameId =>
      let s ← s.installPage fuel frameId pageId (s.diskManager.readPage pageId)
      .ok (some frameId, s)

/-- `UnpinPgImp(page_id, is_dirty)`. -/
def unpinPgImp (s : BufferPoolManagerInstance Data) (pageId : Int) (isDirty : Bool) :
    Except String (Bool × BufferPoolManagerInstance Data) :=
  match s.pageTable.find ⟨pageId⟩ with
  | none => .ok (false, s)
  | some frameId =>
    let page := s.pages frameId
    if page.pinCount = 0 then .ok (false, s)
    else
      let page := { page with pinCount := page.pinCount - 1, isDirty := page.isDirty || isDirty }
      let s := { s with pages := Function.update s.pages frameId page }
      if page.pinCount = 0 then do
        let replacer ← s.replacer.setEvictable frameId true
        .ok (true, { s with replacer })
      else .ok (true, s)

/-- `FlushPgImp(page_id)`. -/
def flushPgImp (s : BufferPoolManagerInstance Data) (pageId : Int) :
    Bool × BufferPoolManagerInstance Data :=
  if pageId = invalidPageId then (false, s)
  else match s.pageTable.find ⟨pageId⟩ with
    | none => (false, s)
    | some frameId =>
      (true, { s with
        diskManager := s.diskManager.writePage pageId (s.pages frameId).data
        pages := Function.update s.pages frameId { s.pages frameId with isDirty := false } })

/-- One turn of the loop of `FlushAllPgsImp`. -/
def flushFrame (s : BufferPoolManagerInstance Data) (i : Nat) : BufferPoolManagerInstance Data :=
  let page := s.pages i
  if page.pageId ≠ invalidPageId ∧ page.isDirty then
    { s with
      diskManager := s.diskManager.writePage page.pageId page.data
      pages := Function.update s.pages i { page with isDirty := false } }
  else s

/-- `FlushAllPgsImp()`. -/
def flushAllPgsImp (s : BufferPoolManagerInstance Data) : BufferPoolManagerInstance Data :=
  (List.range s.poolSize).foldl flushFrame s

/-- `DeletePgImp(page_id)`: `page_table_->Find`, and for an unpinned resident page
`page_table_->Remove` and `Remove` of the replacer. -/
def deletePgImp (s : BufferPoolManagerInstance Data) (pageId : Int) :
    Except String (Bool × BufferPoolManagerInstance Data) :=
  match s.pageTable.find ⟨pageId⟩ with
  | none => .ok (true, s)
  | some frameId =>
    let page := s.pages frameId
    if page.pinCount > 0 then .ok (false, s)
    else do
      let diskManager := if page.isDirty then s.diskManager.writePage pageId page.data
        else s.diskManager
      let replacer ← s.replacer.remove frameId
      .ok (true, { s with
        diskManager
        pageTable := (s.pageTable.remove ⟨pageId⟩).2
        replacer
        pages := Function.update s.pages frameId Page.empty
        freeList := s.freeList ++ [frameId] })

/-- A call made on the pool. -/
def exec (s : BufferPoolManagerInstance Data) (fuel : Nat) :
    BpmCall → Except String (BpmReply × BufferPoolManagerInstance Data)
  | .newPg order => (fun p => (.newPg p.1, p.2)) <$> s.newPgImp fuel order
  | .fetchPg pageId order => (fun p => (.fetchPg p.1, p.2)) <$> s.fetchPgImp fuel pageId order
  | .unpinPg pageId isDirty => (fun p => (.flag p.1, p.2)) <$> s.unpinPgImp pageId isDirty
  | .flushPg pageId => .ok (.flag (s.flushPgImp pageId).1, (s.flushPgImp pageId).2)
  | .flushAllPgs => .ok (.done, s.flushAllPgsImp)
  | .deletePg pageId => (fun p => (.flag p.1, p.2)) <$> s.deletePgImp pageId

/-- A run of the pool from its constructor, with at most `fuel` turns for each loop of
`page_table_->Insert`: the admissible calls made, in order, with their replies. The callers'
side is the model's. -/
inductive Run (fuel : Nat) : List BpmCall → List BpmReply → BufferPoolManagerInstance Data → Prop
  | init {poolSize replacerK bucketSize : Nat} {diskManager : DiskManager Data}
      {s : BufferPoolManagerInstance Data} :
      init poolSize replacerK bucketSize diskManager = .ok s → Run fuel [] [] s
  | snoc {cs : List BpmCall} {outs : List BpmReply} {s s' : BufferPoolManagerInstance Data}
      {c : BpmCall} {out : BpmReply} :
      Run fuel cs outs s → s.view.Admissible c → s.exec fuel c = .ok (out, s') →
        Run fuel (cs ++ [c]) (outs ++ [out]) s'

end Code

variable {s s' s₁ : BufferPoolManagerInstance Data} {order : List Nat} {fuel f : Nat}
  {p : Int}

/-! ## What a call does to the page table -/

/-- `t₁` is `t`, or `t` after one `Remove`. -/
def AfterRemove (t t₁ : ExtendibleHashTable PageKey Nat) : Prop :=
  t₁ = t ∨ ∃ q : Int, t₁ = (t.remove ⟨q⟩).2

namespace AfterRemove

variable {t t₁ : ExtendibleHashTable PageKey Nat}

protected theorem rfl : AfterRemove t t := .inl rfl

theorem bucketSize (h : AfterRemove t t₁) : t₁.bucketSize = t.bucketSize := by
  rcases h with rfl | ⟨q, rfl⟩
  · rfl
  · exact ExtendibleHashTable.remove_bucketSize _ _

/-- At most one `Remove` keeps the directory invariant, the directory, its depth and its
bucket count, and adds no page. -/
theorem shape (ht : t.Inv) (h : AfterRemove t t₁) :
    t₁.Inv ∧ t₁.dir = t.dir ∧ t₁.globalDepth = t.globalDepth ∧ t₁.numBuckets = t.numBuckets ∧
      ∀ q, (t₁.find ⟨q⟩).isSome → (t.find ⟨q⟩).isSome := by
  rcases h with rfl | ⟨q, rfl⟩
  · exact ⟨ht, rfl, rfl, rfl, fun _ => id⟩
  · refine ⟨ht.remove _, ExtendibleHashTable.remove_dir _ _,
      ExtendibleHashTable.remove_globalDepth _ _, ExtendibleHashTable.remove_numBuckets _ _,
      fun q' hq' => ?_⟩
    rw [(ht.find_remove _).2] at hq'
    split_ifs at hq'
    · cases hq'
    · exact hq'

end AfterRemove

/-- A change of the page table: at most one `Remove`, then at most one `Insert`, within `fuel`
turns, of a page `p` into frame `f` with `ins t₁ p f`, `t₁` the table it goes into. -/
def TableChange (fuel : Nat) (ins : ExtendibleHashTable PageKey Nat → Int → Nat → Prop)
    (t t' : ExtendibleHashTable PageKey Nat) : Prop :=
  ∃ t₁, AfterRemove t t₁ ∧ (t' = t₁ ∨ ∃ p f, ins t₁ p f ∧ t₁.insert fuel ⟨p⟩ f = some t')

namespace TableChange

variable {ins ins' : ExtendibleHashTable PageKey Nat → Int → Nat → Prop}
  {t t' : ExtendibleHashTable PageKey Nat}

protected theorem rfl : TableChange fuel ins t t := ⟨t, .rfl, .inl rfl⟩

theorem mono (h : TableChange fuel ins t t') (hk : ∀ t₁ p f, ins t₁ p f → ins' t₁ p f) :
    TableChange fuel ins' t t' :=
  let ⟨t₁, h₁, h₂⟩ := h
  ⟨t₁, h₁, h₂.imp_right fun ⟨p, f, hp, hins⟩ => ⟨p, f, hk t₁ p f hp, hins⟩⟩

theorem bucketSize (h : TableChange fuel ins t t') : t'.bucketSize = t.bucketSize := by
  obtain ⟨t₁, h₁, rfl | ⟨p, f, -, hins⟩⟩ := h
  · exact h₁.bucketSize
  · exact (ExtendibleHashTable.bucketSize_insert fuel hins).trans h₁.bucketSize

/-- A change that leaves a table below depth 32 keeps the directory invariant, and adds only
the page it inserts. -/
theorem inv (h : TableChange fuel ins t t') (ht : t.Inv) (hG : t'.globalDepth < 32) :
    t'.Inv ∧ ∀ q, (t'.find ⟨q⟩).isSome → (t.find ⟨q⟩).isSome ∨ ∃ t₁ f, ins t₁ q f := by
  obtain ⟨t₁, h₁, h₂⟩ := h
  obtain ⟨ht₁, -, -, -, hsub⟩ := h₁.shape ht
  rcases h₂ with rfl | ⟨p, f, hp, hins⟩
  · exact ⟨ht₁, fun q hq => .inl (hsub q hq)⟩
  · refine ⟨ht₁.insert fuel hins hG, fun q hq => ?_⟩
    rw [ht₁.find_insert fuel hins hG] at hq
    split_ifs at hq with hqp
    · cases hqp; exact .inr ⟨t₁, f, hp⟩
    · exact .inl (hsub q hq)

end TableChange

/-- What a call of the code does besides its pages and disk: the frames stay, the replacer
keeps its invariant, and the table changes by `TableChange` with `ins`. -/
structure Effect (fuel : Nat) (ins : ExtendibleHashTable PageKey Nat → Int → Nat → Prop)
    (s s' : BufferPoolManagerInstance Data) : Prop where
  poolSize_eq : s'.poolSize = s.poolSize
  replacer_inv : s.replacer.Inv → s'.replacer.Inv
  table : TableChange fuel ins s.pageTable s'.pageTable

namespace Effect

variable {ins ins' : ExtendibleHashTable PageKey Nat → Int → Nat → Prop}

theorem mono (h : Effect fuel ins s s') (hk : ∀ t₁ p f, ins t₁ p f → ins' t₁ p f) :
    Effect fuel ins' s s' :=
  ⟨h.poolSize_eq, h.replacer_inv, h.table.mono hk⟩

/-- A call that keeps the frames, the replacer and the table. -/
theorem of_same (h : s'.poolSize = s.poolSize ∧ s'.replacer = s.replacer ∧
    s'.pageTable = s.pageTable) : Effect fuel ins s s' :=
  ⟨h.1, fun hr => h.2.1 ▸ hr, h.2.2 ▸ .rfl⟩

end Effect

/-! ## One spec lemma per block and per operation -/

/-- Taking a frame keeps the counter and the frames, keeps the replacer's invariant, and
removes at most one page from the table. -/
theorem acquireFrame_ok {frame : Option Nat} (ha : s.acquireFrame order = .ok (frame, s₁)) :
    s₁.nextPageId = s.nextPageId ∧ s₁.poolSize = s.poolSize ∧
      (s.replacer.Inv → s₁.replacer.Inv) ∧ AfterRemove s.pageTable s₁.pageTable := by
  unfold acquireFrame at ha
  split at ha
  · cases ha; exact ⟨rfl, rfl, id, .rfl⟩
  · cases he : s.replacer.evict order with
    | error e => rw [he] at ha; cases ha
    | ok r =>
      obtain ⟨v, r'⟩ := r
      rw [he] at ha
      cases v with
      | none => cases ha; exact ⟨rfl, rfl, fun h => evict_inv h he, .rfl⟩
      | some w =>
        cases ha
        split_ifs <;> exact ⟨rfl, rfl, fun h => evict_inv h he, .inr ⟨_, rfl⟩⟩

/-- The block leaves the table that its `Insert` returns, the counter and the frames, and the
replacer after `RecordAccess` and `SetEvictable`. -/
theorem installPage_ok {d : Data} (hi : s.installPage fuel f p d = .ok s') :
    s.pageTable.insert fuel ⟨p⟩ f = some s'.pageTable ∧ s'.nextPageId = s.nextPageId ∧
      s'.poolSize = s.poolSize ∧ (s.replacer.Inv → s'.replacer.Inv) := by
  unfold installPage insertPageTable at hi
  cases hins : s.pageTable.insert fuel ⟨p⟩ f with
  | none => rw [hins] at hi; cases hi
  | some t' =>
    rw [hins] at hi
    cases hr : Bustub.BufferPoolManagerInstance.accessFrame s.replacer f with
    | error e => rw [hr] at hi; cases hi
    | ok r' =>
      rw [hr] at hi; cases hi
      exact ⟨rfl, rfl, rfl, fun h => Bustub.BufferPoolManagerInstance.accessFrame_inv h hr⟩

theorem newPgImp_eq_ok {res : Option (Int × Nat)} (h : s.newPgImp fuel order = .ok (res, s')) :
    ∃ frame s₁, s.acquireFrame order = .ok (frame, s₁) ∧
      (frame = none ∧ res = none ∧ s' = s₁ ∨
        ∃ f, frame = some f ∧ res = some (s₁.nextPageId, f) ∧
          s₁.allocatePage.2.installPage fuel f s₁.nextPageId (s₁.pages f).data = .ok s') := by
  unfold newPgImp at h
  cases ha : s.acquireFrame order with
  | error e => rw [ha] at h; cases h
  | ok res₁ =>
    obtain ⟨frame, s₁⟩ := res₁
    rw [ha] at h
    simp only [bind, Except.bind] at h
    refine ⟨frame, s₁, rfl, ?_⟩
    cases frame with
    | none => cases h; exact .inl ⟨rfl, rfl, rfl⟩
    | some f =>
      cases hi : s₁.allocatePage.2.installPage fuel f s₁.nextPageId (s₁.pages f).data with
      | error e => simp only [allocatePage] at hi h; rw [hi] at h; cases h
      | ok s₂ =>
        simp only [allocatePage] at hi h; rw [hi] at h; cases h
        exact .inr ⟨f, rfl, rfl, hi⟩

theorem fetchPgImp_eq_ok {frame : Option Nat} (h : s.fetchPgImp fuel p order = .ok (frame, s')) :
    (∃ g r', s.pageTable.find ⟨p⟩ = some g ∧
      Bustub.BufferPoolManagerInstance.accessFrame s.replacer g = .ok r' ∧
      s'.poolSize = s.poolSize ∧ s'.replacer = r' ∧ s'.pageTable = s.pageTable) ∨
    (s.pageTable.find ⟨p⟩ = none ∧ ∃ s₁, s.acquireFrame order = .ok (frame, s₁) ∧
      (frame = none ∧ s' = s₁ ∨
        ∃ f, frame = some f ∧ s₁.installPage fuel f p (s₁.diskManager.readPage p) = .ok s')) := by
  unfold fetchPgImp at h
  split at h
  · rename_i g hg
    cases ha : Bustub.BufferPoolManagerInstance.accessFrame s.replacer g with
    | error e => rw [ha] at h; cases h
    | ok r' => rw [ha] at h; cases h; exact .inl ⟨g, r', hg, ha, rfl, rfl, rfl⟩
  · rename_i hg
    cases ha : s.acquireFrame order with
    | error e => rw [ha] at h; cases h
    | ok res₁ =>
      obtain ⟨frame₁, s₁⟩ := res₁
      rw [ha] at h
      simp only [bind, Except.bind] at h
      cases frame₁ with
      | none => cases h; exact .inr ⟨hg, _, rfl, .inl ⟨rfl, rfl⟩⟩
      | some f =>
        simp only at h
        cases hi : s₁.installPage fuel f p (s₁.diskManager.readPage p) with
        | error e => rw [hi] at h; cases h
        | ok s₂ => rw [hi] at h; cases h; exact .inr ⟨hg, s₁, rfl, .inr ⟨f, rfl, hi⟩⟩

/-- Taking a frame is an effect with no `Insert`. -/
theorem acquireFrame_effect {ins : ExtendibleHashTable PageKey Nat → Int → Nat → Prop}
    {frame : Option Nat} (ha : s.acquireFrame order = .ok (frame, s₁)) : Effect fuel ins s s₁ :=
  have ⟨_, hpool, hrep, hrem⟩ := acquireFrame_ok ha
  ⟨hpool, hrep, ⟨_, hrem, .inl rfl⟩⟩

/-- `NewPgImp` inserts only the page `next_page_id_`, into the frame it took, and hands it
out. -/
theorem newPgImp_effect {res : Option (Int × Nat)} (he : s.newPgImp fuel order = .ok (res, s')) :
    Effect fuel (fun t₁ q f => ∃ s₁, s.acquireFrame order = .ok (some f, s₁) ∧
      s₁.pageTable = t₁ ∧ q = s.nextPageId ∧ res = some (q, f)) s s' := by
  obtain ⟨frame, s₁, ha, ⟨rfl, rfl, rfl⟩ | ⟨f, rfl, rfl, hi⟩⟩ := newPgImp_eq_ok he
  · exact acquireFrame_effect ha
  · obtain ⟨hnext, hpool, hrep, hrem⟩ := acquireFrame_ok ha
    obtain ⟨hins, -, hpool', hacc⟩ := installPage_ok hi
    exact ⟨hpool'.trans hpool, hacc ∘ hrep,
      s₁.pageTable, hrem, .inr ⟨_, f, ⟨s₁, ha, rfl, hnext, rfl⟩, hins⟩⟩

/-- `FetchPgImp` inserts only the page it fetches, into the frame it took. -/
theorem fetchPgImp_effect {frame : Option Nat} (he : s.fetchPgImp fuel p order = .ok (frame, s')) :
    Effect fuel (fun t₁ q f => ∃ s₁, s.acquireFrame order = .ok (some f, s₁) ∧
      s₁.pageTable = t₁ ∧ q = p) s s' := by
  rcases fetchPgImp_eq_ok he with ⟨g, r', -, hacc, hpool, rfl, htab⟩ |
    ⟨-, s₁, ha, ⟨-, rfl⟩ | ⟨f, rfl, hi⟩⟩
  · exact ⟨hpool, fun h => Bustub.BufferPoolManagerInstance.accessFrame_inv h hacc,
      htab ▸ .rfl⟩
  · exact acquireFrame_effect ha
  · obtain ⟨-, hpool, hrep, hrem⟩ := acquireFrame_ok ha
    obtain ⟨hins, -, hpool', hacc⟩ := installPage_ok hi
    exact ⟨hpool'.trans hpool, hacc ∘ hrep,
      s₁.pageTable, hrem, .inr ⟨p, f, ⟨s₁, ha, rfl, rfl⟩, hins⟩⟩

theorem unpinPgImp_effect {ins : ExtendibleHashTable PageKey Nat → Int → Nat → Prop}
    {isDirty b : Bool} (he : s.unpinPgImp p isDirty = .ok (b, s')) : Effect fuel ins s s' := by
  unfold unpinPgImp at he
  split at he
  · cases he; exact .of_same ⟨rfl, rfl, rfl⟩
  · rename_i g _
    dsimp only at he
    split_ifs at he
    · cases he; exact .of_same ⟨rfl, rfl, rfl⟩
    · cases hs : s.replacer.setEvictable g true with
      | error e => simp only [hs, bind, Except.bind] at he; cases he
      | ok r' =>
        simp only [hs, bind, Except.bind] at he; cases he
        exact ⟨rfl, fun h => setEvictable_inv h hs, .rfl⟩
    · cases he; exact .of_same ⟨rfl, rfl, rfl⟩

theorem flushPgImp_same (s : BufferPoolManagerInstance Data) (p : Int) :
    (s.flushPgImp p).2.poolSize = s.poolSize ∧ (s.flushPgImp p).2.replacer = s.replacer ∧
      (s.flushPgImp p).2.pageTable = s.pageTable := by
  unfold flushPgImp
  split_ifs
  · exact ⟨rfl, rfl, rfl⟩
  · cases s.pageTable.find ⟨p⟩ <;> exact ⟨rfl, rfl, rfl⟩

theorem flushAllPgsImp_same (s : BufferPoolManagerInstance Data) :
    s.flushAllPgsImp.poolSize = s.poolSize ∧ s.flushAllPgsImp.replacer = s.replacer ∧
      s.flushAllPgsImp.pageTable = s.pageTable := by
  unfold flushAllPgsImp
  induction List.range s.poolSize generalizing s with
  | nil => exact ⟨rfl, rfl, rfl⟩
  | cons i l ih =>
    rw [List.foldl_cons]
    obtain ⟨h₁, h₂, h₃⟩ := ih (s.flushFrame i)
    rw [h₁, h₂, h₃]
    unfold flushFrame
    dsimp only
    split_ifs <;> exact ⟨rfl, rfl, rfl⟩

theorem deletePgImp_effect [Zero Data] {ins : ExtendibleHashTable PageKey Nat → Int → Nat → Prop}
    {b : Bool} (he : s.deletePgImp p = .ok (b, s')) : Effect fuel ins s s' := by
  unfold deletePgImp at he
  split at he
  · cases he; exact .of_same ⟨rfl, rfl, rfl⟩
  · rename_i g _
    dsimp only at he
    split_ifs at he
    · cases he; exact .of_same ⟨rfl, rfl, rfl⟩
    all_goals
      cases hr : s.replacer.remove g with
      | error e => simp only [hr, bind, Except.bind] at he; cases he
      | ok r' =>
        simp only [hr, bind, Except.bind] at he; cases he
        exact ⟨rfl, fun h => remove_inv h hr, _, .inr ⟨p, rfl⟩, .inl rfl⟩

/-- The page that call `c`, replying `out`, inserts into frame `f` of the table `t₁` left by
taking the frame: the new page `next_page_id_`, which the reply hands out, or the page
fetched. -/
def Inserts (s : BufferPoolManagerInstance Data) (c : BpmCall) (out : BpmReply)
    (t₁ : ExtendibleHashTable PageKey Nat) (q : Int) (f : Nat) : Prop :=
  ∃ order s₁, s.acquireFrame order = .ok (some f, s₁) ∧ s₁.pageTable = t₁ ∧
    (c = .newPg order ∧ q = s.nextPageId ∧ out.newPageId = some q ∨ c = .fetchPg q order)

/-- Every call keeps the frames and the replacer's invariant, and changes the table by at most
one `Remove` and then at most one `Insert`, of the new page or of the page fetched, into the
frame it took. -/
theorem exec_effect [Zero Data] {c : BpmCall} {out : BpmReply}
    (he : s.exec fuel c = .ok (out, s')) : Effect fuel (s.Inserts c out) s s' := by
  cases c with
  | newPg order =>
    obtain ⟨⟨r, s₂⟩, hn, he⟩ := map_eq_ok he; cases he
    exact (newPgImp_effect hn).mono fun t₁ q f ⟨s₁, ha, ht, hq, hr⟩ =>
      ⟨order, s₁, ha, ht, .inl ⟨rfl, hq, by rw [hr]; rfl⟩⟩
  | fetchPg p order =>
    obtain ⟨⟨r, s₂⟩, hf, he⟩ := map_eq_ok he; cases he
    exact (fetchPgImp_effect hf).mono fun t₁ q f ⟨s₁, ha, ht, hq⟩ =>
      ⟨order, s₁, ha, ht, .inr (hq ▸ rfl)⟩
  | unpinPg p isDirty =>
    obtain ⟨⟨b, s₂⟩, hu, he⟩ := map_eq_ok he; cases he
    exact unpinPgImp_effect hu
  | flushPg p => cases he; exact .of_same (flushPgImp_same s p)
  | flushAllPgs => cases he; exact .of_same (flushAllPgsImp_same s)
  | deletePg p =>
    obtain ⟨⟨b, s₂⟩, hd, he⟩ := map_eq_ok he; cases he
    exact deletePgImp_effect hd

/-! ## The view -/

@[simp] theorem view_poolSize : s.view.poolSize = s.poolSize := rfl
@[simp] theorem view_pages : s.view.pages = s.pages := rfl
@[simp] theorem view_diskManager : s.view.diskManager = s.diskManager := rfl
@[simp] theorem view_pageTable (q : Int) : s.view.pageTable q = s.pageTable.find ⟨q⟩ := rfl
@[simp] theorem view_replacer : s.view.replacer = s.replacer := rfl
@[simp] theorem view_freeList : s.view.freeList = s.freeList := rfl
@[simp] theorem view_nextPageId : s.view.nextPageId = s.nextPageId := rfl

theorem acquireFrame_view (h : s.pageTable.Inv) (order : List Nat) :
    (fun r => (r.1, r.2.view)) <$> s.acquireFrame order = s.view.acquireFrame order := by
  unfold acquireFrame Bustub.BufferPoolManagerInstance.acquireFrame
  simp only [view]
  cases s.freeList with
  | cons f rest => rfl
  | nil =>
    cases s.replacer.evict order with
    | error e => rfl
    | ok r =>
      obtain ⟨v, r'⟩ := r
      cases v with
      | none => rfl
      | some w =>
        cases hd : (s.pages w).isDirty <;>
          simp [hd, bind, Except.bind, Functor.map, Except.map, h.find_remove_pageKey]

theorem acquireFrame_view_ok (h : s.pageTable.Inv) {frame : Option Nat}
    (ha : s.acquireFrame order = .ok (frame, s₁)) :
    s.view.acquireFrame order = .ok (frame, s₁.view) := by
  rw [← acquireFrame_view h, ha]; rfl

theorem installPage_view (h : s.pageTable.Inv) {t' : ExtendibleHashTable PageKey Nat}
    (hins : s.pageTable.insert fuel ⟨p⟩ f = some t') (hG : t'.globalDepth < 32) (d : Data) :
    view <$> s.installPage fuel f p d = s.view.installPage f p d := by
  unfold installPage Bustub.BufferPoolManagerInstance.installPage insertPageTable
  rw [hins]
  cases hr : Bustub.BufferPoolManagerInstance.accessFrame s.replacer f <;>
    simp [hr, bind, Except.bind, Functor.map, Except.map, view, h.find_insert_pageKey hins hG]

/-! ## One view lemma per operation

`NewPgImp` and `FetchPgImp` agree with the model when the `Insert` they make returns below
depth 32; a call that returns has seen its `Insert` return. -/

theorem newPgImp_view (h : s.pageTable.Inv)
    (hins : ∀ f s₁, s.acquireFrame order = .ok (some f, s₁) →
      ∃ t', s₁.pageTable.insert fuel ⟨s₁.nextPageId⟩ f = some t' ∧ t'.globalDepth < 32) :
    (fun r => (r.1, r.2.view)) <$> s.newPgImp fuel order = s.view.newPgImp order := by
  unfold newPgImp Bustub.BufferPoolManagerInstance.newPgImp
  rw [← acquireFrame_view h]
  cases ha : s.acquireFrame order with
  | error e => rfl
  | ok r =>
    obtain ⟨fr, s₁⟩ := r
    cases fr with
    | none => rfl
    | some f =>
      obtain ⟨t', ht', hG⟩ := hins f s₁ ha
      have hv : view <$> s₁.allocatePage.2.installPage fuel f s₁.allocatePage.1
          (s₁.allocatePage.2.pages f).data = s₁.view.allocatePage.2.installPage f
          s₁.view.allocatePage.1 (s₁.view.allocatePage.2.pages f).data :=
        installPage_view (s := s₁.allocatePage.2) ((acquireFrame_ok ha).2.2.2.shape h).1 ht' hG _
      dsimp only [bind, Except.bind, Functor.map, Except.map]
      rw [← hv]
      cases s₁.allocatePage.2.installPage fuel f s₁.allocatePage.1
        (s₁.allocatePage.2.pages f).data <;> rfl

theorem newPgImp_inserts {res : Option (Int × Nat)} (he : s.newPgImp fuel order = .ok (res, s'))
    (ha : s.acquireFrame order = .ok (some f, s₁)) :
    s₁.pageTable.insert fuel ⟨s₁.nextPageId⟩ f = some s'.pageTable := by
  obtain ⟨frame, s₂, ha', hcases⟩ := newPgImp_eq_ok he
  rw [ha, Except.ok.injEq, Prod.mk.injEq] at ha'
  obtain ⟨rfl, rfl⟩ := ha'
  rcases hcases with ⟨h, -⟩ | ⟨g, hg, -, hi⟩
  · cases h
  · cases hg; exact (installPage_ok hi).1

theorem fetchPgImp_view (h : s.pageTable.Inv)
    (hins : s.pageTable.find ⟨p⟩ = none → ∀ f s₁, s.acquireFrame order = .ok (some f, s₁) →
      ∃ t', s₁.pageTable.insert fuel ⟨p⟩ f = some t' ∧ t'.globalDepth < 32) :
    (fun r => (r.1, r.2.view)) <$> s.fetchPgImp fuel p order = s.view.fetchPgImp p order := by
  unfold fetchPgImp Bustub.BufferPoolManagerInstance.fetchPgImp
  rw [view_pageTable]
  cases hf : s.pageTable.find ⟨p⟩ with
  | some g =>
    dsimp only
    rw [view_replacer]
    cases Bustub.BufferPoolManagerInstance.accessFrame s.replacer g <;> rfl
  | none =>
    rw [← acquireFrame_view h]
    cases ha : s.acquireFrame order with
    | error e => rfl
    | ok r =>
      obtain ⟨fr, s₁⟩ := r
      cases fr with
      | none => rfl
      | some f =>
        obtain ⟨t', ht', hG⟩ := hins hf f s₁ ha
        have hv := installPage_view ((acquireFrame_ok ha).2.2.2.shape h).1 ht' hG
          (s₁.diskManager.readPage p)
        dsimp only [bind, Except.bind, Functor.map, Except.map]
        rw [view_diskManager, ← hv]
        cases s₁.installPage fuel f p (s₁.diskManager.readPage p) <;> rfl

theorem fetchPgImp_inserts {frame : Option Nat} (he : s.fetchPgImp fuel p order = .ok (frame, s'))
    (hf : s.pageTable.find ⟨p⟩ = none) (ha : s.acquireFrame order = .ok (some f, s₁)) :
    s₁.pageTable.insert fuel ⟨p⟩ f = some s'.pageTable := by
  rcases fetchPgImp_eq_ok he with ⟨g, -, hg, -⟩ | ⟨-, s₂, ha', hcases⟩
  · rw [hf] at hg; cases hg
  · rw [ha, Except.ok.injEq, Prod.mk.injEq] at ha'
    obtain ⟨rfl, rfl⟩ := ha'
    rcases hcases with ⟨h, -⟩ | ⟨g, hg, hi⟩
    · cases h
    · cases hg; exact (installPage_ok hi).1

theorem unpinPgImp_view (p : Int) (isDirty : Bool) :
    (fun r => (r.1, r.2.view)) <$> s.unpinPgImp p isDirty = s.view.unpinPgImp p isDirty := by
  unfold unpinPgImp Bustub.BufferPoolManagerInstance.unpinPgImp
  rw [view_pageTable]
  cases s.pageTable.find ⟨p⟩ with
  | none => rfl
  | some g =>
    dsimp only
    rw [view_pages]
    split_ifs
    · rfl
    · rw [view_replacer]
      cases s.replacer.setEvictable g true <;> rfl
    · rfl

theorem flushPgImp_view (p : Int) :
    (fun r => (r.1, r.2.view)) (s.flushPgImp p) = s.view.flushPgImp p := by
  unfold flushPgImp Bustub.BufferPoolManagerInstance.flushPgImp
  rw [view_pageTable]
  split_ifs
  · rfl
  · cases s.pageTable.find ⟨p⟩ <;> rfl

theorem flushFrame_view (i : Nat) : (s.flushFrame i).view = s.view.flushFrame i := by
  unfold flushFrame Bustub.BufferPoolManagerInstance.flushFrame
  dsimp only
  rw [view_pages]
  split_ifs <;> rfl

theorem flushAllPgsImp_view : s.flushAllPgsImp.view = s.view.flushAllPgsImp := by
  unfold flushAllPgsImp Bustub.BufferPoolManagerInstance.flushAllPgsImp
  rw [view_poolSize]
  induction List.range s.poolSize generalizing s with
  | nil => rfl
  | cons i l ih => rw [List.foldl_cons, List.foldl_cons, ih, flushFrame_view]

variable [Zero Data]

theorem deletePgImp_view (h : s.pageTable.Inv) (p : Int) :
    (fun r => (r.1, r.2.view)) <$> s.deletePgImp p = s.view.deletePgImp p := by
  unfold deletePgImp Bustub.BufferPoolManagerInstance.deletePgImp
  rw [view_pageTable]
  cases s.pageTable.find ⟨p⟩ with
  | none => rfl
  | some g =>
    dsimp only
    rw [view_pages]
    split_ifs
    · rfl
    all_goals
      rw [view_replacer]
      cases s.replacer.remove g <;>
        simp [bind, Except.bind, Functor.map, Except.map, view, h.find_remove_pageKey]

/-! ## Calls -/

/-- Every `page_table_->Insert` that call `c` makes returns within `fuel` turns, leaving a
table below depth 32. -/
def InsertsReturn (s : BufferPoolManagerInstance Data) (fuel : Nat) : BpmCall → Prop
  | .newPg order => ∀ f s₁, s.acquireFrame order = .ok (some f, s₁) →
      ∃ t', s₁.pageTable.insert fuel ⟨s₁.nextPageId⟩ f = some t' ∧ t'.globalDepth < 32
  | .fetchPg p order => s.pageTable.find ⟨p⟩ = none → ∀ f s₁,
      s.acquireFrame order = .ok (some f, s₁) →
        ∃ t', s₁.pageTable.insert fuel ⟨p⟩ f = some t' ∧ t'.globalDepth < 32
  | _ => True

/-- A call whose `Insert` calls return is the model's call on the view: the same reply, or
the same failed assertion, and the view of the state it leaves. -/
theorem exec_view (h : s.pageTable.Inv) {c : BpmCall} (hins : s.InsertsReturn fuel c) :
    (fun r => (r.1, r.2.view)) <$> s.exec fuel c = s.view.exec c := by
  cases c <;> dsimp only [exec, Bustub.BufferPoolManagerInstance.exec]
  case newPg order =>
    rw [← newPgImp_view h hins]
    cases s.newPgImp fuel order <;> rfl
  case fetchPg p order =>
    rw [← fetchPgImp_view h hins]
    cases s.fetchPgImp fuel p order <;> rfl
  case unpinPg p isDirty =>
    rw [← unpinPgImp_view]
    cases s.unpinPgImp p isDirty <;> rfl
  case flushPg p => rw [← flushPgImp_view]; rfl
  case flushAllPgs => rw [← flushAllPgsImp_view]; rfl
  case deletePg p =>
    rw [← deletePgImp_view h]
    cases s.deletePgImp p <;> rfl

/-- A call that returns, leaving a table below depth 32, has seen each of its `Insert` calls
return. -/
theorem insertsReturn_of_ok {c : BpmCall} {out : BpmReply} (he : s.exec fuel c = .ok (out, s'))
    (hG : s'.pageTable.globalDepth < 32) : s.InsertsReturn fuel c := by
  cases c with
  | newPg order =>
    obtain ⟨⟨r, s₂⟩, hn, he⟩ := map_eq_ok he; cases he
    exact fun f s₁ ha => ⟨_, newPgImp_inserts hn ha, hG⟩
  | fetchPg p order =>
    obtain ⟨⟨r, s₂⟩, hf, he⟩ := map_eq_ok he; cases he
    exact fun hn f s₁ ha => ⟨_, fetchPgImp_inserts hf hn ha, hG⟩
  | _ => trivial

/-- A call of the code that returns from a table satisfying `Inv`, leaving a table below depth
32, is the model's call on the view. -/
theorem exec_view_ok (h : s.pageTable.Inv) (hG : s'.pageTable.globalDepth < 32) {c : BpmCall}
    {out : BpmReply} (he : s.exec fuel c = .ok (out, s')) : s.view.exec c = .ok (out, s'.view) := by
  rw [← exec_view h (insertsReturn_of_ok he hG), he]; rfl

/-- The constructor of the code fails as the model's does, or builds the model's pool. -/
theorem init_view (poolSize replacerK bucketSize : Nat) (d : DiskManager Data) :
    view <$> init poolSize replacerK bucketSize d =
      Bustub.BufferPoolManagerInstance.init poolSize replacerK d := by
  unfold init Bustub.BufferPoolManagerInstance.init
  cases LRUKReplacer.init poolSize replacerK <;>
    simp [bind, Except.bind, Functor.map, Except.map, view, ExtendibleHashTable.find_init]

theorem init_view_ok {poolSize replacerK bucketSize : Nat} {d : DiskManager Data}
    (h : init poolSize replacerK bucketSize d = .ok s) :
    Bustub.BufferPoolManagerInstance.init poolSize replacerK d = .ok s.view := by
  rw [← init_view, h]; rfl

theorem init_pageTable {poolSize replacerK bucketSize : Nat} {d : DiskManager Data}
    (h : init poolSize replacerK bucketSize d = .ok s) :
    s.pageTable = ExtendibleHashTable.init bucketSize := by
  unfold init at h
  cases hr : LRUKReplacer.init poolSize replacerK with
  | error e => rw [hr] at h; cases h
  | ok r => rw [hr] at h; cases h; rfl

/-! ## The iteration order of the replacer's map -/

variable {cs : List BpmCall} {outs : List BpmReply}

/-- Every run of the code's pool keeps the replacer's invariant: every replacer call that
returns keeps it. -/
theorem Run.replacer_inv (h : Run fuel cs outs s) : s.replacer.Inv := by
  induction h with
  | init h => exact (Bustub.BufferPoolManagerInstance.init_frameInv (init_view_ok h)).replacer_inv
  | snoc _ _ he ih => exact (exec_effect he).replacer_inv ih

omit [Zero Data] in
/-- With the replacer's invariant, taking a frame does the same over every iteration order of
`frame_map_`. -/
theorem acquireFrame_order (hr : s.replacer.Inv) {o₁ o₂ : List Nat}
    (h₁ : s.replacer.IsIterationOrder o₁) (h₂ : s.replacer.IsIterationOrder o₂) :
    s.acquireFrame o₁ = s.acquireFrame o₂ := by
  simp only [acquireFrame, hr.evict_order h₁ h₂]

/-- Along every run of the code's pool, `NewPgImp` and `FetchPgImp` reply the same and leave
the same pool, page table and disk included, over every iteration order of the replacer's
`frame_map_`: the order the code cannot choose never shows. -/
theorem Run.exec_order_independent (h : Run fuel cs outs s) {o₁ o₂ : List Nat}
    (h₁ : s.replacer.IsIterationOrder o₁) (h₂ : s.replacer.IsIterationOrder o₂) (p : Int) :
    s.exec fuel (.newPg o₁) = s.exec fuel (.newPg o₂) ∧
      s.exec fuel (.fetchPg p o₁) = s.exec fuel (.fetchPg p o₂) := by
  have ha := acquireFrame_order h.replacer_inv h₁ h₂
  exact ⟨by simp only [exec, newPgImp, ha], by simp only [exec, fetchPgImp, ha]⟩

/-- A full pool of two frames holding two unpinned pages: `NewPgImp` and `FetchPgImp` of an
absent page evict one, scanning the map in either order. -/
theorem exec_order_independent_two_frames :
    ∃ (cs : List BpmCall) (outs : List BpmReply) (s : BufferPoolManagerInstance Nat),
      Run 65 cs outs s ∧ s.replacer.IsIterationOrder [0, 1] ∧ s.replacer.IsIterationOrder [1, 0] ∧
      (s.exec 65 (.newPg [0, 1]) = s.exec 65 (.newPg [1, 0]) ∧
        s.exec 65 (.fetchPg 2 [0, 1]) = s.exec 65 (.fetchPg 2 [1, 0])) := by
  have h₀ : Run 65 [] [] _ := .init (rfl : init 2 2 1 (⟨fun _ => 0, []⟩ : DiskManager Nat) = _)
  have h₁ := Run.snoc (c := .newPg []) h₀ ⟨List.nodup_nil, fun f => by simp⟩ rfl
  have h₂ := Run.snoc (c := .newPg [0]) h₁ ⟨List.nodup_singleton 0, fun f => by
    rcases f with _ | f <;> simp [Function.update]⟩ rfl
  have h₃ := Run.snoc (c := .unpinPg 0 false) h₂ trivial rfl
  have h₄ := Run.snoc (c := .unpinPg 1 false) h₃ trivial rfl
  obtain ⟨s, hs, h₀₁, h₁₀⟩ : ∃ s : BufferPoolManagerInstance Nat, Run 65 _ _ s ∧
      s.replacer.IsIterationOrder [0, 1] ∧ s.replacer.IsIterationOrder [1, 0] := by
    refine ⟨_, h₄, ⟨by decide, fun f => ?_⟩, ⟨by decide, fun f => ?_⟩⟩ <;>
    · rcases f with _ | _ | f <;> simp [Function.update]
  exact ⟨_, _, s, hs, h₀₁, h₁₀, hs.exec_order_independent h₀₁ h₁₀ 2⟩

end BufferPoolManagerInstance

end Conc

end Bustub
