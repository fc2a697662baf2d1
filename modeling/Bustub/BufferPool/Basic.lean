import Bustub.Replacer.Basic

/-! # The buffer pool manager

`BufferPoolManagerInstance` of `buffer_pool_manager_instance.cpp`: the frames `pages_`, the
page table, the LRU-K replacer, `free_list_` and `next_page_id_`, and the six operations
`NewPgImp`, `FetchPgImp`, `UnpinPgImp`, `FlushPgImp`, `FlushAllPgsImp` and `DeletePgImp`.
The pool mutex serialises the operations, so a run is a sequence of calls.

## What is taken from elsewhere

* The page table `page_table_` is an `ExtendibleHashTable<page_id_t, frame_id_t>`; here it is
  the finite map that table refines (`ExtendibleHashTable.refines_finite_map`).
* `Page` and `DiskManager` are declared in headers that are not part of the sources. A page
  is its four fields, a new page holds `INVALID_PAGE_ID`, no pin, a clean flag and zeroed
  data, and `ResetMemory` zeroes the data; page contents are a type `Data` with a zero.
  The disk is a store of pages with the log of its writes. `page_id_t` is an integer
  with `INVALID_PAGE_ID = -1` (`invalidPageId`); `next_page_id_` starts at zero
  (`firstPageId`) and `DeallocatePage` does nothing. These declarations say so in their
  docstrings.
* `page_id_t` is a 32-bit signed integer, so `next_page_id_++` wraps from `INT_MAX` to
  `INT_MIN` in two's complement arithmetic, as gcc computes it (`toPageId`). The page ids are
  integers, and `toPageId` brings each new value of the counter into the range of
  `page_id_t`.
* A `BUSTUB_ASSERT` of the replacer ends the process: an operation returns `Except String`,
  with the replacer's message. `Evict` takes the iteration order of `frame_map_`, which
  `NewPgImp` and `FetchPgImp` therefore receive as an argument.
* `pin_count_` is an `int` that `UnpinPgImp` decrements only when it is positive, so it is a
  natural number here.
-/

namespace Bustub

/-- Modelled from the spec: `INVALID_PAGE_ID` of `config.h`, the reserved id of no page.
It is negative, so no id that `next_page_id_` hands out from zero is the sentinel. -/
def invalidPageId : Int := -1

/-- Modelled from the spec: an integer as a value of the 32-bit `page_id_t`, wrapped into
`[-2 ^ 31, 2 ^ 31)` as two's complement arithmetic does. -/
def toPageId (x : Int) : Int := (x + 2 ^ 31) % 2 ^ 32 - 2 ^ 31

/-- Values of `page_id_t` are their own `toPageId`. -/
theorem toPageId_of_mem {x : Int} (h0 : -2 ^ 31 ≤ x) (h1 : x < 2 ^ 31) : toPageId x = x := by
  unfold toPageId; omega

theorem toPageId_toPageId_add (x y : Int) : toPageId (toPageId x + y) = toPageId (x + y) := by
  unfold toPageId; omega

@[simp] theorem toPageId_toPageId (x : Int) : toPageId (toPageId x) = toPageId x := by
  unfold toPageId; omega

/-- Modelled from the spec: a frame of `pages_`, the fields of `Page` (`page.h`): the page it
holds, its pin count, its dirty flag and its contents. -/
structure Page (Data : Type) where
  pageId : Int
  pinCount : Nat
  isDirty : Bool
  data : Data

namespace Page

variable {Data : Type} [Zero Data]

/-- Modelled from the spec: a page as constructed, and as `DeletePgImp` leaves it (sentinel id,
no pin, clean, zeroed buffer). -/
def empty : Page Data := ⟨invalidPageId, 0, false, 0⟩

end Page

/-- Modelled from the spec: the `DiskManager` (`disk_manager.h`), the pages it stores and the
log of its `WritePage` calls. -/
structure DiskManager (Data : Type) where
  pages : Int → Data
  writes : List (Int × Data)

namespace DiskManager

variable {Data : Type}

/-- Modelled from the spec: `WritePage(page_id, data)` stores the page and logs the write. -/
def writePage (d : DiskManager Data) (pageId : Int) (data : Data) : DiskManager Data :=
  ⟨Function.update d.pages pageId data, d.writes ++ [(pageId, data)]⟩

/-- Modelled from the spec: `ReadPage(page_id, data)`, the data it copies into the frame. -/
def readPage (d : DiskManager Data) (pageId : Int) : Data := d.pages pageId

end DiskManager

/-- The fields of `BufferPoolManagerInstance`. -/
structure BufferPoolManagerInstance (Data : Type) where
  poolSize : Nat
  pages : Nat → Page Data
  diskManager : DiskManager Data
  pageTable : Int → Option Nat
  replacer : LRUKReplacer
  freeList : List Nat
  nextPageId : Int

/-- The calls of the pool's interface. `newPg` and `fetchPg` carry the iteration order of
the replacer's map for a possible `Evict`. -/
inductive BpmCall
  | newPg (order : List Nat)
  | fetchPg (pageId : Int) (order : List Nat)
  | unpinPg (pageId : Int) (isDirty : Bool)
  | flushPg (pageId : Int)
  | flushAllPgs
  | deletePg (pageId : Int)

/-- What a call returns: the new page's id and frame, or the fetched frame (`none` is
`nullptr`), a flag, or nothing. -/
inductive BpmReply
  | newPg (page : Option (Int × Nat))
  | fetchPg (frameId : Option Nat)
  | flag (ok : Bool)
  | done

namespace BufferPoolManagerInstance

variable {Data : Type} [Zero Data]

/-- Modelled from the spec: the first id of the allocator `next_page_id_`, whose initializer
is in the header. -/
def firstPageId : Int := 0

/-- The constructor: every frame empty and on the free list, in order. -/
def init (poolSize replacerK : Nat) (diskManager : DiskManager Data) :
    Except String (BufferPoolManagerInstance Data) := do
  let replacer ← LRUKReplacer.init poolSize replacerK
  .ok ⟨poolSize, fun _ => Page.empty, diskManager, fun _ => none, replacer, List.range poolSize, firstPageId⟩

/-- `AllocatePage()`: `next_page_id_++`, on the 32-bit `page_id_t`. -/
def allocatePage (s : BufferPoolManagerInstance Data) : Int × BufferPoolManagerInstance Data :=
  (s.nextPageId, { s with nextPageId := toPageId (s.nextPageId + 1) })

/-! ## The blocks shared by `NewPgImp` and `FetchPgImp` -/

/-- The frame for a page to bring in: the front of `free_list_`, or else the victim of
`Evict`, written back when dirty and removed from the page table; `none` (and the state
`Evict` left) when there is neither. -/
def acquireFrame (s : BufferPoolManagerInstance Data) (order : List Nat) :
    Except String (Option Nat × BufferPoolManagerInstance Data) :=
  match s.freeList with
  | frameId :: rest => .ok (some frameId, { s with freeList := rest })
  | [] => do
    let (victim, replacer) ← s.replacer.evict order
    match victim with
    | none => .ok (none, { s with replacer })
    | some frameId =>
      let victimPage := s.pages frameId
      let s := { s with replacer }
      let s := if victimPage.isDirty then
        { s with
          diskManager := s.diskManager.writePage victimPage.pageId victimPage.data
          pages := Function.update s.pages frameId { victimPage with isDirty := false } }
        else s
      .ok (some frameId, { s with pageTable := Function.update s.pageTable victimPage.pageId none })

/-- `RecordAccess(frame_id)` then `SetEvictable(frame_id, false)`. -/
def accessFrame (replacer : LRUKReplacer) (frameId : Nat) : Except String LRUKReplacer := do
  let replacer ← replacer.recordAccess frameId
  replacer.setEvictable frameId false

/-- The frame takes page `pageId` with contents `data`, one pin and a clean flag; the page
table maps the page to it, and the replacer records the access and pins it. -/
def installPage (s : BufferPoolManagerInstance Data) (frameId : Nat) (pageId : Int) (data : Data) :
    Except String (BufferPoolManagerInstance Data) := do
  let replacer ← accessFrame s.replacer frameId
  .ok { s with
    pages := Function.update s.pages frameId ⟨pageId, 1, false, data⟩
    pageTable := Function.update s.pageTable pageId (some frameId)
    replacer }

/-! ## The operations -/

/-- `NewPgImp(&page_id)`: the new page keeps the contents the frame had. -/
def newPgImp (s : BufferPoolManagerInstance Data) (order : List Nat) :
    Except String (Option (Int × Nat) × BufferPoolManagerInstance Data) := do
  let (frame, s) ← s.acquireFrame order
  match frame with
  | none => .ok (none, s)
  | some frameId =>
    let (pageId, s) := s.allocatePage
    let s ← s.installPage frameId pageId (s.pages frameId).data
    .ok (some (pageId, frameId), s)

/-- `FetchPgImp(page_id)`: a resident page gains a pin; otherwise it is read from disk into
a frame. -/
def fetchPgImp (s : BufferPoolManagerInstance Data) (pageId : Int) (order : List Nat) :
    Except String (Option Nat × BufferPoolManagerInstance Data) :=
  match s.pageTable pageId with
  | some frameId => do
    let replacer ← accessFrame s.replacer frameId
    .ok (some frameId, { s with
      pages := Function.update s.pages frameId
        { s.pages frameId with pinCount := (s.pages frameId).pinCount + 1 }
      replacer })
  | none => do
    let (frame, s) ← s.acquireFrame order
    match frame with
    | none => .ok (none, s)
    | some frameId =>
      let s ← s.installPage frameId pageId (s.diskManager.readPage pageId)
      .ok (some frameId, s)

/-- `UnpinPgImp(page_id, is_dirty)`: `false` for a page not resident or not pinned;
otherwise one pin less, the dirty flag or-ed in, and the frame evictable at zero pins. -/
def unpinPgImp (s : BufferPoolManagerInstance Data) (pageId : Int) (isDirty : Bool) :
    Except String (Bool × BufferPoolManagerInstance Data) :=
  match s.pageTable pageId with
  | none => .ok (false, s)
  | some frameId =>
    let page := s.pages frameId
    if page.pinCount = 0 then .ok (false, s)
    else
      let page := { page with pinCount := page.pinCount - 1, isDirty := page.isDirty || isDirty }
      let s := { s with pages := Function.update s.pages frameId page }
      if page.pinCount = 0 then do
        let replacer ← s.replacer.setEvictable frameId true
        .ok (true, { s with replacer })
      else .ok (true, s)

/-- `FlushPgImp(page_id)`: write a resident page and clear its flag. -/
def flushPgImp (s : BufferPoolManagerInstance Data) (pageId : Int) :
    Bool × BufferPoolManagerInstance Data :=
  if pageId = invalidPageId then (false, s)
  else match s.pageTable pageId with
    | none => (false, s)
    | some frameId =>
      (true, { s with
        diskManager := s.diskManager.writePage pageId (s.pages frameId).data
        pages := Function.update s.pages frameId { s.pages frameId with isDirty := false } })

/-- One turn of the loop of `FlushAllPgsImp`: write frame `i` if it holds a dirty page. -/
def flushFrame (s : BufferPoolManagerInstance Data) (i : Nat) : BufferPoolManagerInstance Data :=
  let page := s.pages i
  if page.pageId ≠ invalidPageId ∧ page.isDirty then
    { s with
      diskManager := s.diskManager.writePage page.pageId page.data
      pages := Function.update s.pages i { page with isDirty := false } }
  else s

/-- `FlushAllPgsImp()`: the frames in order. -/
def flushAllPgsImp (s : BufferPoolManagerInstance Data) : BufferPoolManagerInstance Data :=
  (List.range s.poolSize).foldl flushFrame s

/-- `DeletePgImp(page_id)`: `true` for a page not resident, `false` for a pinned one;
otherwise the page is written back when dirty, leaves the page table and the replacer, and
its frame is reset and appended to `free_list_`. `DeallocatePage`, declared in the header,
changes nothing that the model holds. -/
def deletePgImp (s : BufferPoolManagerInstance Data) (pageId : Int) :
    Except String (Bool × BufferPoolManagerInstance Data) :=
  match s.pageTable pageId with
  | none => .ok (true, s)
  | some frameId =>
    let page := s.pages frameId
    if page.pinCount > 0 then .ok (false, s)
    else do
      let diskManager := if page.isDirty then s.diskManager.writePage pageId page.data
        else s.diskManager
      let replacer ← s.replacer.remove frameId
      .ok (true, { s with
        diskManager
        pageTable := Function.update s.pageTable pageId none
        replacer
        pages := Function.update s.pages frameId Page.empty
        freeList := s.freeList ++ [frameId] })

/-! ## Calls -/

/-- A call made on the pool. -/
def exec (s : BufferPoolManagerInstance Data) :
    BpmCall → Except String (BpmReply × BufferPoolManagerInstance Data)
  | .newPg order => (fun p => (.newPg p.1, p.2)) <$> s.newPgImp order
  | .fetchPg pageId order => (fun p => (.fetchPg p.1, p.2)) <$> s.fetchPgImp pageId order
  | .unpinPg pageId isDirty => (fun p => (.flag p.1, p.2)) <$> s.unpinPgImp pageId isDirty
  | .flushPg pageId => .ok (.flag (s.flushPgImp pageId).1, (s.flushPgImp pageId).2)
  | .flushAllPgs => .ok (.done, s.flushAllPgsImp)
  | .deletePg pageId => (fun p => (.flag p.1, p.2)) <$> s.deletePgImp pageId

/-- The callers' side: `FetchPgImp` only of a page id that `NewPgImp` returned, and the
order of the replacer's map for `Evict`. -/
def Admissible (s : BufferPoolManagerInstance Data) : BpmCall → Prop
  | .newPg order => s.replacer.IsIterationOrder order
  | .fetchPg pageId order => 0 ≤ pageId ∧ pageId < s.nextPageId ∧ s.replacer.IsIterationOrder order
  | _ => True

/-- The states reached from the constructor by admissible calls. -/
inductive Reachable : BufferPoolManagerInstance Data → Prop
  | init {poolSize replacerK : Nat} {diskManager : DiskManager Data}
      {s : BufferPoolManagerInstance Data} :
      init poolSize replacerK diskManager = .ok s → Reachable s
  | step {s s' : BufferPoolManagerInstance Data} {c : BpmCall} {out : BpmReply} :
      Reachable s → s.Admissible c → s.exec c = .ok (out, s') → Reachable s'

/-- A run of the pool from its constructor: the admissible calls made, in order, with their
replies. -/
inductive Run : List BpmCall → List BpmReply → BufferPoolManagerInstance Data → Prop
  | init {poolSize replacerK : Nat} {diskManager : DiskManager Data}
      {s : BufferPoolManagerInstance Data} :
      init poolSize replacerK diskManager = .ok s → Run [] [] s
  | snoc {cs : List BpmCall} {outs : List BpmReply} {s s' : BufferPoolManagerInstance Data}
      {c : BpmCall} {out : BpmReply} :
      Run cs outs s → s.Admissible c → s.exec c = .ok (out, s') →
        Run (cs ++ [c]) (outs ++ [out]) s'

theorem Run.reachable {cs : List BpmCall} {outs : List BpmReply} {s : BufferPoolManagerInstance Data}
    (h : Run cs outs s) : s.Reachable := by
  induction h with
  | init h => exact .init h
  | snoc _ hc he ih => exact .step ih hc he

end BufferPoolManagerInstance

/-- The id of the page that a reply of `NewPgImp` hands out. -/
def BpmReply.newPageId : BpmReply → Option Int
  | .newPg (some (p, _)) => some p
  | _ => none

/-- The pages handed out over the replies `outs`: the calls of `AllocatePage`. -/
def allocations (outs : List BpmReply) : Nat := (outs.filterMap BpmReply.newPageId).length

section Allocations

variable {outs : List BpmReply} {out : BpmReply}

@[simp] theorem allocations_nil : allocations [] = 0 := rfl

theorem allocations_append_none (h : out.newPageId = none) :
    allocations (outs ++ [out]) = allocations outs := by
  simp [allocations, List.filterMap_append, h]

theorem allocations_append_some {p : Int} (h : out.newPageId = some p) :
    allocations (outs ++ [out]) = allocations outs + 1 := by
  simp [allocations, List.filterMap_append, h]

theorem allocations_le_append : allocations outs ≤ allocations (outs ++ [out]) := by
  simp [allocations, List.filterMap_append]

end Allocations

end Bustub
