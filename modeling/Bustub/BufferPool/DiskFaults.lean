import Bustub.BufferPool.PageIds

/-! # When the disk manager raises

`NewPgImp` and `FetchPgImp` catch nothing. When the disk manager raises inside them, the pool
keeps the state reached at the raise (`DiskRaise`):

* `ReadPage` on a miss of `FetchPgImp` runs once the frame is taken, popped from
  `free_list_` or evicted, written back and erased from the page table; the frame is then on
  no list, in no entry of the page table and without a record in the replacer;
* the write-back `WritePage` of a dirty victim runs after `Evict` has erased the victim's
  record, so the victim stays resident without a record.

From every pool satisfying `Inv`, each raise leaves a frame off the free list that the
replacer does not track, which `Inv` forbids (`Inv.diskRaise`). A raise of `ReadPage` loses
the frame for good: on a pool of one frame whose page was deleted, a `FetchPgImp` whose read
raises drains the pool (`Drained`), and from then on no run finds the frame pinned, yet every
`NewPgImp` returns `nullptr` (`read_raise_leaks_frame`).

`DiskManager` is not part of the sources; that its `ReadPage` or `WritePage` may raise is the
premise studied here. What a raising `ReadPage` leaves in the frame's buffer is not modelled:
nothing below reads it.
-/

namespace Bustub

namespace BufferPoolManagerInstance

open LRUKReplacer

variable {Data : Type}

/-- The state `NewPgImp` or `FetchPgImp` leaves when the disk manager raises inside it:
`ReadPage` of a miss of `FetchPgImp` raises after `acquireFrame`, before the frame's metadata,
the page table and the replacer are set; the write-back `WritePage` of a dirty victim raises
after `Evict`, before the dirty flag is cleared and the page table forgets the victim. -/
inductive DiskRaise (s : BufferPoolManagerInstance Data) :
    BpmCall → BufferPoolManagerInstance Data → Prop
  | readPage {p : Int} {order : List Nat} {f : Nat} {s₁ : BufferPoolManagerInstance Data} :
      s.pageTable p = none → s.acquireFrame order = .ok (some f, s₁) →
        DiskRaise s (.fetchPg p order) s₁
  | writeBack {c : BpmCall} {order : List Nat} {w : Nat} {r' : LRUKReplacer} :
      (c = .newPg order ∨ ∃ p, c = .fetchPg p order ∧ s.pageTable p = none) →
      s.freeList = [] → s.replacer.evict order = .ok (some w, r') → (s.pages w).isDirty = true →
        DiskRaise s c { s with replacer := r' }

/-- Frame `f` is lost to the pool: on no list, in no entry of the page table and without a
record in the replacer, so that no call hands it out again. -/
structure Leaked (s : BufferPoolManagerInstance Data) (f : Nat) : Prop where
  not_free : f ∉ s.freeList
  no_entry : ∀ p, s.pageTable p ≠ some f
  no_record : s.replacer.frameMap f = none

variable {s s' : BufferPoolManagerInstance Data} {c : BpmCall}

/-! ## Every raise breaks the invariant -/

/-- A call whose `Evict` runs is admissible only with an iteration order of the replacer. -/
theorem admissible_order {order : List Nat}
    (hcall : c = .newPg order ∨ ∃ p, c = .fetchPg p order ∧ s.pageTable p = none)
    (hc : s.Admissible c) : s.replacer.IsIterationOrder order := by
  rcases hcall with rfl | ⟨p, rfl, -⟩
  exacts [hc, hc.2.2]

/-- Under `Inv` a frame of the pool off the free list has a record in the replacer. -/
theorem Inv.record_ne_none (h : s.Inv) {f : Nat} (hf : f < s.poolSize)
    (hnf : f ∉ s.freeList) : s.replacer.frameMap f ≠ none := by
  obtain ⟨info, hinfo, -⟩ := h.record f hf hnf
  rw [hinfo]; exact Option.some_ne_none _

/-- From a pool satisfying `Inv`, every raise leaves a frame of the pool off the free list
without a record in the replacer, so the pool no longer satisfies `Inv`. -/
theorem Inv.diskRaise (h : s.Inv) (hc : s.Admissible c) (hr : s.DiskRaise c s') :
    (∃ f < s'.poolSize, f ∉ s'.freeList ∧ s'.replacer.frameMap f = none) ∧ ¬ s'.Inv := by
  have huntracked : ∃ f < s'.poolSize, f ∉ s'.freeList ∧ s'.replacer.frameMap f = none := by
    cases hr with
    | readPage _ ha =>
      obtain ⟨hd, -⟩ := h.acquireFrame hc.2.2 ha
      exact ⟨_, hd.lt, hd.not_free, hd.no_record⟩
    | writeBack hcall _ he _ =>
      obtain ⟨hw, hnf, -, -, -, hmap, -⟩ := h.evict_victim (admissible_order hcall hc) he
      exact ⟨_, hw, hnf, by simp [hmap]⟩
  exact ⟨huntracked, fun h' =>
    let ⟨_, hf, hnf, hnone⟩ := huntracked
    h'.record_ne_none hf hnf hnone⟩

/-- A raise of `ReadPage` leaks the frame the miss took. -/
theorem Inv.readRaise_leaked (h : s.Inv) {order : List Nat}
    (ho : s.replacer.IsIterationOrder order) {f : Nat}
    (ha : s.acquireFrame order = .ok (some f, s')) : s'.Leaked f :=
  have hd := (h.acquireFrame ho ha).1
  ⟨hd.not_free, hd.no_entry, hd.no_record⟩

/-! ## A drained pool -/

/-- A pool with no frame to hand out: nothing on the free list, no page in the page table
and no evictable record in the replacer. -/
structure Drained (s : BufferPoolManagerInstance Data) : Prop where
  free_nil : s.freeList = []
  no_entry : ∀ p, s.pageTable p = none
  currSize_zero : s.replacer.currSize = 0

/-- A drained pool takes no frame and changes nothing. -/
theorem Drained.acquireFrame (hd : s.Drained) {order : List Nat} {frame : Option Nat}
    (ha : s.acquireFrame order = .ok (frame, s')) : frame = none ∧ s' = s := by
  rcases acquireFrame_eq_ok ha with ⟨f, rest, hfl, -, -⟩ | ⟨-, -, rfl, rfl⟩ |
    ⟨w, r', -, he, -, -⟩
  · rw [hd.free_nil] at hfl; cases hfl
  · exact ⟨rfl, rfl⟩
  · rcases evict_eq_ok he with ⟨-, hv, -⟩ | ⟨-, -, hcs, -⟩
    · cases hv
    · exact absurd hd.currSize_zero hcs

/-- A pool satisfying `Inv` whose frames are all free has no page and no record. -/
theorem Inv.all_free (h : s.Inv) (hall : ∀ f < s.poolSize, f ∈ s.freeList) :
    (∀ p, s.pageTable p = none) ∧ (∀ f, s.replacer.frameMap f = none) ∧
      s.replacer.currSize = 0 := by
  have hnone : ∀ f, s.replacer.frameMap f = none := fun f => by
    by_contra hf
    have hlt := h.replacerSize_eq ▸ h.replacer_inv.in_range f hf
    exact hf (h.free f (hall f hlt)).2.2
  refine ⟨fun p => ?_, hnone, ?_⟩
  · cases hp : s.pageTable p with
    | none => rfl
    | some f =>
      obtain ⟨hf, hnf, -⟩ := h.table p f hp
      exact absurd (hall f hf) hnf
  · rw [h.replacer_inv.currSize_eq, evictableCount]
    exact List.countP_eq_zero.2 fun f _ => by simp [isEvictable, hnone f]

variable [Zero Data]

/-- From a drained pool every call hands out no page and changes at most the disk and the
dirty flags: the pool stays drained, with its size and every pin count. -/
theorem Drained.exec (hd : s.Drained) {out : BpmReply} (he : s.exec c = .ok (out, s')) :
    s'.Drained ∧ s'.poolSize = s.poolSize ∧
      (∀ f, (s'.pages f).pinCount = (s.pages f).pinCount) ∧
      ∀ order, c = .newPg order → out = .newPg none := by
  cases c with
  | newPg order =>
    obtain ⟨⟨res, s₂⟩, hn, he⟩ := map_eq_ok he; cases he
    obtain ⟨frame, s₁, ha, ⟨rfl, rfl, rfl⟩ | ⟨f, rfl, -⟩⟩ := newPgImp_eq_ok hn
    · obtain ⟨-, rfl⟩ := hd.acquireFrame ha
      exact ⟨hd, rfl, fun _ => rfl, fun _ _ => rfl⟩
    · cases (hd.acquireFrame ha).1
  | fetchPg p order =>
    obtain ⟨⟨frame, s₂⟩, hfe, he⟩ := map_eq_ok he; cases he
    rcases fetchPgImp_eq_ok hfe with ⟨f, -, hf, -⟩ | ⟨-, s₁, ha, ⟨rfl, rfl⟩ | ⟨f, rfl, -⟩⟩
    · rw [hd.no_entry] at hf; cases hf
    · obtain ⟨-, rfl⟩ := hd.acquireFrame ha
      exact ⟨hd, rfl, fun _ => rfl, fun _ hc => by cases hc⟩
    · cases (hd.acquireFrame ha).1
  | unpinPg p isDirty =>
    obtain ⟨⟨b, s₂⟩, hu, he⟩ := map_eq_ok he; cases he
    rcases unpinPgImp_eq_ok hu with ⟨-, rfl, -⟩ | ⟨-, f, -, hf, -⟩
    · exact ⟨hd, rfl, fun _ => rfl, fun _ hc => by cases hc⟩
    · rw [hd.no_entry] at hf; cases hf
  | flushPg p =>
    cases he
    rcases flushPgImp_eq s p with he | ⟨f, -, hf, -⟩
    · rw [he]; exact ⟨hd, rfl, fun _ => rfl, fun _ hc => by cases hc⟩
    · rw [hd.no_entry] at hf; cases hf
  | flushAllPgs =>
    cases he
    rw [flushAllPgsImp_eq]
    exact ⟨⟨hd.free_nil, hd.no_entry, hd.currSize_zero⟩, rfl,
      fun f => by dsimp only; split_ifs <;> rfl, fun _ hc => by cases hc⟩
  | deletePg p =>
    obtain ⟨⟨b, s₂⟩, hdel, he⟩ := map_eq_ok he; cases he
    rcases deletePgImp_eq_ok hdel with ⟨-, -, rfl⟩ | ⟨-, f, hf, -⟩ | ⟨-, f, -, hf, -⟩
    · exact ⟨hd, rfl, fun _ => rfl, fun _ hc => by cases hc⟩
    all_goals rw [hd.no_entry] at hf; cases hf

/-- The pools reached from `s` by admissible calls. -/
inductive Follows (s : BufferPoolManagerInstance Data) : BufferPoolManagerInstance Data → Prop
  | refl : Follows s s
  | step {s₁ s₂ : BufferPoolManagerInstance Data} {c : BpmCall} {out : BpmReply} :
      Follows s s₁ → s₁.Admissible c → s₁.exec c = .ok (out, s₂) → Follows s s₂

/-- Every run from a drained pool stays drained and moves no pin. -/
theorem Drained.follows (hd : s.Drained) {s'' : BufferPoolManagerInstance Data}
    (hf : s.Follows s'') :
    s''.Drained ∧ s''.poolSize = s.poolSize ∧
      ∀ f, (s''.pages f).pinCount = (s.pages f).pinCount := by
  induction hf with
  | refl => exact ⟨hd, rfl, fun _ => rfl⟩
  | step _ _ he ih =>
    obtain ⟨hd', hsize, hpin⟩ := ih
    obtain ⟨hd'', hsize', hpin', -⟩ := hd'.exec he
    exact ⟨hd'', hsize'.trans hsize, fun f => (hpin' f).trans (hpin f)⟩

/-! ## A frame lost for good -/

/-- From a pool satisfying `Inv` whose only frame is free, a `FetchPgImp` of an allocated page
whose `ReadPage` raises leaves a pool that breaks `Inv` and has leaked the frame; from then on
no run finds the frame pinned, yet every `NewPgImp` returns `nullptr`. -/
theorem Inv.readRaise_single_frame (h : s.Inv) (hsize : s.poolSize = 1) (hfl : s.freeList = [0])
    {p : Int} (hp : 0 ≤ p ∧ p < s.nextPageId) :
    s.Admissible (.fetchPg p []) ∧ s.DiskRaise (.fetchPg p []) { s with freeList := [] } ∧
      ¬ ({ s with freeList := [] } : BufferPoolManagerInstance Data).Inv ∧
      ({ s with freeList := [] } : BufferPoolManagerInstance Data).Leaked 0 ∧
      ∀ s₁, ({ s with freeList := [] } : BufferPoolManagerInstance Data).Follows s₁ →
        ¬ s₁.AllPinned ∧
          ∀ order out s₂, s₁.exec (.newPg order) = .ok (out, s₂) → out = .newPg none := by
  have hmem : 0 ∈ s.freeList := by rw [hfl]; exact List.mem_singleton_self 0
  obtain ⟨hpt, hnone, hcs⟩ := h.all_free fun f hf => by
    rw [hsize, Nat.lt_one_iff] at hf; rwa [hf]
  have ho : s.replacer.IsIterationOrder [] := ⟨List.nodup_nil, fun f => by simp [hnone f]⟩
  have ha : s.acquireFrame [] = .ok (some 0, { s with freeList := [] }) := by
    unfold BufferPoolManagerInstance.acquireFrame; rw [hfl]
  have hc : s.Admissible (.fetchPg p []) := ⟨hp.1, hp.2, ho⟩
  have hr : s.DiskRaise (.fetchPg p []) { s with freeList := [] } := .readPage (hpt p) ha
  have hd : ({ s with freeList := [] } : BufferPoolManagerInstance Data).Drained :=
    ⟨rfl, hpt, hcs⟩
  refine ⟨hc, hr, (h.diskRaise hc hr).2, h.readRaise_leaked ho ha, fun s₁ hf => ?_⟩
  obtain ⟨hd₁, hsize₁, hpin⟩ := hd.follows hf
  refine ⟨fun hall => ?_, fun order out s₂ he => (hd₁.exec he).2.2.2 order rfl⟩
  have h0 := (hall 0 (by rw [hsize₁]; exact (hsize.symm ▸ Nat.one_pos : 0 < s.poolSize))).2
  rw [hpin] at h0
  exact absurd (h.free 0 hmem).2.1 h0.ne'

/-- A pool of one frame: `NewPgImp`, `UnpinPgImp(0, false)` and `DeletePgImp(0)` put the frame
back on the free list; then `FetchPgImp(0)` takes it, and its `ReadPage` raises. The pool no
longer satisfies `Inv`, frame 0 is leaked, and from then on no run finds the frame pinned,
yet every `NewPgImp` returns `nullptr`. -/
theorem read_raise_leaks_frame :
    ∃ s s' : BufferPoolManagerInstance Nat,
      Run ([] ++ [.newPg []] ++ [.unpinPg 0 false] ++ [.deletePg 0])
        ([] ++ [.newPg (some (0, 0))] ++ [.flag true] ++ [.flag true]) s ∧
      s.poolSize = 1 ∧ s.Admissible (.fetchPg 0 []) ∧ s.DiskRaise (.fetchPg 0 []) s' ∧
      ¬ s'.Inv ∧ s'.Leaked 0 ∧
      ∀ s₁, s'.Follows s₁ → ¬ s₁.AllPinned ∧
        ∀ order out s₂, s₁.exec (.newPg order) = .ok (out, s₂) → out = .newPg none := by
  have h₀ := Run.init (rfl : init 1 2 (⟨fun _ => 0, []⟩ : DiskManager Nat) = _)
  have h₁ := Run.snoc (c := .newPg []) h₀ ⟨List.nodup_nil, fun f => by simp⟩ rfl
  have h₂ := Run.snoc (c := .unpinPg 0 false) h₁ trivial rfl
  have h₃ := Run.snoc (c := .deletePg 0) h₂ trivial rfl
  exact ⟨_, _, h₃, rfl, (h₃.inv (by decide)).readRaise_single_frame rfl rfl ⟨le_rfl, by decide⟩⟩

end BufferPoolManagerInstance

end Bustub
