import Mathlib.Data.ENat.Lattice
import Mathlib.Order.CompletePartialOrder
import Mathlib.Logic.Function.Basic

/-! # The LRU-K replacer

`LRUKReplacer` of `lru_k_replacer.h` and its methods (`RecordAccess`, `SetEvictable`,
`Remove`, `Evict`, `Size`). The `unordered_map` `frame_map_` is a partial function from
frame ids to `FrameInfo` records. Its iteration order is not fixed by the language, so
`Evict` takes the order of its scan as an argument: `IsIterationOrder` says which lists
are orders of the map, and every result about `Evict` holds for all of them.

A failed `BUSTUB_ASSERT` ends the process; the methods return `Except String` with the
assertion's message in that case. Frame ids (`frame_id_t`) are natural numbers: the replacer
asserts `frame_id < replacer_size_`, so only ids `0 … replacer_size_ - 1` get past its
methods. The `size_t` counters are natural numbers too: they move by one per call. The
sentinel `std::numeric_limits<size_t>::max()`, the infinite backward distance of the scan,
is `⊤ : ℕ∞`.
-/

namespace Bustub

/-- A frame's record: its last `k` access timestamps, oldest first, and whether it may be
evicted. A new record is not evictable. -/
structure FrameInfo where
  accessTimestamps : List Nat := []
  evictable : Bool := false
deriving DecidableEq, Repr

/-- The replacer's fields. -/
structure LRUKReplacer where
  frameMap : Nat → Option FrameInfo
  currentTimestamp : Nat
  currSize : Nat
  replacerSize : Nat
  k : Nat

/-- The calls of the replacer's interface. `evict` carries the iteration order of
`frame_map_` that its scan follows. -/
inductive ReplacerCall
  | recordAccess (frameId : Nat)
  | setEvictable (frameId : Nat) (setEvictable : Bool)
  | remove (frameId : Nat)
  | evict (order : List Nat)
  | size
deriving DecidableEq, Repr

/-- What a call returns: nothing, the victim of `Evict` (`none` when it returns false), or
the value of `Size`. -/
inductive ReplacerReply
  | done
  | victim (frameId : Option Nat)
  | size (n : Nat)
deriving DecidableEq, Repr

namespace LRUKReplacer

/-- The constructor `LRUKReplacer(num_frames, k)`. -/
def init (numFrames k : Nat) : Except String LRUKReplacer :=
  if 1 ≤ k then .ok ⟨fun _ => none, 0, 0, numFrames, k⟩
  else .error "LRU-K requires k >= 1"

/-! ## Recording accesses and evictability -/

/-- The history kept after an access at time `t`: `push_back`, then `pop_front` when the
list is longer than `k`. -/
def pushTimestamp (k t : Nat) (ts : List Nat) : List Nat :=
  if (ts ++ [t]).length > k then (ts ++ [t]).tail else ts ++ [t]

/-- `RecordAccess(frame_id)`: `frame_map_[frame_id]` creates a non-evictable record on a
first access; the current timestamp is appended and the clock advances. -/
def recordAccess (r : LRUKReplacer) (frameId : Nat) : Except String LRUKReplacer :=
  if frameId < r.replacerSize then
    let frameInfo := (r.frameMap frameId).getD {}
    .ok { r with
      frameMap := Function.update r.frameMap frameId
        (some { frameInfo with
          accessTimestamps := pushTimestamp r.k r.currentTimestamp frameInfo.accessTimestamps })
      currentTimestamp := r.currentTimestamp + 1 }
  else .error "RecordAccess failed: invalid frame_id (out of range)"

/-- `SetEvictable(frame_id, set_evictable)`: a no-op on an unknown frame or an unchanged
flag; otherwise the flag changes and `curr_size_` moves with it. -/
def setEvictable (r : LRUKReplacer) (frameId : Nat) (setEvictable : Bool) :
    Except String LRUKReplacer :=
  if frameId < r.replacerSize then
    match r.frameMap frameId with
    | none => .ok r
    | some frameInfo =>
      if frameInfo.evictable = setEvictable then .ok r
      else .ok { r with
        currSize := if setEvictable then r.currSize + 1 else r.currSize - 1
        frameMap := Function.update r.frameMap frameId
          (some { frameInfo with evictable := setEvictable }) }
  else .error "SetEvictable failed: invalid frame_id (out of range)"

/-- `Remove(frame_id)`: erase an evictable record; an unknown frame is a no-op. -/
def remove (r : LRUKReplacer) (frameId : Nat) : Except String LRUKReplacer :=
  if frameId < r.replacerSize then
    match r.frameMap frameId with
    | none => .ok r
    | some frameInfo =>
      if frameInfo.evictable then
        .ok { r with currSize := r.currSize - 1, frameMap := Function.update r.frameMap frameId none }
      else .error "Remove failed: cannot remove non-evictable frame"
  else .error "Remove failed: invalid frame_id (out of range)"

/-- `Size()`. -/
def size (r : LRUKReplacer) : Nat := r.currSize

/-! ## The victim scan of `Evict` -/

/-- The locals of `Evict`'s loop: `victim_fid` (`none` is `INVALID_FRAME_ID`),
`max_backward_dist` and `earliest_first_ts`. -/
structure EvictScan where
  victimFid : Option Nat := none
  maxBackwardDist : ℕ∞ := 0
  earliestFirstTs : ℕ∞ := ⊤
deriving DecidableEq

/-- One turn of `Evict`'s loop at the key `fid`: records that are not evictable are
skipped. A record with fewer than `k` timestamps has infinite backward distance, and ties
between those go to the earliest first access; otherwise the distance is
`current_timestamp_ - kth_ts`. Calling `front()` on an empty list is undefined, and is an
error here. -/
def evictStep (r : LRUKReplacer) (acc : EvictScan) (fid : Nat) : Except String EvictScan :=
  match r.frameMap fid with
  | none => .ok acc
  | some finfo =>
    if !finfo.evictable then .ok acc
    else match finfo.accessTimestamps with
      | [] => .error "undefined behaviour: front() on an empty access_timestamps"
      | front :: _ =>
        if finfo.accessTimestamps.length < r.k then
          if (⊤ : ℕ∞) > acc.maxBackwardDist then
            .ok { maxBackwardDist := ⊤, earliestFirstTs := front, victimFid := some fid }
          else if (⊤ : ℕ∞) = acc.maxBackwardDist ∧ (front : ℕ∞) < acc.earliestFirstTs then
            .ok { acc with earliestFirstTs := front, victimFid := some fid }
          else .ok acc
        else
          if ((r.currentTimestamp - front : ℕ) : ℕ∞) > acc.maxBackwardDist then
            .ok { acc with maxBackwardDist := (r.currentTimestamp - front : ℕ), victimFid := some fid }
          else .ok acc

/-- The loop of `Evict` over `frame_map_`, visiting its keys in the order `order`. -/
def evictScan (r : LRUKReplacer) (order : List Nat) : Except String EvictScan :=
  order.foldlM r.evictStep {}

/-- `Evict(&frame_id)`, scanning `frame_map_` in the order `order`: `none` when it returns
false. The victim's record is erased. -/
def evict (r : LRUKReplacer) (order : List Nat) :
    Except String (Option Nat × LRUKReplacer) :=
  if r.currSize = 0 then .ok (none, r)
  else do
    let acc ← r.evictScan order
    match acc.victimFid with
    | none => .error "Evict failed: no victim found but curr_size>0"
    | some victimFid =>
      .ok (some victimFid,
        { r with frameMap := Function.update r.frameMap victimFid none, currSize := r.currSize - 1 })

/-- The lists that `frame_map_` can be iterated in: each key once. -/
def IsIterationOrder (r : LRUKReplacer) (order : List Nat) : Prop :=
  order.Nodup ∧ ∀ f, f ∈ order ↔ r.frameMap f ≠ none

/-! ## Calls -/

/-- A call made on the replacer. -/
def exec (r : LRUKReplacer) : ReplacerCall → Except String (ReplacerReply × LRUKReplacer)
  | .recordAccess f => (fun r => (.done, r)) <$> r.recordAccess f
  | .setEvictable f b => (fun r => (.done, r)) <$> r.setEvictable f b
  | .remove f => (fun r => (.done, r)) <$> r.remove f
  | .evict order => (fun p => (.victim p.1, p.2)) <$> r.evict order
  | .size => .ok (.size r.size, r)

/-- The replacer's contract with its caller: frame ids in range, `Remove` only of an
absent or evictable frame, and an order of the map for the scan. -/
def Admissible (r : LRUKReplacer) : ReplacerCall → Prop
  | .recordAccess f => f < r.replacerSize
  | .setEvictable f _ => f < r.replacerSize
  | .remove f => f < r.replacerSize ∧ ∀ info, r.frameMap f = some info → info.evictable
  | .evict order => r.IsIterationOrder order
  | .size => True

/-- The states reached from the constructor by calls that keep the contract. -/
inductive Reachable : LRUKReplacer → Prop
  | init {numFrames k : Nat} {r : LRUKReplacer} : init numFrames k = .ok r → Reachable r
  | step {r r' : LRUKReplacer} {c : ReplacerCall} {out : ReplacerReply} :
      Reachable r → r.Admissible c → r.exec c = .ok (out, r') → Reachable r'

/-! ## Counting evictable records -/

/-- Whether frame `f` has an evictable record. -/
def isEvictable (r : LRUKReplacer) (f : Nat) : Bool :=
  (r.frameMap f).any (·.evictable)

/-- The number of evictable records among the ids below `replacerSize`. -/
def evictableCount (r : LRUKReplacer) : Nat :=
  (List.range r.replacerSize).countP r.isEvictable

/-! ## One lemma per method -/

section Lemmas

variable {r r' : LRUKReplacer} {f : Nat}

@[simp] theorem isEvictable_update_self (o : Option FrameInfo) :
    ({ r with frameMap := Function.update r.frameMap f o } : LRUKReplacer).isEvictable f =
      o.any (·.evictable) := by
  simp [isEvictable]

theorem recordAccess_eq_ok (h : r.recordAccess f = .ok r') :
    f < r.replacerSize ∧
      r'.frameMap = Function.update r.frameMap f (some { (r.frameMap f).getD {} with
        accessTimestamps :=
          pushTimestamp r.k r.currentTimestamp ((r.frameMap f).getD {}).accessTimestamps }) ∧
      r'.currentTimestamp = r.currentTimestamp + 1 ∧ r'.currSize = r.currSize ∧
      r'.replacerSize = r.replacerSize ∧ r'.k = r.k := by
  unfold recordAccess at h
  split at h
  · cases h; exact ⟨‹_›, rfl, rfl, rfl, rfl, rfl⟩
  · cases h

theorem setEvictable_eq_ok {b : Bool} (h : r.setEvictable f b = .ok r') :
    f < r.replacerSize ∧
      (r' = r ∧ (∀ i, r.frameMap f = some i → i.evictable = b) ∨
        ∃ i, r.frameMap f = some i ∧ i.evictable = !b ∧
          r'.frameMap = Function.update r.frameMap f (some { i with evictable := b }) ∧
          r'.currSize = (if b then r.currSize + 1 else r.currSize - 1) ∧
          r'.currentTimestamp = r.currentTimestamp ∧ r'.replacerSize = r.replacerSize ∧
          r'.k = r.k) := by
  unfold setEvictable at h
  split at h
  · refine ⟨‹_›, ?_⟩
    split at h
    · exact .inl ⟨(Except.ok.inj h).symm, by simp [*]⟩
    · split at h
      · exact .inl ⟨(Except.ok.inj h).symm, by simp_all⟩
      · cases h; exact .inr ⟨_, ‹_›, Bool.eq_not.2 ‹_›, rfl, rfl, rfl, rfl, rfl⟩
  · cases h

theorem remove_eq_ok (h : r.remove f = .ok r') :
    f < r.replacerSize ∧
      (r.frameMap f = none ∧ r' = r ∨
        ∃ i, r.frameMap f = some i ∧ i.evictable ∧
          r'.frameMap = Function.update r.frameMap f none ∧ r'.currSize = r.currSize - 1 ∧
          r'.currentTimestamp = r.currentTimestamp ∧ r'.replacerSize = r.replacerSize ∧
          r'.k = r.k) := by
  unfold remove at h
  split at h
  · refine ⟨‹_›, ?_⟩
    split at h
    · exact .inl ⟨‹_›, (Except.ok.inj h).symm⟩
    · split at h
      · cases h; exact .inr ⟨_, ‹_›, ‹_›, rfl, rfl, rfl, rfl, rfl⟩
      · cases h
  · cases h

theorem evict_eq_ok {order : List Nat} {v : Option Nat} (h : r.evict order = .ok (v, r')) :
    r.currSize = 0 ∧ v = none ∧ r' = r ∨
      ∃ acc w, r.currSize ≠ 0 ∧ r.evictScan order = .ok acc ∧ acc.victimFid = some w ∧
        v = some w ∧
        r'.frameMap = Function.update r.frameMap w none ∧ r'.currSize = r.currSize - 1 ∧
        r'.currentTimestamp = r.currentTimestamp ∧ r'.replacerSize = r.replacerSize ∧
        r'.k = r.k := by
  unfold evict at h
  split at h
  · cases h; exact .inl ⟨‹_›, rfl, rfl⟩
  · cases hs : r.evictScan order with
    | error e => simp [hs] at h; cases h
    | ok acc =>
      simp only [hs, bind, Except.bind] at h
      split at h
      · cases h
      · cases h; exact .inr ⟨acc, _, ‹_›, rfl, ‹_›, rfl, rfl, rfl, rfl, rfl, rfl⟩

/-- Changing one record changes the evictable count by the change of that record's flag. -/
theorem evictableCount_update (hf : f < r.replacerSize) (o : Option FrameInfo)
    (hsize : r'.replacerSize = r.replacerSize)
    (hmap : r'.frameMap = Function.update r.frameMap f o) :
    r'.evictableCount + (r.isEvictable f).toNat =
      r.evictableCount + (o.any (·.evictable)).toNat := by
  have hx : ∀ x, x ≠ f → r'.isEvictable x = r.isEvictable x := by
    intro x hx; simp [isEvictable, hmap, hx]
  have hf' : r'.isEvictable f = o.any (·.evictable) := by simp [isEvictable, hmap]
  unfold evictableCount
  rw [hsize, ← hf']
  generalize r.replacerSize = n at hf ⊢
  induction n with
  | zero => omega
  | succ n ih =>
    simp only [List.range_succ, List.countP_append, List.countP_singleton]
    rcases Nat.lt_succ_iff_lt_or_eq.1 hf with hlt | rfl
    · rw [hx n (by omega)]; have := ih hlt; omega
    · have : (List.range f).countP r'.isEvictable = (List.range f).countP r.isEvictable :=
        List.countP_congr (fun x hx' => by rw [hx x (by simp at hx'; omega)])
      rw [this]; cases r.isEvictable f <;> cases r'.isEvictable f <;> simp

theorem evictableCount_le : r.evictableCount ≤ r.replacerSize := by
  exact (List.countP_le_length _).trans_eq (List.length_range _)

end Lemmas

end LRUKReplacer

end Bustub
