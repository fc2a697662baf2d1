import Bustub.Replacer.Invariant

/-! # The replacer refines full-history LRU-K

`FullLRUK` is the textbook LRU-K policy: it keeps every access time of a tracked frame
since it was (re)tracked, and `Evict` removes the evictable frame with fewer than `k`
accesses and the earliest first access, or, when every evictable frame has `k` accesses,
the one with the largest backward `k`-distance `now - kthRecent`. Its steps are a
relation, `FullLRUK.Step`; an eviction step names the victim and requires it to be the
only frame that fits the description.

`LRUKReplacer` keeps only the last `k` timestamps. `Refines r s` says that `r` is `s`
with every history cut to its last `k` entries. It holds at the start and is kept by every
call that keeps the contract, with the same reply on both sides, whatever the iteration
order of the scan (`refines_full_history`). The one fact about histories the proof needs:
the front of a cut history is the `k`-th most recent access of the full one, and the first
access when there are fewer than `k`.
-/

namespace Bustub

/-- A frame tracked by the full-history policy: all its access times, oldest first. -/
structure Tracked where
  history : List Nat
  evictable : Bool

/-- The full-history LRU-K replacer. -/
structure FullLRUK where
  frames : Nat → Option Tracked
  now : Nat
  numFrames : Nat
  k : Nat

namespace FullLRUK

/-- No frame is tracked and the clock is at zero. -/
def init (numFrames k : Nat) : FullLRUK := ⟨fun _ => none, 0, numFrames, k⟩

/-- An access appends the current time, tracking the frame (not evictable) if needed. -/
def recordAccess (s : FullLRUK) (f : Nat) : FullLRUK :=
  let t := (s.frames f).getD ⟨[], false⟩
  { s with frames := Function.update s.frames f (some { t with history := t.history ++ [s.now] })
           now := s.now + 1 }

/-- Setting the flag of a tracked frame; untracked frames are left alone. -/
def setEvictable (s : FullLRUK) (f : Nat) (b : Bool) : FullLRUK :=
  { s with frames := Function.update s.frames f ((s.frames f).map ({ · with evictable := b })) }

/-- Forgetting a frame and its history. -/
def untrack (s : FullLRUK) (f : Nat) : FullLRUK :=
  { s with frames := Function.update s.frames f none }

/-- Whether `f` is tracked and evictable. -/
def trackedEvictable (s : FullLRUK) (f : Nat) : Bool := (s.frames f).any (·.evictable)

/-- The number of tracked evictable frames. -/
def evictableCount (s : FullLRUK) : Nat := (List.range s.numFrames).countP s.trackedEvictable

/-- The `k`-th most recent access of a history (its first access when it is shorter). -/
def kthRecent (k : Nat) (history : List Nat) : Nat := history.getD (history.length - k) 0

/-- The LRU-K victim: an evictable frame with fewer than `k` accesses and the earliest
first access among those; or, when every evictable frame has `k` accesses, one with the
largest backward `k`-distance. -/
def IsVictim (s : FullLRUK) (v : Nat) : Prop :=
  ∃ t, s.frames v = some t ∧ t.evictable ∧
    ((t.history.length < s.k ∧ ∀ g u, s.frames g = some u → u.evictable →
        u.history.length < s.k → t.history.headD 0 ≤ u.history.headD 0) ∨
      ((∀ g u, s.frames g = some u → u.evictable → s.k ≤ u.history.length) ∧
        ∀ g u, s.frames g = some u → u.evictable →
          s.now - kthRecent s.k u.history ≤ s.now - kthRecent s.k t.history))

/-- The steps of the full-history replacer, with the reply of each call. -/
inductive Step : FullLRUK → ReplacerCall → ReplacerReply → FullLRUK → Prop
  | recordAccess (s : FullLRUK) (f : Nat) : Step s (.recordAccess f) .done (s.recordAccess f)
  | setEvictable (s : FullLRUK) (f : Nat) (b : Bool) :
      Step s (.setEvictable f b) .done (s.setEvictable f b)
  | remove (s : FullLRUK) (f : Nat) : Step s (.remove f) .done (s.untrack f)
  | evictNone (s : FullLRUK) (order : List Nat) :
      (∀ f, s.trackedEvictable f = false) → Step s (.evict order) (.victim none) s
  | evictSome (s : FullLRUK) (order : List Nat) (v : Nat) :
      s.IsVictim v → (∀ w, s.IsVictim w → w = v) →
      Step s (.evict order) (.victim (some v)) (s.untrack v)
  | size (s : FullLRUK) : Step s .size (.size s.evictableCount) s

/-- The runs of the full-history replacer from `s₀`, with their calls and replies. -/
inductive Run (s₀ : FullLRUK) : List ReplacerCall → List ReplacerReply → FullLRUK → Prop
  | nil : Run s₀ [] [] s₀
  | snoc {cs outs s c out s'} : Run s₀ cs outs s → Step s c out s' →
      Run s₀ (cs ++ [c]) (outs ++ [out]) s'

end FullLRUK

namespace LRUKReplacer

/-- The runs of the replacer from `r₀` in which every call keeps the contract. -/
inductive Run (r₀ : LRUKReplacer) : List ReplacerCall → List ReplacerReply → LRUKReplacer → Prop
  | nil : Run r₀ [] [] r₀
  | snoc {cs outs r c out r'} : Run r₀ cs outs r → r.Admissible c → r.exec c = .ok (out, r') →
      Run r₀ (cs ++ [c]) (outs ++ [out]) r'

theorem Run.reachable {r₀ r : LRUKReplacer} {cs : List ReplacerCall} {outs : List ReplacerReply}
    (h₀ : r₀.Reachable) (h : Run r₀ cs outs r) : r.Reachable := by
  induction h with
  | nil => exact h₀
  | snoc _ hc he ih => exact .step ih hc he

/-- The record kept for a tracked frame: its last `k` access times. -/
def truncate (k : Nat) (t : Tracked) : FrameInfo :=
  { accessTimestamps := t.history.drop (t.history.length - k), evictable := t.evictable }

/-- `r` is `s` with every history cut to its last `k` entries. -/
structure Refines (r : LRUKReplacer) (s : FullLRUK) : Prop where
  frameMap_eq : ∀ f, r.frameMap f = (s.frames f).map (truncate s.k)
  currentTimestamp_eq : r.currentTimestamp = s.now
  replacerSize_eq : r.replacerSize = s.numFrames
  k_eq : r.k = s.k

/-! ## Cut histories -/

theorem pushTimestamp_truncate (k t : Nat) (h : List Nat) :
    pushTimestamp k t (h.drop (h.length - k)) = (h ++ [t]).drop ((h ++ [t]).length - k) := by
  unfold pushTimestamp
  by_cases hk : h.length < k
  · rw [Nat.sub_eq_zero_of_le hk.le, if_neg (by simp; omega)]
    simp only [List.drop_zero, List.length_append, List.length_singleton]
    rw [Nat.sub_eq_zero_of_le (by omega), List.drop_zero]
  · rw [if_pos (by simp; omega), ← List.drop_append_of_le_length (by omega), List.tail_drop]
    congr 1; simp; omega

theorem length_truncate_lt (k : Nat) (t : Tracked) :
    (truncate k t).accessTimestamps.length < k ↔ t.history.length < k := by
  simp only [truncate, List.length_drop]; omega

theorem le_length_truncate (k : Nat) (t : Tracked) :
    k ≤ (truncate k t).accessTimestamps.length ↔ k ≤ t.history.length := by
  simp only [truncate, List.length_drop]; omega

theorem front_truncate (k : Nat) (t : Tracked) :
    (truncate k t).front = FullLRUK.kthRecent k t.history := by
  simp [FrameInfo.front, truncate, FullLRUK.kthRecent, List.headD_eq_head?_getD,
    List.getD_eq_getElem?_getD]

theorem kthRecent_of_lt {k : Nat} {h : List Nat} (hk : h.length < k) :
    FullLRUK.kthRecent k h = h.headD 0 := by
  simp only [FullLRUK.kthRecent, Nat.sub_eq_zero_of_le hk.le]
  cases h <;> rfl

/-! ## The simulation -/

section Simulation

variable {r r' : LRUKReplacer} {s : FullLRUK}

/-- Updating one frame on both sides, with matching records, keeps the frame maps related. -/
theorem map_update_truncate {m : Nat → Option FrameInfo} {m' : Nat → Option Tracked} {k f : Nat}
    {o : Option FrameInfo} {o' : Option Tracked} (hm : ∀ g, m g = (m' g).map (truncate k))
    (ho : o = o'.map (truncate k)) :
    ∀ g, Function.update m f o g = (Function.update m' f o' g).map (truncate k) := by
  intro g
  by_cases hg : g = f
  · subst hg; simp [ho]
  · simp [hg, hm g]

theorem Refines.isEvictable (hs : Refines r s) (f : Nat) :
    r.isEvictable f = s.trackedEvictable f := by
  simp only [LRUKReplacer.isEvictable, FullLRUK.trackedEvictable, hs.frameMap_eq f]
  cases s.frames f <;> rfl

theorem Refines.evictableCount (hs : Refines r s) : r.evictableCount = s.evictableCount := by
  simp only [LRUKReplacer.evictableCount, FullLRUK.evictableCount, hs.replacerSize_eq]
  exact List.countP_congr fun f _ => by rw [hs.isEvictable f]

/-- The scan's victim is the LRU-K victim of the full histories. -/
theorem Refines.isVictim {v : Nat} (hs : Refines r s) (hv : r.IsVictim v) : s.IsVictim v := by
  obtain ⟨iv, hiv, hev, hle⟩ := hv
  rw [hs.frameMap_eq v] at hiv
  obtain ⟨t, ht, rfl⟩ := Option.map_eq_some'.1 hiv
  have hle' : ∀ g u, s.frames g = some u → u.evictable →
      VictimLe s.k (truncate s.k t) (truncate s.k u) :=
    fun g u hu he => hs.k_eq ▸ hle g (truncate s.k u) (by simp [hs.frameMap_eq g, hu]) he
  refine ⟨t, ht, hev, ?_⟩
  by_cases hk : t.history.length < s.k
  · refine .inl ⟨hk, fun g u hu he hku => ?_⟩
    have := hle' g u hu he
    simp only [VictimLe, length_truncate_lt, front_truncate, kthRecent_of_lt hk,
      kthRecent_of_lt hku] at this
    omega
  · refine .inr ⟨fun g u hu he => ?_, fun g u hu he => ?_⟩ <;>
    · have := hle' g u hu he
      simp only [VictimLe, length_truncate_lt, le_length_truncate, front_truncate] at this
      omega

/-- Under the replacer's invariant the LRU-K victim is unique. -/
theorem Refines.isVictim_unique {v w : Nat} (hs : Refines r s) (hi : r.Inv) (hv : s.IsVictim v)
    (hw : s.IsVictim w) : v = w := by
  obtain ⟨t, ht, hte, hvt⟩ := hv
  obtain ⟨u, hu, hue, hwu⟩ := hw
  by_contra hne
  have hfront := hi.front_ne v w _ _ hne (by rw [hs.frameMap_eq v, ht]; rfl)
    (by rw [hs.frameMap_eq w, hu]; rfl)
  have hlt : ∀ g x, s.frames g = some x → FullLRUK.kthRecent s.k x.history < s.now :=
      fun g x hx => by
    have := (hi.records g _ (by rw [hs.frameMap_eq g, hx]; rfl)).lt_current _
      (hi.records g _ (by rw [hs.frameMap_eq g, hx]; rfl)).front_mem
    rwa [front_truncate, hs.currentTimestamp_eq] at this
  rw [front_truncate, front_truncate] at hfront
  have htv := hlt v t ht; have huw := hlt w u hu
  rcases hvt with ⟨hkt, hvt⟩ | ⟨hall, hvt⟩ <;>
    rcases hwu with ⟨hku, hwu⟩ | ⟨hall', hwu⟩
  · have h1 := hvt w u hu hue hku; have h2 := hwu v t ht hte hkt
    rw [kthRecent_of_lt hkt, kthRecent_of_lt hku] at hfront; omega
  · exact absurd (hall' v t ht hte) (by omega)
  · exact absurd (hall w u hu hue) (by omega)
  · have h1 := hvt w u hu hue; have h2 := hwu v t ht hte; omega

theorem Refines.getD_frameMap (hs : Refines r s) (f : Nat) :
    (r.frameMap f).getD {} = truncate s.k ((s.frames f).getD ⟨[], false⟩) := by
  rw [hs.frameMap_eq f]; cases s.frames f <;> simp [truncate]

/-- Every call that keeps the contract is matched by a step of the full-history replacer
with the same reply. -/
theorem Refines.step {c : ReplacerCall} {out : ReplacerReply} (hs : Refines r s) (hi : r.Inv)
    (hc : r.Admissible c) (he : r.exec c = .ok (out, r')) :
    ∃ s', s.Step c out s' ∧ Refines r' s' := by
  cases c with
  | recordAccess f =>
    obtain ⟨a, ha, hea⟩ := map_eq_ok he; cases hea
    obtain ⟨-, hmap, hcur, -, hrs, hk⟩ := recordAccess_eq_ok ha
    refine ⟨_, .recordAccess s f, ⟨?_,
      by simp [FullLRUK.recordAccess, hcur, hs.currentTimestamp_eq],
      hrs.trans hs.replacerSize_eq, hk.trans hs.k_eq⟩⟩
    rw [hmap]
    refine map_update_truncate hs.frameMap_eq ?_
    rw [hs.getD_frameMap, hs.k_eq, hs.currentTimestamp_eq]
    simp only [truncate, Option.map_some', pushTimestamp_truncate, FullLRUK.recordAccess]
  | setEvictable f b =>
    obtain ⟨a, ha, hea⟩ := map_eq_ok he; cases hea
    obtain ⟨-, ⟨rfl, hsame⟩ | ⟨i, hi, -, hmap, -, hcur, hrs, hk⟩⟩ :=
      setEvictable_eq_ok ha
    · refine ⟨_, .setEvictable s f b, ⟨fun g => ?_, hs.currentTimestamp_eq, hs.replacerSize_eq,
        hs.k_eq⟩⟩
      by_cases hg : g = f
      · subst hg
        simp only [FullLRUK.setEvictable, Function.update_same, hs.frameMap_eq g]
        cases ht : s.frames g with
        | none => rfl
        | some t =>
          have := hsame _ (by rw [hs.frameMap_eq g, ht]; rfl)
          cases t; simp only [truncate] at this; subst this; rfl
      · simp [FullLRUK.setEvictable, hg, hs.frameMap_eq g]
    · refine ⟨_, .setEvictable s f b, ⟨?_, hcur.trans hs.currentTimestamp_eq,
        hrs.trans hs.replacerSize_eq, hk.trans hs.k_eq⟩⟩
      rw [hmap]
      refine map_update_truncate hs.frameMap_eq ?_
      rw [hs.frameMap_eq f] at hi
      obtain ⟨t, ht, rfl⟩ := Option.map_eq_some'.1 hi
      simp [FullLRUK.setEvictable, ht, truncate]
  | remove f =>
    obtain ⟨a, ha, hea⟩ := map_eq_ok he; cases hea
    obtain ⟨-, ⟨hnone, rfl⟩ | ⟨i, -, -, hmap, -, hcur, hrs, hk⟩⟩ := remove_eq_ok ha
    · have hsf : s.frames f = none := by simpa [hs.frameMap_eq f] using hnone
      refine ⟨_, .remove s f,
        ⟨fun g => ?_, hs.currentTimestamp_eq, hs.replacerSize_eq, hs.k_eq⟩⟩
      by_cases hg : g = f
      · subst hg; simp [FullLRUK.untrack, hnone, hsf]
      · simp [FullLRUK.untrack, hg, hs.frameMap_eq g]
    · refine ⟨_, .remove s f, ⟨?_, hcur.trans hs.currentTimestamp_eq,
        hrs.trans hs.replacerSize_eq, hk.trans hs.k_eq⟩⟩
      rw [hmap]; exact map_update_truncate hs.frameMap_eq rfl
  | evict order =>
    obtain ⟨a, ha, hea⟩ := map_eq_ok he; cases hea
    obtain ⟨hzero, hv, hr⟩ | ⟨acc, w, -, hscan, hw, hv, hmap, -, hcur, hrs, hk⟩ :=
      evict_eq_ok ha
    · rw [hv, hr]
      refine ⟨s, .evictNone s order fun f => ?_, hs⟩
      rw [← hs.isEvictable f]
      by_cases hf : f < r.replacerSize
      · have h0 := hi.currSize_eq ▸ hzero
        exact by simpa using List.countP_eq_zero.1 h0 f (List.mem_range.2 hf)
      · have : r.frameMap f = none := by
          by_contra h; exact hf (hi.in_range f h)
        simp [LRUKReplacer.isEvictable, this]
    · rw [hv]
      have hvic := hs.isVictim ((evictScan_victim hi.scannable hc hscan).2 w hw)
      refine ⟨_, .evictSome s order w hvic fun u hu => hs.isVictim_unique hi hu hvic,
        ⟨?_, hcur.trans hs.currentTimestamp_eq, hrs.trans hs.replacerSize_eq,
          hk.trans hs.k_eq⟩⟩
      rw [hmap]; exact map_update_truncate hs.frameMap_eq rfl
  | size =>
    cases he
    refine ⟨s, ?_, hs⟩
    rw [size, hi.currSize_eq, hs.evictableCount]
    exact .size s

end Simulation

/-- Along every run from the constructor whose calls keep the contract, the full-history
replacer has a run with the same calls and replies, ending in a state that the replacer
refines. -/
theorem Run.refines {numFrames k : Nat} {r₀ r : LRUKReplacer} {cs : List ReplacerCall}
    {outs : List ReplacerReply} (h₀ : init numFrames k = .ok r₀) (hrun : r₀.Run cs outs r) :
    ∃ s, (FullLRUK.init numFrames k).Run cs outs s ∧ Refines r s := by
  induction hrun with
  | nil =>
    unfold init at h₀
    split at h₀
    · cases h₀; exact ⟨_, .nil, ⟨fun _ => rfl, rfl, rfl, rfl⟩⟩
    · cases h₀
  | snoc hrun' hc he ih =>
    obtain ⟨s, hs, href⟩ := ih
    obtain ⟨s', hstep, href'⟩ := href.step (hrun'.reachable (.init h₀)).inv hc he
    exact ⟨s', .snoc hs hstep, href'⟩

/-- The replacer with `k`-truncated histories refines full-history LRU-K. Along every run
from the constructor whose calls keep the contract (frame ids in range, `Remove` only of
absent or evictable frames, any iteration order for each `Evict`), the full-history
replacer has a run with the same calls and the same replies: each `Size()` is its number
of tracked evictable frames, and each `Evict` fails exactly when it has no tracked
evictable frame and otherwise returns its unique LRU-K victim and forgets only that frame.
The states stay related by `Refines`, and every further call that keeps the contract
returns. -/
theorem refines_full_history {numFrames k : Nat} {r₀ r : LRUKReplacer} {cs : List ReplacerCall}
    {outs : List ReplacerReply} (h₀ : init numFrames k = .ok r₀) (hrun : r₀.Run cs outs r) :
    ∃ s, (FullLRUK.init numFrames k).Run cs outs s ∧ Refines r s ∧
      ∀ c, r.Admissible c → ∃ out r', r.exec c = .ok (out, r') := by
  obtain ⟨s, hs, href⟩ := hrun.refines h₀
  exact ⟨s, hs, href, fun c hc => exec_ok (hrun.reachable (.init h₀)).inv hc⟩

/-- Frame `0` accessed twice and frame `1` once, both evictable, on a replacer with `k = 2`:
`Size()` is two, `Evict` returns frame `1`, whose backward 2-distance is infinite though frame
`0` was used longer ago, and `Size()` is then one. -/
theorem refines_full_history_evict_size :
    ∃ r₀ r : LRUKReplacer, init 3 2 = .ok r₀ ∧
      r₀.Run ([] ++ [.recordAccess 0] ++ [.recordAccess 0] ++ [.recordAccess 1] ++
          [.setEvictable 0 true] ++ [.setEvictable 1 true] ++ [.size] ++ [.evict [0, 1]] ++
          [.size])
        ([] ++ [.done] ++ [.done] ++ [.done] ++ [.done] ++ [.done] ++ [.size 2] ++
          [.victim (some 1)] ++ [.size 1]) r ∧
      ∃ s, (FullLRUK.init 3 2).Run ([] ++ [.recordAccess 0] ++ [.recordAccess 0] ++
          [.recordAccess 1] ++ [.setEvictable 0 true] ++ [.setEvictable 1 true] ++ [.size] ++
          [.evict [0, 1]] ++ [.size])
        ([] ++ [.done] ++ [.done] ++ [.done] ++ [.done] ++ [.done] ++ [.size 2] ++
          [.victim (some 1)] ++ [.size 1]) s ∧ Refines r s ∧
        ∀ c, r.Admissible c → ∃ out r', r.exec c = .ok (out, r') := by
  have h₀ : init 3 2 = .ok _ := rfl
  have h₁ := Run.snoc (c := .recordAccess 0)
    (.nil : Run (⟨fun _ => none, 0, 0, 3, 2⟩ : LRUKReplacer) [] [] _) (show 0 < 3 by decide) rfl
  have h₂ := Run.snoc (c := .recordAccess 0) h₁ (show 0 < 3 by decide) rfl
  have h₃ := Run.snoc (c := .recordAccess 1) h₂ (show 1 < 3 by decide) rfl
  have h₄ := Run.snoc (c := .setEvictable 0 true) h₃ (show 0 < 3 by decide) rfl
  have h₅ := Run.snoc (c := .setEvictable 1 true) h₄ (show 1 < 3 by decide) rfl
  have h₆ := Run.snoc (c := .size) h₅ trivial rfl
  have h₇ := Run.snoc (c := .evict [0, 1]) h₆ ⟨by decide, fun f => by
    rcases f with _ | _ | f <;> simp [Function.update]⟩ rfl
  have h₈ := Run.snoc (c := .size) h₇ trivial rfl
  exact ⟨_, _, h₀, h₈, refines_full_history h₀ h₈⟩

end LRUKReplacer

end Bustub
