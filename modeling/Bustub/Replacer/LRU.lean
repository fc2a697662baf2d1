import Bustub.Replacer.Refinement

/-! # With `k = 1` the replacer is LRU

`LRU` is the classical least-recently-used replacer: it keeps the time of each tracked
frame's last access, and `Evict` removes the evictable frame accessed longest ago, the only
one that fits.

With `k = 1` full-history LRU-K is LRU read through the last accesses: `FullLRUK.toLRU` keeps
of each history its most recent access, the first most recent one. On states whose histories
are nonempty and earlier than the clock (`FullLRUK.WF`, kept by every step), the backward
1-distance `now - kthRecent 1` ranks frames as their last accesses do, so every step of
`FullLRUK` with `k = 1` is a step of `LRU` on the last accesses, with the same reply
(`FullLRUK.Step.toLRU`). Composed with the refinement of full-history LRU-K by the replacer
(`LRUKReplacer.Run.refines`), every run of `LRUKReplacer(num_frames, 1)` is a run of `LRU`
with the same calls and replies, and each record of the replacer is the one timestamp LRU
keeps (`lru_when_k_is_one`).
-/

namespace Bustub

/-- A frame tracked by LRU: the time of its last access, and whether it may be evicted. -/
structure LastAccess where
  time : Nat
  evictable : Bool

/-- The classical LRU replacer. -/
structure LRU where
  frames : Nat → Option LastAccess
  now : Nat
  numFrames : Nat

namespace LRU

/-- No frame is tracked and the clock is at zero. -/
def init (numFrames : Nat) : LRU := ⟨fun _ => none, 0, numFrames⟩

/-- An access stamps the frame with the current time, tracking it (not evictable) if needed. -/
def recordAccess (s : LRU) (f : Nat) : LRU :=
  { s with
    frames := Function.update s.frames f
      (some ⟨s.now, ((s.frames f).map (·.evictable)).getD false⟩)
    now := s.now + 1 }

/-- Setting the flag of a tracked frame; untracked frames are left alone. -/
def setEvictable (s : LRU) (f : Nat) (b : Bool) : LRU :=
  { s with frames := Function.update s.frames f ((s.frames f).map ({ · with evictable := b })) }

/-- Forgetting a frame. -/
def untrack (s : LRU) (f : Nat) : LRU :=
  { s with frames := Function.update s.frames f none }

/-- Whether `f` is tracked and evictable. -/
def trackedEvictable (s : LRU) (f : Nat) : Bool := (s.frames f).any (·.evictable)

/-- The number of tracked evictable frames. -/
def evictableCount (s : LRU) : Nat := (List.range s.numFrames).countP s.trackedEvictable

/-- Frame `v` is evictable and was accessed no later than any other evictable frame. -/
def IsLRU (s : LRU) (v : Nat) : Prop :=
  ∃ a, s.frames v = some a ∧ a.evictable ∧
    ∀ g b, s.frames g = some b → b.evictable → a.time ≤ b.time

/-- The steps of the LRU replacer, with the reply of each call. -/
inductive Step : LRU → ReplacerCall → ReplacerReply → LRU → Prop
  | recordAccess (s : LRU) (f : Nat) : Step s (.recordAccess f) .done (s.recordAccess f)
  | setEvictable (s : LRU) (f : Nat) (b : Bool) :
      Step s (.setEvictable f b) .done (s.setEvictable f b)
  | remove (s : LRU) (f : Nat) : Step s (.remove f) .done (s.untrack f)
  | evictNone (s : LRU) (order : List Nat) :
      (∀ f, s.trackedEvictable f = false) → Step s (.evict order) (.victim none) s
  | evictSome (s : LRU) (order : List Nat) (v : Nat) :
      s.IsLRU v → (∀ w, s.IsLRU w → w = v) →
      Step s (.evict order) (.victim (some v)) (s.untrack v)
  | size (s : LRU) : Step s .size (.size s.evictableCount) s

/-- The runs of the LRU replacer from `s₀`, with their calls and replies. -/
inductive Run (s₀ : LRU) : List ReplacerCall → List ReplacerReply → LRU → Prop
  | nil : Run s₀ [] [] s₀
  | snoc {cs outs s c out s'} : Run s₀ cs outs s → Step s c out s' →
      Run s₀ (cs ++ [c]) (outs ++ [out]) s'

end LRU

namespace FullLRUK

variable {s s' : FullLRUK} {c : ReplacerCall} {out : ReplacerReply} {f v : Nat}

/-- The LRU state a full-history state describes: each tracked frame's most recent access. -/
def toLRU (s : FullLRUK) : LRU :=
  ⟨fun f => (s.frames f).map fun t => ⟨kthRecent 1 t.history, t.evictable⟩, s.now, s.numFrames⟩

/-- Every tracked frame has been accessed, always before the clock. -/
def WF (s : FullLRUK) : Prop :=
  ∀ f t, s.frames f = some t → t.history ≠ [] ∧ ∀ x ∈ t.history, x < s.now

/-! ## The last access -/

@[simp] theorem kthRecent_one_append (h : List Nat) (x : Nat) : kthRecent 1 (h ++ [x]) = x := by
  simp [kthRecent]

theorem kthRecent_one_mem {h : List Nat} (hne : h ≠ []) : kthRecent 1 h ∈ h := by
  obtain ⟨l, x, rfl⟩ := (List.eq_nil_or_concat h).resolve_left hne
  simp

theorem WF.kthRecent_lt (hw : s.WF) {t : Tracked} (ht : s.frames f = some t) :
    kthRecent 1 t.history < s.now :=
  (hw f t ht).2 _ (kthRecent_one_mem (hw f t ht).1)

/-- A state whose frames keep their histories, under a clock no earlier, keeps `WF`. -/
theorem WF.of_frames (hw : s.WF) (hnow : s.now ≤ s'.now)
    (h : ∀ f t, s'.frames f = some t → ∃ t', s.frames f = some t' ∧ t.history = t'.history) :
    s'.WF := fun f t ht => by
  obtain ⟨t', ht', heq⟩ := h f t ht
  obtain ⟨hne, hlt⟩ := hw f t' ht'
  exact ⟨heq ▸ hne, fun x hx => lt_of_lt_of_le (hlt x (heq ▸ hx)) hnow⟩

theorem init_wf (numFrames k : Nat) : (init numFrames k).WF := fun _ _ h => by cases h

theorem Step.k_eq (h : s.Step c out s') : s'.k = s.k := by
  cases h <;> rfl

/-- Every step keeps `WF`. -/
theorem Step.wf (hw : s.WF) (h : s.Step c out s') : s'.WF := by
  have huntrack : ∀ f, (s.untrack f).WF := fun f =>
    hw.of_frames le_rfl fun g t ht => by
      by_cases hg : g = f
      · subst hg; simp [untrack] at ht
      · exact ⟨t, by simpa [untrack, hg] using ht, rfl⟩
  cases h with
  | recordAccess f =>
    intro g t ht
    by_cases hg : g = f
    · subst hg
      simp only [FullLRUK.recordAccess, Function.update_same, Option.some.injEq] at ht
      subst ht
      refine ⟨by simp, fun x hx => ?_⟩
      rcases List.mem_append.1 hx with hx | hx
      · cases hs : s.frames g with
        | none => simp [hs] at hx
        | some t' => rw [hs] at hx; exact Nat.lt_succ_of_lt ((hw g t' hs).2 x hx)
      · simp at hx; simp [FullLRUK.recordAccess, hx]
    · simp only [FullLRUK.recordAccess, Function.update_noteq hg] at ht
      exact ⟨(hw g t ht).1, fun x hx => Nat.lt_succ_of_lt ((hw g t ht).2 x hx)⟩
  | setEvictable f b =>
    refine hw.of_frames le_rfl fun g t ht => ?_
    by_cases hg : g = f
    · subst hg
      simp only [FullLRUK.setEvictable, Function.update_same, Option.map_eq_some'] at ht
      obtain ⟨t', ht', rfl⟩ := ht
      exact ⟨t', ht', rfl⟩
    · exact ⟨t, by simpa [FullLRUK.setEvictable, hg] using ht, rfl⟩
  | remove f => exact huntrack f
  | evictNone => exact hw
  | evictSome _ v => exact huntrack v
  | size => exact hw

/-! ## `toLRU` over each step -/

theorem toLRU_frames {t : Tracked} (ht : s.frames f = some t) :
    s.toLRU.frames f = some ⟨kthRecent 1 t.history, t.evictable⟩ := by
  simp [toLRU, ht]

theorem toLRU_recordAccess (s : FullLRUK) (f : Nat) :
    (s.recordAccess f).toLRU = s.toLRU.recordAccess f := by
  simp only [toLRU, recordAccess, LRU.recordAccess, LRU.mk.injEq, and_true]
  funext g
  by_cases hg : g = f
  · subst hg; cases s.frames g <;> simp [kthRecent]
  · simp [hg]

theorem toLRU_setEvictable (s : FullLRUK) (f : Nat) (b : Bool) :
    (s.setEvictable f b).toLRU = s.toLRU.setEvictable f b := by
  simp only [toLRU, setEvictable, LRU.setEvictable, LRU.mk.injEq, and_true]
  funext g
  by_cases hg : g = f
  · subst hg; cases s.frames g <;> simp
  · simp [hg]

theorem toLRU_untrack (s : FullLRUK) (f : Nat) : (s.untrack f).toLRU = s.toLRU.untrack f := by
  simp only [toLRU, untrack, LRU.untrack, LRU.mk.injEq, and_true]
  funext g
  by_cases hg : g = f
  · subst hg; simp
  · simp [hg]

@[simp] theorem trackedEvictable_toLRU (s : FullLRUK) (f : Nat) :
    s.toLRU.trackedEvictable f = s.trackedEvictable f := by
  simp only [toLRU, LRU.trackedEvictable, trackedEvictable]
  cases s.frames f <;> rfl

theorem evictableCount_toLRU (s : FullLRUK) : s.toLRU.evictableCount = s.evictableCount :=
  List.countP_congr fun f _ => by rw [trackedEvictable_toLRU]

/-- With `k = 1` and histories before the clock, the LRU-K victim is the least recently used
evictable frame. -/
theorem isLRU_toLRU_iff (hk : s.k = 1) (hw : s.WF) : s.toLRU.IsLRU v ↔ s.IsVictim v := by
  constructor
  · rintro ⟨a, ha, hae, hle⟩
    obtain ⟨t, ht, rfl⟩ := Option.map_eq_some'.1 ha
    refine ⟨t, ht, hae, .inr ⟨fun g u hu _ => ?_, fun g u hu hue => ?_⟩⟩
    · rw [hk, Nat.one_le_iff_ne_zero, Ne, List.length_eq_zero]; exact (hw g u hu).1
    · have hle' : kthRecent 1 t.history ≤ kthRecent 1 u.history :=
        hle g _ (toLRU_frames hu) hue
      rw [hk]; omega
  · rintro ⟨t, ht, hte, hfew | ⟨-, hfar⟩⟩
    · rw [hk, Nat.lt_one_iff, List.length_eq_zero] at hfew
      exact absurd hfew.1 (hw v t ht).1
    · refine ⟨_, toLRU_frames ht, hte, fun g b hb hbe => ?_⟩
      obtain ⟨u, hu, rfl⟩ := Option.map_eq_some'.1 hb
      have hfar' := hfar g u hu hbe
      have htu := hw.kthRecent_lt hu
      rw [hk] at hfar'
      show kthRecent 1 t.history ≤ kthRecent 1 u.history
      omega

/-- With `k = 1`, every step of full-history LRU-K from a state of `WF` is a step of LRU on the
last accesses, with the same reply. -/
theorem Step.toLRU (hk : s.k = 1) (hw : s.WF) (h : s.Step c out s') :
    s.toLRU.Step c out s'.toLRU := by
  cases h with
  | recordAccess f => rw [toLRU_recordAccess]; exact .recordAccess _ f
  | setEvictable f b => rw [toLRU_setEvictable]; exact .setEvictable _ f b
  | remove f => rw [toLRU_untrack]; exact .remove _ f
  | evictNone order hnone => exact .evictNone _ order fun f => by rw [trackedEvictable_toLRU]; exact hnone f
  | evictSome order v hv huniq =>
    rw [toLRU_untrack]
    exact .evictSome _ order v ((isLRU_toLRU_iff hk hw).2 hv)
      fun w hw' => huniq w ((isLRU_toLRU_iff hk hw).1 hw')
  | size => rw [← evictableCount_toLRU]; exact .size _

/-- Every run of full-history LRU-K with `k = 1` from a state of `WF` is, read through
`toLRU`, a run of LRU with the same calls and replies. -/
theorem Run.toLRU {s₀ : FullLRUK} {cs : List ReplacerCall} {outs : List ReplacerReply}
    (hk : s₀.k = 1) (hw : s₀.WF) (h : s₀.Run cs outs s) :
    s₀.toLRU.Run cs outs s.toLRU ∧ s.k = 1 ∧ s.WF := by
  induction h with
  | nil => exact ⟨.nil, hk, hw⟩
  | snoc _ hstep ih =>
    obtain ⟨hrun, hk', hw'⟩ := ih
    exact ⟨.snoc hrun (hstep.toLRU hk' hw'), hstep.k_eq.trans hk', hstep.wf hw'⟩

end FullLRUK

namespace LRUKReplacer

/-- The record `LRUKReplacer(num_frames, 1)` keeps for a frame that LRU tracks. -/
def single (a : LastAccess) : FrameInfo := ⟨[a.time], a.evictable⟩

/-- `r` has `k = 1`, and each of its records is the last access time `s` keeps. -/
structure RefinesLRU (r : LRUKReplacer) (s : LRU) : Prop where
  frameMap_eq : ∀ f, r.frameMap f = (s.frames f).map single
  currentTimestamp_eq : r.currentTimestamp = s.now
  replacerSize_eq : r.replacerSize = s.numFrames
  k_eq : r.k = 1

/-- A history cut to its last access is that access. -/
theorem truncate_one {t : Tracked} (hne : t.history ≠ []) :
    truncate 1 t = single ⟨FullLRUK.kthRecent 1 t.history, t.evictable⟩ := by
  obtain ⟨l, x, hl⟩ := (List.eq_nil_or_concat t.history).resolve_left hne
  simp [truncate, single, hl]

/-- A replacer refining a full-history state with `k = 1` and nonempty histories keeps, as
each record, the last access of the frame. -/
theorem Refines.refinesLRU {r : LRUKReplacer} {s : FullLRUK} (hs : Refines r s) (hk : s.k = 1)
    (hw : s.WF) : RefinesLRU r s.toLRU where
  frameMap_eq f := by
    rw [hs.frameMap_eq f, hk]
    cases ht : s.frames f with
    | none => simp [FullLRUK.toLRU, ht]
    | some t => simp [FullLRUK.toLRU, ht, truncate_one (hw f t ht).1]
  currentTimestamp_eq := hs.currentTimestamp_eq
  replacerSize_eq := hs.replacerSize_eq
  k_eq := hs.k_eq.trans hk

/-- `LRUKReplacer(num_frames, 1)` is LRU. Along every run from the constructor whose calls
keep the contract, the LRU replacer has a run with the same calls and the same replies: each
`Evict` fails exactly when no tracked frame is evictable, and otherwise returns the evictable
frame accessed longest ago, the only one that fits. The states stay related by `RefinesLRU`. -/
theorem lru_when_k_is_one {numFrames : Nat} {r₀ r : LRUKReplacer} {cs : List ReplacerCall}
    {outs : List ReplacerReply} (h₀ : init numFrames 1 = .ok r₀) (hrun : r₀.Run cs outs r) :
    ∃ s, (LRU.init numFrames).Run cs outs s ∧ RefinesLRU r s := by
  obtain ⟨s, hs, href⟩ := hrun.refines h₀
  obtain ⟨hlru, hk, hw⟩ := hs.toLRU rfl (FullLRUK.init_wf numFrames 1)
  exact ⟨s.toLRU, hlru, href.refinesLRU hk hw⟩

/-- Two frames accessed in turn and made evictable: `Evict` returns the first one. -/
theorem lru_when_k_is_one_two_frames :
    ∃ r₀ r : LRUKReplacer, init 2 1 = .ok r₀ ∧
      r₀.Run ([] ++ [.recordAccess 0] ++ [.recordAccess 1] ++ [.setEvictable 0 true] ++
          [.setEvictable 1 true] ++ [.evict [0, 1]])
        ([] ++ [.done] ++ [.done] ++ [.done] ++ [.done] ++ [.victim (some 0)]) r ∧
      ∃ s, (LRU.init 2).Run ([] ++ [.recordAccess 0] ++ [.recordAccess 1] ++
          [.setEvictable 0 true] ++ [.setEvictable 1 true] ++ [.evict [0, 1]])
        ([] ++ [.done] ++ [.done] ++ [.done] ++ [.done] ++ [.victim (some 0)]) s ∧
        RefinesLRU r s := by
  have h₀ : init 2 1 = .ok _ := rfl
  have h₁ := Run.snoc (c := .recordAccess 0)
    (.nil : Run (⟨fun _ => none, 0, 0, 2, 1⟩ : LRUKReplacer) [] [] _) (show 0 < 2 by decide) rfl
  have h₂ := Run.snoc (c := .recordAccess 1) h₁ (show 1 < 2 by decide) rfl
  have h₃ := Run.snoc (c := .setEvictable 0 true) h₂ (show 0 < 2 by decide) rfl
  have h₄ := Run.snoc (c := .setEvictable 1 true) h₃ (show 1 < 2 by decide) rfl
  have h₅ := Run.snoc (c := .evict [0, 1]) h₄ ⟨by decide, fun f => by
    rcases f with _ | _ | f <;> simp [Function.update]⟩ rfl
  exact ⟨_, _, h₀, h₅, lru_when_k_is_one h₀ h₅⟩

end LRUKReplacer

end Bustub
