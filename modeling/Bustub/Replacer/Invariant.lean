import Bustub.Replacer.Scan

/-! # The replacer's invariant

Every replacer reached from the constructor by calls that keep the contract satisfies
`Inv`: `curr_size_` counts the evictable records, every record holds between one and `k`
strictly increasing timestamps below the clock, and no timestamp sits in two records.

`curr_size_` is adjusted separately by `SetEvictable`, `Remove` and `Evict`;
`evictableCount_update` says how one changed record moves the count, and each method
moves `curr_size_` by the same amount. From `Inv`, `Evict` always returns: the scan reads
no empty list, every finite distance is positive, and a positive `curr_size_` means an
evictable record exists, so the scan ends with a victim (`evict_ok`).

Two consequences for `Evict` over whole runs. Since no two records share a timestamp, one
frame is ranked first, so the iteration order of the unordered `frame_map_` never shows in
the result (`evict_order_independent`). And each successful `Evict` erases the record of an
evictable frame and counts one less, so calling it until `Size()` is zero returns every
evictable frame exactly once (`evict_drains`).
-/

namespace Bustub

namespace LRUKReplacer

/-- A record the scan can rely on, for history bound `k` and clock `currentTimestamp`. -/
structure RecordOk (k currentTimestamp : Nat) (i : FrameInfo) : Prop where
  ne_nil : i.accessTimestamps ≠ []
  length_le : i.accessTimestamps.length ≤ k
  increasing : i.accessTimestamps.Pairwise (· < ·)
  lt_current : ∀ t ∈ i.accessTimestamps, t < currentTimestamp

/-- The invariant of every reachable replacer. -/
structure Inv (r : LRUKReplacer) : Prop where
  one_le_k : 1 ≤ r.k
  in_range : ∀ f, r.frameMap f ≠ none → f < r.replacerSize
  currSize_eq : r.currSize = r.evictableCount
  records : ∀ f i, r.frameMap f = some i → RecordOk r.k r.currentTimestamp i
  disjoint : ∀ f g i j, f ≠ g → r.frameMap f = some i → r.frameMap g = some j →
    ∀ t ∈ i.accessTimestamps, t ∉ j.accessTimestamps

theorem RecordOk.mono {k c c' : Nat} {i : FrameInfo} (h : RecordOk k c i) (hc : c ≤ c') :
    RecordOk k c' i :=
  ⟨h.ne_nil, h.length_le, h.increasing, fun t ht => by have := h.lt_current t ht; omega⟩

theorem RecordOk.front_mem {k c : Nat} {i : FrameInfo} (h : RecordOk k c i) :
    i.front ∈ i.accessTimestamps := by
  obtain ⟨a, l, hl⟩ := List.exists_cons_of_ne_nil h.ne_nil
  simp [FrameInfo.front, hl]

/-! ## The history after an access -/

theorem mem_pushTimestamp {k t x : Nat} {ts : List Nat} (h : x ∈ pushTimestamp k t ts) :
    x ∈ ts ∨ x = t := by
  unfold pushTimestamp at h
  split at h
  · simpa using List.mem_of_mem_tail h
  · simpa using h

/-- An access keeps a record well formed and moves the clock past it. -/
theorem recordOk_pushTimestamp {k c : Nat} {ts : List Nat} (e : Bool) (hk : 1 ≤ k)
    (hlen : ts.length ≤ k) (hinc : ts.Pairwise (· < ·)) (hlt : ∀ t ∈ ts, t < c) :
    RecordOk k (c + 1) { accessTimestamps := pushTimestamp k c ts, evictable := e } := by
  have hinc' : (ts ++ [c]).Pairwise (· < ·) := by
    simpa [List.pairwise_append] using ⟨hinc, fun a ha => hlt a ha⟩
  refine ⟨?_, ?_, ?_, fun x hx => ?_⟩
  · show pushTimestamp k c ts ≠ []
    unfold pushTimestamp; split
    · rename_i h; rw [← List.length_pos]; simp at h ⊢; omega
    · simp
  · show (pushTimestamp k c ts).length ≤ k
    unfold pushTimestamp; split <;> rename_i h <;> simp at h ⊢ <;> omega
  · unfold pushTimestamp; split
    · exact hinc'.sublist (List.tail_sublist _)
    · exact hinc'
  · rcases mem_pushTimestamp hx with hx | rfl
    · have := hlt x hx; omega
    · omega

/-! ## One lemma per method -/

section Steps

variable {r r' : LRUKReplacer} {f : Nat}

theorem Inv.scannable (h : r.Inv) : r.Scannable := fun f i hi _ =>
  ⟨(h.records f i hi).ne_nil, (h.records f i hi).lt_current _ (h.records f i hi).front_mem⟩

theorem Inv.currSize_le (h : r.Inv) : r.currSize ≤ r.replacerSize :=
  h.currSize_eq ▸ evictableCount_le

/-- Distinct records have distinct first timestamps. -/
theorem Inv.front_ne (h : r.Inv) : ∀ f g i j, f ≠ g → r.frameMap f = some i →
    r.frameMap g = some j → i.front ≠ j.front := fun f g i j hfg hi hj he =>
  h.disjoint f g i j hfg hi hj _ (h.records f i hi).front_mem (he ▸ (h.records g j hj).front_mem)

theorem init_inv {n k : Nat} (h : init n k = .ok r) : r.Inv := by
  unfold init at h
  split at h
  · cases h
    exact ⟨‹_›, by simp, (List.countP_eq_zero.2 fun _ _ => by simp [isEvictable]).symm,
      by simp, by simp⟩
  · cases h

/-- Replacing the record of `f` by one whose timestamps are its old ones or a time `t` in no
other record keeps the records disjoint. -/
theorem disjoint_update {m : Nat → Option FrameInfo} {t : Nat} {new : FrameInfo}
    (hd : ∀ f g i j, f ≠ g → m f = some i → m g = some j → ∀ x ∈ i.accessTimestamps,
      x ∉ j.accessTimestamps)
    (hnew : ∀ x ∈ new.accessTimestamps,
      (∃ i, m f = some i ∧ x ∈ i.accessTimestamps) ∨ x = t)
    (ht : ∀ g j, m g = some j → t ∉ j.accessTimestamps) :
    ∀ g g' i j, g ≠ g' → Function.update m f (some new) g = some i →
      Function.update m f (some new) g' = some j → ∀ x ∈ i.accessTimestamps,
        x ∉ j.accessTimestamps := by
  have key : ∀ g j, g ≠ f → m g = some j →
      ∀ x ∈ new.accessTimestamps, x ∉ j.accessTimestamps := by
    intro g j hg hj x hx hx'
    rcases hnew x hx with ⟨i, hf, hx⟩ | rfl
    · exact hd f g i j (Ne.symm hg) hf hj x hx hx'
    · exact ht g j hj hx'
  intro g g' i j hgg hi hj x hx hx'
  by_cases hgf : g = f
  · subst hgf
    rw [Function.update_same] at hi; rw [Function.update_noteq (Ne.symm hgg)] at hj; cases hi
    exact key g' j (Ne.symm hgg) hj x hx hx'
  · rw [Function.update_noteq hgf] at hi
    by_cases hg'f : g' = f
    · subst hg'f; rw [Function.update_same] at hj; cases hj
      exact key g i hgf hi x hx' hx
    · rw [Function.update_noteq hg'f] at hj
      exact hd g g' i j hgg hi hj x hx hx'

theorem recordAccess_inv (h : r.Inv) (hr : r.recordAccess f = .ok r') : r'.Inv := by
  obtain ⟨hf, hmap, hcur, hsize, hrs, hk⟩ := recordAccess_eq_ok hr
  set info := (r.frameMap f).getD {}
  have hold : ∀ i, r.frameMap f = some i → info = i := fun i hi => by simp [info, hi]
  have hinfo : info.accessTimestamps.length ≤ r.k ∧ info.accessTimestamps.Pairwise (· < ·) ∧
      ∀ t ∈ info.accessTimestamps, t < r.currentTimestamp := by
    cases hi : r.frameMap f with
    | none => simp [info, hi]
    | some i => rw [hold i hi]; exact ⟨(h.records f i hi).length_le,
        (h.records f i hi).increasing, (h.records f i hi).lt_current⟩
  refine ⟨hk ▸ h.one_le_k, fun g hg => ?_, ?_, fun g i hi => ?_, ?_⟩
  · by_cases hgf : g = f
    · exact hrs ▸ hgf ▸ hf
    · exact hrs ▸ h.in_range g (by simpa [hmap, hgf] using hg)
  · have hc := evictableCount_update hf _ hrs hmap
    have : r.isEvictable f = info.evictable := by
      cases hi : r.frameMap f <;> simp [isEvictable, info, hi]
    simp only [Option.any_some, this] at hc
    rw [hsize, h.currSize_eq]; omega
  · rw [hk, hcur]
    by_cases hgf : g = f
    · subst hgf; simp only [hmap, Function.update_same, Option.some.injEq] at hi; subst hi
      exact recordOk_pushTimestamp _ h.one_le_k hinfo.1 hinfo.2.1 hinfo.2.2
    · simp only [hmap, Function.update_noteq hgf] at hi
      exact (h.records g i hi).mono (Nat.le_succ _)
  · rw [hmap]
    refine disjoint_update h.disjoint (t := r.currentTimestamp) (fun x hx => ?_)
      fun g j hj hx => lt_irrefl _ ((h.records g j hj).lt_current _ hx)
    rcases mem_pushTimestamp hx with hx | hx
    · cases hi : r.frameMap f with
      | none => simp [info, hi] at hx
      | some i => exact .inl ⟨i, rfl, hold i hi ▸ hx⟩
    · exact .inr hx

theorem RecordOk.congr {k c : Nat} {i j : FrameInfo} (h : RecordOk k c i)
    (hij : j.accessTimestamps = i.accessTimestamps) : RecordOk k c j :=
  ⟨hij ▸ h.ne_nil, hij ▸ h.length_le, hij ▸ h.increasing, hij ▸ h.lt_current⟩

/-- A step that only drops records or changes flags keeps every clause of `Inv` but the
count. -/
theorem Inv.of_sub (h : r.Inv) (hk : r'.k = r.k) (hcur : r'.currentTimestamp = r.currentTimestamp)
    (hrs : r'.replacerSize = r.replacerSize)
    (hsub : ∀ g j, r'.frameMap g = some j →
      ∃ i, r.frameMap g = some i ∧ j.accessTimestamps = i.accessTimestamps)
    (hcount : r'.currSize = r'.evictableCount) : r'.Inv := by
  refine ⟨hk ▸ h.one_le_k, fun g hg => ?_, hcount, fun g j hj => ?_, ?_⟩
  · obtain ⟨j, hj⟩ := Option.ne_none_iff_exists'.1 hg
    obtain ⟨i, hi, -⟩ := hsub g j hj
    exact hrs ▸ h.in_range g (by simp [hi])
  · obtain ⟨i, hi, hij⟩ := hsub g j hj
    exact hk ▸ hcur ▸ (h.records g i hi).congr hij
  · intro g g' j j' hgg hj hj' x hx hx'
    obtain ⟨i, hi, hij⟩ := hsub g j hj
    obtain ⟨i', hi', hij'⟩ := hsub g' j' hj'
    exact h.disjoint g g' i i' hgg hi hi' x (hij ▸ hx) (hij' ▸ hx')

/-- The records left after erasing `f` are old records. -/
theorem sub_update_none {m : Nat → Option FrameInfo} :
    ∀ g j, Function.update m f none g = some j →
      ∃ i, m g = some i ∧ j.accessTimestamps = i.accessTimestamps := by
  intro g j hj
  by_cases hg : g = f
  · subst hg; simp at hj
  · exact ⟨j, by simpa [hg] using hj, rfl⟩

theorem setEvictable_inv {b : Bool} (h : r.Inv) (hr : r.setEvictable f b = .ok r') : r'.Inv := by
  obtain ⟨hf, ⟨rfl, -⟩ | ⟨i, hi, hie, hmap, hsize, hcur, hrs, hk⟩⟩ :=
    setEvictable_eq_ok hr
  · exact h
  refine h.of_sub hk hcur hrs (fun g j hj => ?_) ?_
  · by_cases hg : g = f
    · subst hg; simp only [hmap, Function.update_same, Option.some.injEq] at hj
      exact ⟨i, hi, by rw [← hj]⟩
    · exact ⟨j, by simpa [hmap, hg] using hj, rfl⟩
  · have hc := evictableCount_update hf _ hrs hmap
    have he : r.isEvictable f = !b := by simp [isEvictable, hi, hie]
    rw [he] at hc
    rw [hsize, h.currSize_eq]
    cases b <;> simp at hc ⊢ <;> omega

theorem remove_inv (h : r.Inv) (hr : r.remove f = .ok r') : r'.Inv := by
  obtain ⟨hf, ⟨-, rfl⟩ | ⟨i, hi, hie, hmap, hsize, hcur, hrs, hk⟩⟩ := remove_eq_ok hr
  · exact h
  refine h.of_sub hk hcur hrs (hmap ▸ sub_update_none) ?_
  have hc := evictableCount_update hf _ hrs hmap
  simp only [isEvictable, hi, Option.any_some, hie, Bool.toNat_true, Option.any_none,
    Bool.toNat_false] at hc
  rw [hsize, h.currSize_eq]; omega

theorem evict_inv {order : List Nat} {v : Option Nat} (h : r.Inv)
    (hr : r.evict order = .ok (v, r')) : r'.Inv := by
  obtain ⟨-, -, rfl⟩ | ⟨acc, w, -, hs, hw, -, hmap, hsize, hcur, hrs, hk⟩ := evict_eq_ok hr
  · exact h
  obtain ⟨acc', hs', hinv⟩ := evictScan_spec h.scannable order
  rw [hs] at hs'; cases hs'
  obtain ⟨iw, hiw, hew, -, -⟩ := hinv.of_some hw
  refine h.of_sub hk hcur hrs (hmap ▸ sub_update_none) ?_
  have hc := evictableCount_update (h.in_range w (by simp [hiw])) _ hrs hmap
  simp only [isEvictable, hiw, Option.any_some, hew, Bool.toNat_true, Option.any_none,
    Bool.toNat_false] at hc
  rw [hsize, h.currSize_eq]; omega

theorem map_eq_ok {α β : Type} {g : α → β} {x : Except String α} {y : β}
    (h : g <$> x = .ok y) : ∃ a, x = .ok a ∧ g a = y := by
  cases x with
  | error e => cases h
  | ok a => exact ⟨a, rfl, Except.ok.inj h⟩

theorem exec_inv {c : ReplacerCall} {out : ReplacerReply} (h : r.Inv)
    (hr : r.exec c = .ok (out, r')) : r'.Inv := by
  cases c with
  | recordAccess f =>
    obtain ⟨a, ha, he⟩ := map_eq_ok hr; cases he; exact recordAccess_inv h ha
  | setEvictable f b =>
    obtain ⟨a, ha, he⟩ := map_eq_ok hr; cases he; exact setEvictable_inv h ha
  | remove f =>
    obtain ⟨a, ha, he⟩ := map_eq_ok hr; cases he; exact remove_inv h ha
  | evict order =>
    obtain ⟨a, ha, he⟩ := map_eq_ok hr; cases he; exact evict_inv h ha
  | size => cases hr; exact h

/-- The map has an iteration order: its frames in increasing order. -/
theorem Inv.exists_iterationOrder (h : r.Inv) : ∃ order, r.IsIterationOrder order :=
  ⟨(List.range r.replacerSize).filter fun f => (r.frameMap f).isSome,
    (List.nodup_range _).filter _, fun f => by
      simp only [List.mem_filter, List.mem_range, Option.isSome_iff_ne_none, decide_eq_true_eq]
      exact ⟨fun hf => hf.2, fun hf => ⟨h.in_range f hf, hf⟩⟩⟩

/-- With an evictable record, the scan over an iteration order ends with a victim, ranked
first. -/
theorem Inv.evictScan_isVictim (h : r.Inv) {order : List Nat} (ho : r.IsIterationOrder order)
    (hsize : r.currSize ≠ 0) {acc : EvictScan} (hs : r.evictScan order = .ok acc) :
    ∃ v, acc.victimFid = some v ∧ r.IsVictim v := by
  have e := evictScan_victim h.scannable ho hs
  cases hv : acc.victimFid with
  | none =>
    exact absurd (h.currSize_eq.trans (List.countP_eq_zero.2 fun f _ => by simp [e.1 hv f])) hsize
  | some v => exact ⟨v, rfl, e.2 v hv⟩

/-- On an iteration order of the map, `Evict` returns: it reads no empty list and fails no
assertion. -/
theorem evict_ok {order : List Nat} (h : r.Inv) (ho : r.IsIterationOrder order) :
    ∃ v r', r.evict order = .ok (v, r') := by
  unfold evict
  split
  · exact ⟨_, _, rfl⟩
  · rename_i hsize
    obtain ⟨acc, hs, -⟩ := evictScan_spec h.scannable order
    obtain ⟨v, hv, -⟩ := h.evictScan_isVictim ho hsize hs
    simp only [hs, bind, Except.bind, hv]
    exact ⟨_, _, rfl⟩

/-- `Evict` does the same over every iteration order of `frame_map_`: the scan ends with the
one frame ranked first, since no two records share a timestamp. -/
theorem Inv.evict_order (h : r.Inv) {o₁ o₂ : List Nat} (h₁ : r.IsIterationOrder o₁)
    (h₂ : r.IsIterationOrder o₂) : r.evict o₁ = r.evict o₂ := by
  unfold evict
  split
  · rfl
  · rename_i hsize
    obtain ⟨acc₁, hs₁, -⟩ := evictScan_spec h.scannable o₁
    obtain ⟨acc₂, hs₂, -⟩ := evictScan_spec h.scannable o₂
    obtain ⟨v₁, hv₁, hvic₁⟩ := h.evictScan_isVictim h₁ hsize hs₁
    obtain ⟨v₂, hv₂, hvic₂⟩ := h.evictScan_isVictim h₂ hsize hs₂
    rw [IsVictim.unique h.front_ne hvic₁ hvic₂] at hv₁
    simp only [hs₁, hs₂, bind, Except.bind, hv₁, hv₂]

/-- Every call that keeps the contract returns. -/
theorem exec_ok {c : ReplacerCall} (h : r.Inv) (hc : r.Admissible c) :
    ∃ out r', r.exec c = .ok (out, r') := by
  cases c with
  | recordAccess f =>
    simp only [exec, recordAccess, show f < r.replacerSize from hc, if_true]; exact ⟨_, _, rfl⟩
  | setEvictable f b =>
    simp only [exec, setEvictable, show f < r.replacerSize from hc, if_true]
    split
    · exact ⟨_, _, rfl⟩
    · split <;> exact ⟨_, _, rfl⟩
  | remove f =>
    simp only [exec, remove, hc.1, if_true]
    split
    · exact ⟨_, _, rfl⟩
    · rename_i i hi; simp only [hc.2 i hi, if_true]; exact ⟨_, _, rfl⟩
  | evict order =>
    obtain ⟨v, r', he⟩ := evict_ok h hc
    exact ⟨_, r', by simp [exec, he]; rfl⟩
  | size => exact ⟨_, _, rfl⟩

theorem Reachable.inv (h : r.Reachable) : r.Inv := by
  induction h with
  | init h => exact init_inv h
  | step _ _ hexec ih => exact exec_inv ih hexec

end Steps

/-- Every reachable replacer satisfies `Inv`: `curr_size_` counts the evictable records and is
at most `replacer_size_`, each record holds one to `k` strictly increasing timestamps below
the clock, and no timestamp is in two records. On every iteration order `Evict` returns:
it never fails its assertion, never reads an empty list, and `current_timestamp_ - kth_ts`
is a true difference. -/
theorem reachable_invariant {r : LRUKReplacer} (h : r.Reachable) :
    r.Inv ∧ r.currSize ≤ r.replacerSize ∧
      ∀ order, r.IsIterationOrder order → ∃ v r', r.evict order = .ok (v, r') :=
  ⟨h.inv, h.inv.currSize_le, fun _ ho => evict_ok h.inv ho⟩

/-- A frame accessed once and then made evictable. -/
theorem reachable_invariant_evictable_frame :
    ∃ r : LRUKReplacer, r.Reachable ∧ r.currSize = 1 ∧
      (r.Inv ∧ r.currSize ≤ r.replacerSize ∧
        ∀ order, r.IsIterationOrder order → ∃ v r', r.evict order = .ok (v, r')) := by
  have h₀ : Reachable ⟨fun _ => none, 0, 0, 3, 2⟩ := .init (rfl : init 3 2 = _)
  have h₁ := @Reachable.step _ _ (.recordAccess 0) _ h₀ (show 0 < 3 by decide) rfl
  have h₂ := @Reachable.step _ _ (.setEvictable 0 true) _ h₁ (show 0 < 3 by decide) rfl
  exact ⟨_, h₂, rfl, reachable_invariant h₂⟩

/-! ## The iteration order of `frame_map_` -/

/-- In every reachable state, `Evict` returns the same frame and leaves the same state over
every iteration order of the unordered `frame_map_`: the order the code cannot choose never
shows in its result. -/
theorem evict_order_independent {r : LRUKReplacer} (hr : r.Reachable) {o₁ o₂ : List Nat}
    (h₁ : r.IsIterationOrder o₁) (h₂ : r.IsIterationOrder o₂) : r.evict o₁ = r.evict o₂ :=
  hr.inv.evict_order h₁ h₂

/-- Two frames, each accessed once and made evictable, scanned in either order. -/
theorem evict_order_independent_two_frames :
    ∃ r : LRUKReplacer, r.Reachable ∧ r.IsIterationOrder [0, 1] ∧ r.IsIterationOrder [1, 0] ∧
      r.evict [0, 1] = r.evict [1, 0] := by
  have h₀ : Reachable _ := .init (rfl : init 2 2 = _)
  have h₁ := Reachable.step (c := .recordAccess 0) h₀ (show 0 < 2 by decide) rfl
  have h₂ := Reachable.step (c := .recordAccess 1) h₁ (show 1 < 2 by decide) rfl
  have h₃ := Reachable.step (c := .setEvictable 0 true) h₂ (show 0 < 2 by decide) rfl
  have h₄ := Reachable.step (c := .setEvictable 1 true) h₃ (show 1 < 2 by decide) rfl
  obtain ⟨r, hr, h₀₁, h₁₀⟩ : ∃ r : LRUKReplacer, r.Reachable ∧ r.IsIterationOrder [0, 1] ∧
      r.IsIterationOrder [1, 0] := by
    refine ⟨_, h₄, ⟨by decide, fun f => ?_⟩, ⟨by decide, fun f => ?_⟩⟩ <;>
    · rcases f with _ | _ | f <;> simp [Function.update]
  exact ⟨r, hr, h₀₁, h₁₀, evict_order_independent hr h₀₁ h₁₀⟩

/-! ## Draining the replacer -/

/-- `Evict` called again and again, each call over an iteration order of the state it runs
in and each returning a frame: the frames returned, in order, and the state after the last
call. -/
inductive EvictSeq : LRUKReplacer → List Nat → LRUKReplacer → Prop
  | nil (r : LRUKReplacer) : EvictSeq r [] r
  | cons {r r₁ r' : LRUKReplacer} {order : List Nat} {v : Nat} {vs : List Nat} :
      r.IsIterationOrder order → r.evict order = .ok (some v, r₁) → EvictSeq r₁ vs r' →
      EvictSeq r (v :: vs) r'

section Drain

variable {r r₁ r' : LRUKReplacer} {vs : List Nat}

/-- A successful `Evict` takes an evictable frame, erases its record and counts one
evictable frame less. -/
theorem Inv.evict_some (h : r.Inv) {order : List Nat} {v : Nat}
    (he : r.evict order = .ok (some v, r₁)) :
    r.isEvictable v ∧ r₁.frameMap = Function.update r.frameMap v none ∧
      r₁.currSize + 1 = r.currSize := by
  obtain ⟨-, hn, -⟩ | ⟨acc, w, hsize, hs, hw, hv, hmap, hcs, -⟩ := evict_eq_ok he
  · cases hn
  cases hv
  obtain ⟨acc', hs', hinv⟩ := evictScan_spec h.scannable order
  rw [hs] at hs'; cases hs'
  obtain ⟨iw, hiw, hew, -, -⟩ := hinv.of_some hw
  exact ⟨by simp [isEvictable, hiw, hew], hmap, by omega⟩

/-- Along successive `Evict` calls the replacer keeps its invariant and returns distinct
frames, each evictable at the start and each one count of `Size()` less; the records it
does not return stay as they were. -/
theorem Inv.evictSeq (h : r.Inv) (hs : EvictSeq r vs r') :
    r'.Inv ∧ vs.Nodup ∧ (∀ v ∈ vs, r.isEvictable v) ∧
      (∀ f, f ∉ vs → r'.frameMap f = r.frameMap f) ∧ r'.currSize + vs.length = r.currSize := by
  induction hs with
  | nil => exact ⟨h, List.nodup_nil, by simp, fun _ _ => rfl, rfl⟩
  | @cons r r₁ r' order v vs _ he _ ih =>
    obtain ⟨hv, hmap, hcs⟩ := h.evict_some he
    obtain ⟨hi', hnd, hev, hkeep, hcs'⟩ := ih (evict_inv h he)
    have hne : ∀ f, f ≠ v → r₁.frameMap f = r.frameMap f := fun f hf => by
      rw [hmap, Function.update_noteq hf]
    -- the frame returned first has no record left to be returned again
    have hvs : v ∉ vs := fun hm => by simpa [isEvictable, hmap] using hev v hm
    refine ⟨hi', List.nodup_cons.2 ⟨hvs, hnd⟩, fun w hw => ?_, fun f hf => ?_, ?_⟩
    · rcases List.mem_cons.1 hw with rfl | hw
      · exact hv
      · have := hev w hw
        unfold isEvictable at this ⊢
        rwa [hne w fun e => hvs (e ▸ hw)] at this
    · rw [hkeep f fun hm => hf (List.mem_cons_of_mem _ hm),
        hne f fun e => hf (e ▸ List.mem_cons_self _ _)]
    · rw [List.length_cons]; omega

/-- From every state satisfying the invariant, `Size()` successive `Evict` calls return a
frame each and bring the count to zero. -/
theorem Inv.exists_evictSeq (h : r.Inv) : ∃ vs r', EvictSeq r vs r' ∧ r'.currSize = 0 := by
  generalize hn : r.currSize = n
  induction n generalizing r with
  | zero => exact ⟨[], r, .nil r, hn⟩
  | succ n ih =>
    obtain ⟨order, ho⟩ := h.exists_iterationOrder
    obtain ⟨v, r₁, he⟩ := evict_ok h ho
    cases v with
    | none =>
      rcases evict_eq_ok he with ⟨h0, -⟩ | ⟨_, _, _, _, _, hv, -⟩
      · omega
      · cases hv
    | some v =>
      obtain ⟨-, -, hcs⟩ := h.evict_some he
      obtain ⟨vs, r', hs, h0⟩ := ih (evict_inv h he) (by omega)
      exact ⟨v :: vs, r', .cons ho he hs, h0⟩

end Drain

/-- From every reachable state, `Evict` called until `Size()` is zero returns exactly the
frames evictable there, each once, in `Size()` calls, and leaves every other record as it
was: such a sequence of calls exists, and every one of them returns a permutation of the
evictable frames. -/
theorem evict_drains {r : LRUKReplacer} (hr : r.Reachable) :
    (∃ vs r', EvictSeq r vs r' ∧ r'.size = 0) ∧
      ∀ vs r', EvictSeq r vs r' → r'.size = 0 →
        vs.Perm ((List.range r.replacerSize).filter r.isEvictable) ∧ vs.length = r.size ∧
          ∀ f, r.isEvictable f = false → r'.frameMap f = r.frameMap f := by
  have h := hr.inv
  refine ⟨h.exists_evictSeq, fun vs r' hs h0 => ?_⟩
  obtain ⟨hi', hnd, hev, hkeep, hcs⟩ := h.evictSeq hs
  unfold size at h0 ⊢
  -- a frame evictable at the start and never returned would still count at the end
  have hall : ∀ f, r.isEvictable f → f ∈ vs := fun f hf => by
    by_contra hm
    have hf' : r'.isEvictable f := by unfold isEvictable at hf ⊢; rwa [hkeep f hm]
    have hlt : f < r'.replacerSize := hi'.in_range f fun hn => by simp [isEvictable, hn] at hf'
    have hpos : 0 < r'.evictableCount := List.countP_pos_iff.2 ⟨f, List.mem_range.2 hlt, hf'⟩
    have := hi'.currSize_eq
    omega
  refine ⟨(List.perm_ext_iff_of_nodup hnd ((List.nodup_range _).filter _)).2 fun f => ?_,
    by omega, fun f hf => hkeep f fun hm => by simp [hev f hm] at hf⟩
  simp only [List.mem_filter, List.mem_range]
  refine ⟨fun hm => ⟨h.in_range f fun hn => ?_, hev f hm⟩, fun hf => hall f hf.2⟩
  simpa [isEvictable, hn] using hev f hm

/-- Two frames, each accessed once and made evictable: `Size()` is two. -/
theorem evict_drains_two_frames :
    ∃ r : LRUKReplacer, r.Reachable ∧ r.size = 2 ∧
      ((∃ vs r', EvictSeq r vs r' ∧ r'.size = 0) ∧
        ∀ vs r', EvictSeq r vs r' → r'.size = 0 →
          vs.Perm ((List.range r.replacerSize).filter r.isEvictable) ∧ vs.length = r.size ∧
            ∀ f, r.isEvictable f = false → r'.frameMap f = r.frameMap f) := by
  have h₀ : Reachable _ := .init (rfl : init 2 2 = _)
  have h₁ := Reachable.step (c := .recordAccess 0) h₀ (show 0 < 2 by decide) rfl
  have h₂ := Reachable.step (c := .recordAccess 1) h₁ (show 1 < 2 by decide) rfl
  have h₃ := Reachable.step (c := .setEvictable 0 true) h₂ (show 0 < 2 by decide) rfl
  have h₄ := Reachable.step (c := .setEvictable 1 true) h₃ (show 1 < 2 by decide) rfl
  exact ⟨_, h₄, rfl, evict_drains h₄⟩

end LRUKReplacer

end Bustub
