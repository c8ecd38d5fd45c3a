import GrafeoLoro.Lib.Exec
import GrafeoLoro.Runtime.MemoryCeiling
import Mathlib.Algebra.Group.Nat.Defs

/-!
# `GrafeoLoro.Proofs.MemoryCeiling`: when the memory account is exact

The size of an idle document is registered without regard to what was allocated, an eviction
subtracts it from the counter, and `try_alloc` adds its argument before it compares. Neither is
checked, so the counter can wrap around in both directions.

* `accounted_iff`: in every run, no counter operation wraps around and the usage is within the
  budget in all states, exactly when no call adds past the end of a `usize` and no eviction takes
  more than there is.
* `ceiling_wraps`: an eviction after which the usage is over the budget, and an allocation of
  almost all memory that is granted.
-/

set_option autoImplicit false

namespace GrafeoLoro.Proofs

open GrafeoLoro GrafeoLoro.Lib MemoryCeiling

variable {w : Nat}

/-! ### What the evictions take -/

/-- The bytes of a list of documents. -/
def idleBytes : List (IdleDoc w) → Nat
  | [] => 0
  | d :: rest => d.sizeBytes.toNat + idleBytes rest

/-- While the allocation does not fit after the evictions so far, the next document is covered by
what is left of the counter. -/
def Covered (budget current bytes : Nat) (docs : List (IdleDoc w)) : Prop :=
  ∀ before d after, docs = before ++ d :: after →
    budget + idleBytes before < current + bytes → idleBytes before + d.sizeBytes.toNat ≤ current

section
variable {budget current bytes : Nat} {d : IdleDoc w} {rest : List (IdleDoc w)}

theorem covered_nil : Covered budget current bytes ([] : List (IdleDoc w)) := by
  intro before d after hdocs
  simp at hdocs

/-- An allocation that fits evicts nothing. -/
theorem covered_of_fits {docs : List (IdleDoc w)} (h : current + bytes ≤ budget) :
    Covered budget current bytes docs := by
  intro before d after _ hlt
  omega

/-- The documents after one that is covered see what it leaves. -/
theorem covered_cons (hd : d.sizeBytes.toNat ≤ current) :
    Covered budget current bytes (d :: rest) ↔
      Covered budget (current - d.sizeBytes.toNat) bytes rest := by
  constructor
  · intro hcovered before d' after hrest hlt
    have hfirst := hcovered (d :: before) d' after (by simp [hrest])
    simp only [idleBytes] at hfirst
    omega
  · intro hcovered before d' after hdocs hlt
    cases before with
    | nil =>
      obtain ⟨rfl, -⟩ : d = d' ∧ rest = after := by simpa using hdocs
      simpa [idleBytes] using hd
    | cons first before =>
      obtain ⟨rfl, hrest⟩ : d = first ∧ rest = before ++ d' :: after := by simpa using hdocs
      have hlater := hcovered before d' after hrest
      simp only [idleBytes] at hlt ⊢
      omega

/-- A first document that is not covered is evicted all the same. -/
theorem not_covered_cons (h : budget < current + bytes) (hd : current < d.sizeBytes.toNat) :
    ¬ Covered budget current bytes (d :: rest) := by
  intro hcovered
  have hfirst := hcovered [] d rest rfl (by simpa [idleBytes] using h)
  simp only [idleBytes] at hfirst
  omega

end

/-! ### The operations of the counter -/

section
variable {c : MemoryCeiling w} {bytes sizeBytes freed : BitVec w}

@[simp] theorem note_currentBytes (b : Bool) : (c.note b).currentBytes = c.currentBytes := rfl

@[simp] theorem note_budgetBytes (b : Bool) : (c.note b).budgetBytes = c.budgetBytes := rfl

@[simp] theorem note_clamped (b : Bool) : (c.note b).clamped = c.clamped := rfl

@[simp] theorem note_wrapped (b : Bool) : (c.note b).wrapped = (c.wrapped || b) := rfl

@[simp] theorem note_false : c.note false = c := by
  simp [note]

@[simp] theorem evict_budgetBytes : (c.evict sizeBytes).budgetBytes = c.budgetBytes := rfl

@[simp] theorem evict_clamped : (c.evict sizeBytes).clamped = c.clamped := rfl

@[simp] theorem evict_wrapped :
    (c.evict sizeBytes).wrapped = (c.wrapped || c.currentBytes.usubOverflow sizeBytes) := rfl

@[simp] theorem evict_currentBytes :
    (c.evict sizeBytes).currentBytes = c.currentBytes - sizeBytes := rfl

/-- A document within the counter is subtracted from it. -/
theorem evict_toNat (h : sizeBytes.toNat ≤ c.currentBytes.toNat) :
    (c.evict sizeBytes).currentBytes.toNat = c.currentBytes.toNat - sizeBytes.toNat :=
  BitVec.toNat_sub_of_le h

/-- What has wrapped around stays so. -/
theorem evictLoop_wrapped {docs : List (IdleDoc w)} (h : c.wrapped = true) :
    (evictLoop bytes docs freed c).2.wrapped = true := by
  induction docs generalizing c freed with
  | nil => exact h
  | cons d rest ih =>
    rw [evictLoop]
    split
    · exact ih (by simp [h])
    · simp [h]

theorem evictLoop_frame {docs : List (IdleDoc w)} :
    (evictLoop bytes docs freed c).2.budgetBytes = c.budgetBytes ∧
      (evictLoop bytes docs freed c).2.clamped = c.clamped := by
  induction docs generalizing c freed with
  | nil => exact ⟨rfl, rfl⟩
  | cons d rest ih =>
    rw [evictLoop]
    split
    · simpa using ih (c := (((c.note _).evict d.sizeBytes).note _))
    · exact ⟨rfl, rfl⟩

/-- The loop wraps around exactly when one of its evictions is not covered. Otherwise the counter
goes down. -/
theorem evictLoop_spec (docs : List (IdleDoc w)) (hwrapped : c.wrapped = false)
    (hfits : c.currentBytes.toNat + bytes.toNat < 2 ^ w)
    (hfreed : freed.toNat + c.currentBytes.toNat < 2 ^ w) :
    ((evictLoop bytes docs freed c).2.wrapped = false ↔
      Covered c.budgetBytes.toNat c.currentBytes.toNat bytes.toNat docs) ∧
    ((evictLoop bytes docs freed c).2.wrapped = false →
      (evictLoop bytes docs freed c).2.currentBytes.toNat ≤ c.currentBytes.toNat) := by
  induction docs generalizing c freed with
  | nil =>
    refine ⟨iff_of_true hwrapped covered_nil, fun _ => Nat.le_refl _⟩
  | cons d rest ih =>
    have hno : c.currentBytes.uaddOverflow bytes = false := by
      simpa [BitVec.uaddOverflow] using hfits
    have hsum : (c.currentBytes + bytes).toNat = c.currentBytes.toNat + bytes.toNat :=
      BitVec.toNat_add_of_lt hfits
    rw [evictLoop]
    simp only [currentUsage, hno, note_false]
    by_cases hover : c.budgetBytes < c.currentBytes + bytes
    · have hlt : c.budgetBytes.toNat < c.currentBytes.toNat + bytes.toNat := by
        rw [← hsum]
        exact hover
      simp only [if_pos hover]
      by_cases hd : d.sizeBytes.toNat ≤ c.currentBytes.toNat
      · -- the document is covered, and all of it is freed
        have hnot : ¬ c.currentBytes < d.sizeBytes := Nat.not_lt.mpr hd
        have hsub : c.currentBytes.usubOverflow d.sizeBytes = false := by
          simpa [BitVec.usubOverflow] using hd
        have hadd : freed.uaddOverflow d.sizeBytes = false := by
          simp only [BitVec.uaddOverflow, decide_eq_false_iff_not]
          omega
        have hnext := @ih (c.evict d.sizeBytes) (freed + d.sizeBytes)
          (by simp [hwrapped, hsub]) (by rw [evict_toNat hd]; omega)
          (by rw [evict_toNat hd, BitVec.toNat_add_of_lt (by omega)]; omega)
        rw [evict_toNat hd, evict_budgetBytes] at hnext
        simp only [if_neg hnot, hadd, note_false]
        rw [covered_cons hd]
        exact ⟨hnext.1, fun hdone => Nat.le_trans (hnext.2 hdone) (Nat.sub_le _ _)⟩
      · -- the subtraction wraps around
        have hsub : c.currentBytes.usubOverflow d.sizeBytes = true := by
          simpa [BitVec.usubOverflow] using hd
        have hstuck : ∀ f b, (evictLoop bytes rest f
            ((c.evict d.sizeBytes).note b)).2.wrapped = true := by
          intro f b
          exact evictLoop_wrapped (by simp [hsub])
        rw [hstuck]
        simp [not_covered_cons hlt (Nat.lt_of_not_le hd)]
    · have hle : c.currentBytes.toNat + bytes.toNat ≤ c.budgetBytes.toNat := by
        rw [← hsum]
        exact Nat.le_of_not_lt hover
      simp only [if_neg hover]
      exact ⟨iff_of_true hwrapped (covered_of_fits hle), fun _ => Nat.le_refl _⟩

/-- The check of an allocation: it wraps around, or it compares the sum with the budget. -/
theorem tryAllocInner_spec (c : MemoryCeiling w) (bytes : BitVec w) :
    (2 ^ w ≤ c.currentBytes.toNat + bytes.toNat ∧ (c.tryAllocInner bytes).2.wrapped = true) ∨
    (c.currentBytes.toNat + bytes.toNat ≤ c.budgetBytes.toNat ∧
      c.currentBytes.toNat + bytes.toNat < 2 ^ w ∧
      c.tryAllocInner bytes = (true, { c with currentBytes := c.currentBytes + bytes })) ∨
    (c.budgetBytes.toNat < c.currentBytes.toNat + bytes.toNat ∧
      c.currentBytes.toNat + bytes.toNat < 2 ^ w ∧ c.tryAllocInner bytes = (false, c)) := by
  by_cases hfits : c.currentBytes.toNat + bytes.toNat < 2 ^ w
  · have hno : c.currentBytes.uaddOverflow bytes = false := by
      simpa [BitVec.uaddOverflow] using hfits
    have hsum : (c.currentBytes + bytes).toNat = c.currentBytes.toNat + bytes.toNat :=
      BitVec.toNat_add_of_lt hfits
    rw [← hsum]
    simp only [tryAllocInner, currentUsage, hno, note_false]
    by_cases hle : c.currentBytes + bytes ≤ c.budgetBytes
    · exact .inr (.inl ⟨hle, hsum ▸ hfits, by rw [if_pos hle]⟩)
    · exact .inr (.inr ⟨Nat.lt_of_not_le hle, hsum ▸ hfits, by rw [if_neg hle]⟩)
  · have hyes : c.currentBytes.uaddOverflow bytes = true := by
      simpa [BitVec.uaddOverflow] using hfits
    refine .inl ⟨Nat.le_of_not_lt hfits, ?_⟩
    simp only [tryAllocInner, currentUsage, hyes]
    split
    · simp
    · simp

/-- A check that comes after a wrap-around does not undo it. -/
theorem tryAllocInner_wrapped (bytes : BitVec w) (h : c.wrapped = true) :
    (c.tryAllocInner bytes).2.wrapped = true := by
  simp only [tryAllocInner]
  split
  · simp [h]
  · simp [h]

theorem evictIdle_spec :
    (c.sortedIdle = [] ∧ c.evictIdle.2 = c) ∨
    ∃ d rest, c.sortedIdle = d :: rest ∧
      c.evictIdle.2 = { c.evict d.sizeBytes with idle := rest } := by
  unfold evictIdle
  cases hsorted : c.sortedIdle with
  | nil => exact .inl ⟨rfl, rfl⟩
  | cons d rest => exact .inr ⟨d, rest, rfl, rfl⟩

end

/-! ### Calls -/

/-- The usage is within the budget, and no addition and no eviction has wrapped around. -/
def Accounted (c : MemoryCeiling w) : Prop :=
  c.currentUsage ≤ c.budgetBytes ∧ c.wrapped = false

/-- The same, and no release has taken the counter below zero either. -/
def AccountedStrictly (c : MemoryCeiling w) : Prop := Accounted c ∧ c.clamped = false

/-- An allocation does not add past the end of a `usize`, and what it and `evict_idle` evict is
covered by the counter. -/
def KeepsAccount (c : MemoryCeiling w) : CeilingCall w → Prop
  | .tryAlloc bytes =>
    c.currentBytes.toNat + bytes.toNat < 2 ^ w ∧
      Covered c.budgetBytes.toNat c.currentBytes.toNat bytes.toNat c.sortedIdle
  | .evictIdle =>
    ∀ d rest, c.sortedIdle = d :: rest → d.sizeBytes.toNat ≤ c.currentBytes.toNat
  | _ => True

/-- The call keeps the account, and a release is covered by the counter. -/
def KeepsAccountStrictly (c : MemoryCeiling w) (a : CeilingCall w) : Prop :=
  KeepsAccount c a ∧ ∀ bytes, a = .release bytes → bytes.toNat ≤ c.currentBytes.toNat

section
variable {c : MemoryCeiling w} {bytes : BitVec w}

/-- Only a `release` repairs the counter. -/
theorem tryAllocInner_clamped (c : MemoryCeiling w) (bytes : BitVec w) :
    (c.tryAllocInner bytes).2.clamped = c.clamped := by
  simp only [tryAllocInner]
  split
  · rfl
  · rfl

theorem evictToFit_clamped : (c.evictToFit bytes).2.clamped = c.clamped := by
  unfold evictToFit
  split
  · rfl
  · exact evictLoop_frame.2

theorem tryAlloc_clamped : (c.tryAlloc bytes).2.clamped = c.clamped := by
  unfold tryAlloc
  split
  · rename_i c' hinner
    rw [← tryAllocInner_clamped c bytes, hinner]
  · rename_i c' hinner
    rw [tryAllocInner_clamped, evictToFit_clamped, ← tryAllocInner_clamped c bytes, hinner]

theorem evictToFit_wrapped (h : c.wrapped = true) : (c.evictToFit bytes).2.wrapped = true := by
  unfold evictToFit
  split
  · exact h
  · exact evictLoop_wrapped h

/-- The evictions for an allocation wrap around exactly when one is not covered. Otherwise the
counter goes down. -/
theorem evictToFit_spec (hwrapped : c.wrapped = false)
    (hfits : c.currentBytes.toNat + bytes.toNat < 2 ^ w) :
    ((c.evictToFit bytes).2.wrapped = false ↔
      Covered c.budgetBytes.toNat c.currentBytes.toNat bytes.toNat c.sortedIdle) ∧
    ((c.evictToFit bytes).2.wrapped = false →
      (c.evictToFit bytes).2.currentBytes.toNat ≤ c.currentBytes.toNat) ∧
    (c.evictToFit bytes).2.budgetBytes = c.budgetBytes := by
  unfold evictToFit
  split
  · rename_i hempty
    have hsorted : c.sortedIdle = [] := by simp [sortedIdle, List.isEmpty_iff.mp hempty]
    rw [hsorted]
    exact ⟨iff_of_true hwrapped covered_nil, fun _ => Nat.le_refl _, rfl⟩
  · have hzero : (0 : BitVec w).toNat + c.currentBytes.toNat < 2 ^ w := by
      simpa using c.currentBytes.isLt
    obtain ⟨hcovered, hdown⟩ := evictLoop_spec c.sortedIdle hwrapped hfits hzero
    exact ⟨hcovered, hdown, evictLoop_frame.1⟩

/-- A check that does not wrap around keeps the account. -/
theorem tryAllocInner_accounted (h : Accounted c)
    (hfits : c.currentBytes.toNat + bytes.toNat < 2 ^ w) :
    Accounted (c.tryAllocInner bytes).2 := by
  obtain ⟨hbudget, hwrapped⟩ := h
  rcases tryAllocInner_spec c bytes with ⟨hover, -⟩ | ⟨hsum, -, hinner⟩ | ⟨-, -, hinner⟩
  · omega
  · rw [hinner]
    refine ⟨?_, hwrapped⟩
    show (c.currentBytes + bytes).toNat ≤ c.budgetBytes.toNat
    rw [BitVec.toNat_add_of_lt hfits]
    exact hsum
  · rw [hinner]
    exact ⟨hbudget, hwrapped⟩

/-- An allocation keeps the account exactly when its additions and evictions do. -/
theorem tryAlloc_accounted_iff (h : Accounted c) :
    Accounted (c.tryAlloc bytes).2 ↔ KeepsAccount c (.tryAlloc bytes) := by
  obtain ⟨hbudget, hwrapped⟩ := h
  have hle : c.currentBytes.toNat ≤ c.budgetBytes.toNat := hbudget
  simp only [KeepsAccount]
  rcases tryAllocInner_spec c bytes with ⟨hover, hnow⟩ | ⟨hsum, hfits, hinner⟩ |
    ⟨hsum, hfits, hinner⟩
  · -- the first addition wraps around
    have hstuck : (c.tryAlloc bytes).2.wrapped = true := by
      unfold tryAlloc
      split
      · rename_i c' hinner
        rw [hinner] at hnow
        exact hnow
      · rename_i c' hinner
        rw [hinner] at hnow
        exact tryAllocInner_wrapped bytes (evictToFit_wrapped hnow)
    refine iff_of_false (fun hacc => ?_) fun hkeeps => Nat.not_lt.mpr hover hkeeps.1
    rw [hacc.2] at hstuck
    cases hstuck
  · -- the allocation fits
    have halloc : (c.tryAlloc bytes).2 = (c.tryAllocInner bytes).2 := by
      rw [tryAlloc, hinner]
    rw [halloc]
    exact iff_of_true (tryAllocInner_accounted ⟨hbudget, hwrapped⟩ hfits)
      ⟨hfits, covered_of_fits hsum⟩
  · -- documents are evicted, and the check is made again
    have halloc : c.tryAlloc bytes = (c.evictToFit bytes).2.tryAllocInner bytes := by
      rw [tryAlloc, hinner]
    obtain ⟨hcovered, hdown, hsame⟩ := evictToFit_spec hwrapped hfits
    rw [halloc, ← hcovered]
    cases hevict : (c.evictToFit bytes).2.wrapped with
    | true =>
      have hstuck := tryAllocInner_wrapped bytes hevict
      simp [Accounted, hstuck]
    | false =>
      have hless := hdown hevict
      have hafter : Accounted (c.evictToFit bytes).2 := by
        refine ⟨?_, hevict⟩
        show (c.evictToFit bytes).2.currentBytes.toNat ≤ (c.evictToFit bytes).2.budgetBytes.toNat
        rw [hsame]
        omega
      exact iff_of_true (tryAllocInner_accounted hafter (by omega)) ⟨hfits, rfl⟩

/-- An eviction keeps the account exactly when it takes no more than there is. -/
theorem evictIdle_accounted_iff (h : Accounted c) :
    Accounted c.evictIdle.2 ↔ KeepsAccount c .evictIdle := by
  obtain ⟨hbudget, hwrapped⟩ := h
  have hle : c.currentBytes.toNat ≤ c.budgetBytes.toNat := hbudget
  simp only [KeepsAccount]
  rcases evictIdle_spec (c := c) with ⟨hnone, hsame⟩ | ⟨d, rest, hsorted, hevicted⟩
  · rw [hsame, hnone]
    exact iff_of_true ⟨hbudget, hwrapped⟩ fun d rest hcons => absurd hcons (by simp)
  · rw [hevicted, hsorted]
    constructor
    · rintro ⟨-, hafter⟩ d' rest' hcons
      obtain ⟨rfl, -⟩ := List.cons.inj hcons
      simpa [BitVec.usubOverflow, hwrapped] using hafter
    · intro hcovered
      have hd := hcovered d rest rfl
      have hsub : c.currentBytes.usubOverflow d.sizeBytes = false := by
        simpa [BitVec.usubOverflow] using hd
      refine ⟨?_, by simp [hwrapped, hsub]⟩
      show (c.evict d.sizeBytes).currentBytes.toNat ≤ c.budgetBytes.toNat
      rw [evict_toNat hd]
      omega

/-- A release keeps the account: an underflow resets the counter. -/
theorem release_accounted (h : Accounted c) : Accounted (c.release bytes) := by
  obtain ⟨hbudget, hwrapped⟩ := h
  have hle : c.currentBytes.toNat ≤ c.budgetBytes.toNat := hbudget
  unfold release
  dsimp only
  split
  · refine ⟨?_, hwrapped⟩
    show (0 : BitVec w).toNat ≤ c.budgetBytes.toNat
    simp
  · rename_i hnot
    refine ⟨?_, hwrapped⟩
    show BitVec.toNat (_ - _) ≤ c.budgetBytes.toNat
    rw [BitVec.toNat_sub_of_le (BitVec.not_lt.mp hnot)]
    omega

theorem release_clamped (h : c.clamped = false) :
    (c.release bytes).clamped = false ↔ bytes.toNat ≤ c.currentBytes.toNat := by
  unfold release
  dsimp only
  split
  · rename_i hlt
    simp [Nat.not_le.mpr (BitVec.lt_def.mp hlt)]
  · rename_i hnot
    simp [h, BitVec.le_def.mp (BitVec.not_lt.mp hnot)]

end

theorem registerIdle_frame (c : MemoryCeiling w) (key : UInt64) (sizeBytes : BitVec w)
    (lastAccessMs : UInt64) :
    ∃ idle, c.registerIdle key sizeBytes lastAccessMs = { c with idle } := by
  unfold registerIdle
  dsimp only
  split
  · exact ⟨_, rfl⟩
  · exact ⟨_, rfl⟩

/-! ### Runs -/

/-- A call keeps the account exactly when it meets the condition. -/
theorem accounted_step_iff {c u : MemoryCeiling w} {a : CeilingCall w} (hstep : c.next a = some u)
    (h : Accounted c) : Accounted u ↔ KeepsAccount c a := by
  cases a with
  | tryAlloc bytes =>
    obtain rfl := Option.some.inj hstep
    exact tryAlloc_accounted_iff h
  | release bytes =>
    obtain rfl := Option.some.inj hstep
    exact iff_of_true (release_accounted h) trivial
  | registerIdle key sizeBytes lastAccessMs =>
    obtain rfl := Option.some.inj hstep
    obtain ⟨idle, heq⟩ := registerIdle_frame c key sizeBytes lastAccessMs
    rw [heq]
    exact iff_of_true h trivial
  | evictIdle =>
    obtain rfl := Option.some.inj hstep
    exact evictIdle_accounted_iff h

/-- A call repairs no counter exactly when it is no release of more than there is. -/
theorem clamped_step_iff {c u : MemoryCeiling w} {a : CeilingCall w} (hstep : c.next a = some u)
    (h : c.clamped = false) :
    u.clamped = false ↔ ∀ bytes, a = .release bytes → bytes.toNat ≤ c.currentBytes.toNat := by
  cases a with
  | tryAlloc bytes =>
    obtain rfl := Option.some.inj hstep
    rw [tryAlloc_clamped, h]
    simp
  | release bytes =>
    obtain rfl := Option.some.inj hstep
    rw [release_clamped h]
    simp
  | registerIdle key sizeBytes lastAccessMs =>
    obtain rfl := Option.some.inj hstep
    obtain ⟨idle, heq⟩ := registerIdle_frame c key sizeBytes lastAccessMs
    simp [heq, h]
  | evictIdle =>
    obtain rfl := Option.some.inj hstep
    rcases evictIdle_spec (c := c) with ⟨-, hsame⟩ | ⟨d, rest, -, hevicted⟩
    · simp [hsame, h]
    · simp [hevicted, h]

/-- In every run from every budget: the usage is within the budget and no addition and no eviction
has wrapped around, in all states, exactly when every call meets the condition. If the underflow
that `release` repairs is counted as well, the releases are covered in addition. -/
theorem accounted_iff {budget : BitVec w} {h : List (MemoryCeiling w × CeilingCall w)}
    {t : MemoryCeiling w} (hrun : Exec MemoryCeiling.next (.new budget) h t) :
    (Always Accounted h t ↔ Steps KeepsAccount h) ∧
      (Always AccountedStrictly h t ↔ Steps KeepsAccountStrictly h) := by
  have hstart : Accounted (.new budget) := by
    refine ⟨?_, rfl⟩
    show (0 : BitVec w).toNat ≤ budget.toNat
    simp
  constructor
  · exact hrun.always_iff (I := fun _ => True) (G := fun _ _ => True) (fun _ _ _ _ _ _ => trivial)
      trivial hstart (fun c a u hstep _ _ hacc => accounted_step_iff hstep hacc)
      (fun _ _ => trivial)
  · refine hrun.always_iff (I := fun _ => True) (G := fun _ _ => True)
      (fun _ _ _ _ _ _ => trivial) trivial ⟨hstart, rfl⟩ (fun c a u hstep _ _ hacc => ?_)
      (fun _ _ => trivial)
    exact and_congr (accounted_step_iff hstep hacc.1) (clamped_step_iff hstep hacc.2)

/-- A document is allocated, goes idle, and makes room for the next. -/
theorem accounted_iff_makes_room : ∃ h t,
    Exec MemoryCeiling.next (.new (10 : BitVec 64)) h t ∧
    h.map Prod.snd = [.tryAlloc 7, .registerIdle 1 7 100, .tryAlloc 5] ∧
    Always Accounted h t ∧ t.currentUsage = 5 := by
  have hrun : Exec MemoryCeiling.next (.new (10 : BitVec 64)) _ _ :=
    Exec.snoc (Exec.snoc (Exec.snoc .nil (a := .tryAlloc 7) rfl) (a := .registerIdle 1 7 100) rfl)
      (a := .tryAlloc 5) rfl
  refine ⟨_, _, hrun, rfl, (accounted_iff hrun).1.mpr ?_, by decide⟩
  intro p hp
  simp only [List.nil_append, List.cons_append, List.mem_cons, List.not_mem_nil, or_false] at hp
  rcases hp with rfl | rfl | rfl
  · exact ⟨by decide, covered_nil⟩
  · exact trivial
  · refine ⟨by decide, fun before d after hsorted _ => ?_⟩
    have hone : [(⟨1, 7, 100⟩ : IdleDoc 64)] = before ++ d :: after := hsorted
    cases before with
    | nil =>
      obtain ⟨rfl, -⟩ := List.cons.inj hone
      decide
    | cons first before => simp at hone

/-- A document goes idle with a larger size than was allocated for it, and its eviction leaves the
usage far over the budget. And an allocation of almost all memory passes the check. -/
theorem ceiling_wraps :
    (∃ h t, Exec MemoryCeiling.next (.new (10 : BitVec 64)) h t ∧
      h.map Prod.snd = [.tryAlloc 5, .registerIdle 1 7 100, .evictIdle] ∧
      t.currentUsage = 18446744073709551614 ∧ ¬ t.currentUsage ≤ t.budgetBytes) ∧
    ∃ h t, Exec MemoryCeiling.next (.new (10 : BitVec 64)) h t ∧
      h.map Prod.snd = [.tryAlloc 5] ∧
      (t.tryAlloc 18446744073709551615).1 = true ∧
      (t.tryAlloc 18446744073709551615).2.wrapped = true := by
  constructor
  · have hrun : Exec MemoryCeiling.next (.new (10 : BitVec 64)) _ _ :=
      Exec.snoc (Exec.snoc (Exec.snoc .nil (a := .tryAlloc 5) rfl)
        (a := .registerIdle 1 7 100) rfl) (a := .evictIdle) rfl
    exact ⟨_, _, hrun, rfl, by decide, by decide⟩
  · have hrun : Exec MemoryCeiling.next (.new (10 : BitVec 64)) _ _ :=
      Exec.snoc .nil (a := .tryAlloc 5) rfl
    exact ⟨_, _, hrun, rfl, by decide, by decide⟩

end GrafeoLoro.Proofs
