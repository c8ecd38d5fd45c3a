import GrafeoLoro.Proofs.MemoryCeiling

/-!
# `GrafeoLoro.Proofs.TryAlloc`: what an allocation evicts

`try_alloc` evicts the idle documents one by one, the least recently used first, and stops as soon
as the allocation fits. Only when the documents are used up does it find out that it cannot fit.

* `tryAlloc_spec`: the evicted documents and the result of a call, in every state.
* `failed_alloc_unchanged_iff`: a call that fails leaves the idle documents and the usage alone
  exactly when there is nothing to evict. A call with documents to evict must succeed.
* `failed_alloc_evicts`: a request beyond the budget that evicts the only document.
* `tryAlloc_minimal`: a call that succeeds has evicted the shortest prefix that makes room.
-/

set_option autoImplicit false

namespace GrafeoLoro.Proofs

open GrafeoLoro MemoryCeiling

variable {w : Nat}

/-! ### The counter after some evictions -/

/-- The counter after the documents are subtracted from it, one by one. -/
def afterEvicting (current : BitVec w) : List (IdleDoc w) → BitVec w
  | [] => current
  | d :: rest => afterEvicting (current - d.sizeBytes) rest

/-- The check of `try_alloc_inner` passes once the documents are evicted. -/
def FitsAfter (c : MemoryCeiling w) (bytes : BitVec w) (evicted : List (IdleDoc w)) : Prop :=
  afterEvicting c.currentBytes evicted + bytes ≤ c.budgetBytes

/-- The documents are the shortest prefix that makes the allocation fit, as far as one does: no
shorter prefix is enough. -/
def NoneShorter (c : MemoryCeiling w) (bytes : BitVec w) (evicted : List (IdleDoc w)) : Prop :=
  ∀ before d after, evicted = before ++ d :: after → ¬ FitsAfter c bytes before

section
variable {c : MemoryCeiling w} {bytes freed : BitVec w} {d : IdleDoc w}
  {docs evicted : List (IdleDoc w)}

theorem noneShorter_nil : NoneShorter c bytes [] := by
  intro before d after heq
  simp at heq

theorem fitsAfter_cons {overflow overflow' : Bool} :
    FitsAfter c bytes (d :: evicted) ↔
      FitsAfter ((((c.note overflow).evict d.sizeBytes).note overflow')) bytes evicted :=
  Iff.rfl

/-- A document more at the front: the allocation did not fit without it. -/
theorem noneShorter_cons {overflow overflow' : Bool} (h : ¬ FitsAfter c bytes [])
    (hrest : NoneShorter (((c.note overflow).evict d.sizeBytes).note overflow') bytes evicted) :
    NoneShorter c bytes (d :: evicted) := by
  intro before d' after heq
  cases before with
  | nil => exact h
  | cons first before =>
    obtain ⟨rfl, hevicted⟩ : d = first ∧ evicted = before ++ d' :: after := by simpa using heq
    rw [fitsAfter_cons]
    exact hrest before d' after hevicted

theorem NoneShorter.take {n : Nat} (h : NoneShorter c bytes evicted) (hn : n < evicted.length) :
    ¬ FitsAfter c bytes (evicted.take n) := by
  refine h (evicted.take n) evicted[n] (evicted.drop (n + 1)) ?_
  rw [List.getElem_cons_drop, List.take_append_drop]

theorem idleBytes_append (docs docs' : List (IdleDoc w)) :
    idleBytes (docs ++ docs') = idleBytes docs + idleBytes docs' := by
  induction docs with
  | nil => simp [idleBytes]
  | cons d rest ih => simp only [List.cons_append, idleBytes, ih, Nat.add_assoc]

theorem idleBytes_perm {docs docs' : List (IdleDoc w)} (h : docs.Perm docs') :
    idleBytes docs = idleBytes docs' := by
  induction h with
  | nil => rfl
  | cons d _ ih => rw [idleBytes, idleBytes, ih]
  | swap d d' rest =>
    simp only [idleBytes]
    omega
  | trans _ _ ih ih' => exact ih.trans ih'

/-- Within the counter, the evictions subtract the sizes. -/
theorem afterEvicting_toNat {current : BitVec w} (h : idleBytes docs ≤ current.toNat) :
    (afterEvicting current docs).toNat = current.toNat - idleBytes docs := by
  induction docs generalizing current with
  | nil => rfl
  | cons d rest ih =>
    have hboth : d.sizeBytes.toNat + idleBytes rest ≤ current.toNat := h
    have hd : (current - d.sizeBytes).toNat = current.toNat - d.sizeBytes.toNat :=
      BitVec.toNat_sub_of_le (Nat.le_trans (Nat.le_add_right _ _) hboth)
    show (afterEvicting (current - d.sizeBytes) rest).toNat
      = current.toNat - (d.sizeBytes.toNat + idleBytes rest)
    rw [ih (by omega), hd]
    omega

/-- Without an overflow, the check compares the sizes as numbers. -/
theorem fitsAfter_iff (hevicted : idleBytes evicted ≤ c.currentUsage.toNat)
    (hfits : c.currentUsage.toNat + bytes.toNat < 2 ^ w) :
    FitsAfter c bytes evicted ↔
      c.currentUsage.toNat - idleBytes evicted + bytes.toNat ≤ c.budgetBytes.toNat := by
  have hleft : (afterEvicting c.currentBytes evicted).toNat
      = c.currentUsage.toNat - idleBytes evicted := afterEvicting_toNat hevicted
  rw [← hleft, ← BitVec.toNat_add_of_lt (by omega)]
  exact BitVec.le_def

/-! ### The loop -/

/-- The loop evicts a prefix of the documents. It stops where the allocation fits, or at the
end. -/
theorem evictLoop_evicts (bytes : BitVec w) (docs : List (IdleDoc w)) (freed : BitVec w)
    (c : MemoryCeiling w) :
    ∃ evicted rest, docs = evicted ++ rest ∧ NoneShorter c bytes evicted ∧
      (rest = [] ∨ FitsAfter c bytes evicted) ∧
      (evictLoop bytes docs freed c).2.idle = rest ∧
      (evictLoop bytes docs freed c).2.currentBytes = afterEvicting c.currentBytes evicted := by
  induction docs generalizing freed c with
  | nil => exact ⟨[], [], rfl, noneShorter_nil, .inl rfl, rfl, rfl⟩
  | cons d rest ih =>
    rw [evictLoop]
    by_cases hover : c.budgetBytes < c.currentUsage + bytes
    · simp only [if_pos hover]
      -- The check compares before each eviction, so the documents before are not enough.
      have hnot : ¬ FitsAfter c bytes [] := Nat.not_le.mpr hover
      obtain ⟨evicted, kept, hdocs, hnone, hstop, hidle, hcurrent⟩ := ih
        (freed + if c.currentBytes < d.sizeBytes then c.currentBytes else d.sizeBytes)
        (((c.note _).evict d.sizeBytes).note _)
      refine ⟨d :: evicted, kept, by rw [hdocs, List.cons_append], noneShorter_cons hnot hnone, ?_,
        hidle, hcurrent⟩
      exact hstop
    · simp only [if_neg hover]
      exact ⟨[], d :: rest, rfl, noneShorter_nil, .inr (BitVec.not_lt.mp hover), rfl, rfl⟩

/-- The check: it depends on the counter and the budget only. -/
theorem tryAllocInner_cases (c : MemoryCeiling w) (bytes : BitVec w) :
    (FitsAfter c bytes [] ∧ c.tryAllocInner bytes =
      (true, { c.note (c.currentUsage.uaddOverflow bytes) with
        currentBytes := c.currentBytes + bytes })) ∨
    (¬ FitsAfter c bytes [] ∧
      c.tryAllocInner bytes = (false, c.note (c.currentUsage.uaddOverflow bytes))) := by
  simp only [tryAllocInner, note_budgetBytes, note_currentBytes]
  by_cases hfits : c.currentUsage + bytes ≤ c.budgetBytes
  · exact .inl ⟨hfits, if_pos hfits⟩
  · exact .inr ⟨hfits, if_neg hfits⟩

theorem sortedIdle_perm (c : MemoryCeiling w) : c.sortedIdle.Perm c.idle :=
  List.perm_insertionSort _ _

/-- The idle documents are evicted in the order of their last accesses. -/
theorem sortedIdle_sorted (c : MemoryCeiling w) :
    c.sortedIdle.Pairwise fun d d' => d.lastAccessMs ≤ d'.lastAccessMs := by
  have : Std.Total fun d d' : IdleDoc w => d.lastAccessMs ≤ d'.lastAccessMs :=
    ⟨fun d d' => UInt64.le_total _ _⟩
  have : IsTrans (IdleDoc w) fun d d' => d.lastAccessMs ≤ d'.lastAccessMs :=
    ⟨fun _ _ _ => UInt64.le_trans⟩
  exact List.pairwise_insertionSort _ _

theorem evictToFit_budgetBytes : (c.evictToFit bytes).2.budgetBytes = c.budgetBytes := by
  unfold evictToFit
  split
  · rfl
  · exact evictLoop_frame.1

/-- `evict_to_fit` evicts a prefix of the idle documents in their order. -/
theorem evictToFit_evicts (bytes : BitVec w) (c : MemoryCeiling w) :
    ∃ evicted rest, c.sortedIdle = evicted ++ rest ∧ NoneShorter c bytes evicted ∧
      (rest = [] ∨ FitsAfter c bytes evicted) ∧ (c.evictToFit bytes).2.idle = rest ∧
      (c.evictToFit bytes).2.currentBytes = afterEvicting c.currentBytes evicted := by
  cases hempty : c.idle.isEmpty with
  | true =>
    have hidle : c.idle = [] := List.isEmpty_iff.mp hempty
    have hsorted : c.sortedIdle = [] := (hidle ▸ sortedIdle_perm c).eq_nil
    have hsame : (c.evictToFit bytes).2 = c := by simp [evictToFit, hempty]
    rw [hsame]
    exact ⟨[], [], hsorted, noneShorter_nil, .inl rfl, hidle, rfl⟩
  | false =>
    have hloop : c.evictToFit bytes = evictLoop bytes c.sortedIdle 0 c := by
      simp [evictToFit, hempty]
    rw [hloop]
    exact evictLoop_evicts bytes c.sortedIdle 0 c

/-! ### A call -/

/-- A call that succeeds has made room by the evictions, and it has evicted nothing if there was
room. A call that fails has evicted all documents. -/
theorem tryAlloc_spec (c : MemoryCeiling w) (bytes : BitVec w) :
    ∃ evicted rest, c.sortedIdle = evicted ++ rest ∧ NoneShorter c bytes evicted ∧
      ((FitsAfter c bytes evicted ∧ (c.tryAlloc bytes).1 = true ∧
        (c.tryAlloc bytes).2.currentUsage = afterEvicting c.currentBytes evicted + bytes ∧
        (c.tryAlloc bytes).2.idle = if evicted.isEmpty then c.idle else rest) ∨
      (¬ FitsAfter c bytes evicted ∧ rest = [] ∧ (c.tryAlloc bytes).1 = false ∧
        (c.tryAlloc bytes).2.currentUsage = afterEvicting c.currentBytes evicted ∧
        (c.tryAlloc bytes).2.idle = [])) := by
  rcases tryAllocInner_cases c bytes with ⟨hfits, hinner⟩ | ⟨hnot, hinner⟩
  · have halloc : c.tryAlloc bytes = (true, (c.tryAllocInner bytes).2) := by
      rw [tryAlloc, hinner]
    rw [halloc, hinner]
    exact ⟨[], c.sortedIdle, rfl, noneShorter_nil, .inl ⟨hfits, rfl, rfl, rfl⟩⟩
  · have halloc : c.tryAlloc bytes =
        ((c.note (c.currentUsage.uaddOverflow bytes)).evictToFit bytes).2.tryAllocInner bytes := by
      rw [tryAlloc, hinner]
    rw [halloc]
    obtain ⟨evicted, rest, hsorted, hnone, hstop, hidle, hcurrent⟩ :=
      evictToFit_evicts bytes (c.note (c.currentUsage.uaddOverflow bytes))
    -- the second check sees the counter after the evictions
    have hagain : FitsAfter ((c.note (c.currentUsage.uaddOverflow bytes)).evictToFit bytes).2
        bytes [] ↔ FitsAfter c bytes evicted := by
      simp only [FitsAfter, afterEvicting, hcurrent, evictToFit_budgetBytes]
      exact Iff.rfl
    refine ⟨evicted, rest, hsorted, hnone, ?_⟩
    rcases tryAllocInner_cases ((c.note (c.currentUsage.uaddOverflow bytes)).evictToFit bytes).2
      bytes with ⟨hfits, hresult⟩ | ⟨hover, hresult⟩
    · -- something was evicted, because there was no room at first
      have hsome : evicted.isEmpty = false := by
        cases evicted with
        | nil => exact absurd (hagain.mp hfits) hnot
        | cons d evicted => rfl
      rw [hresult, hsome]
      refine .inl ⟨hagain.mp hfits, rfl, ?_, hidle⟩
      show _ + bytes = _
      rw [hcurrent]
      rfl
    · have hall : rest = [] := hstop.resolve_right fun hfits => hover (hagain.mpr hfits)
      rw [hresult]
      exact .inr ⟨fun hfits => hover (hagain.mpr hfits), hall, rfl, hcurrent, hidle.trans hall⟩

/-- A call that fails leaves the usage and the idle documents alone exactly when there are none, or
when the call does not fail: it succeeds as soon as it fits after the eviction of some number of
documents. -/
theorem failed_alloc_unchanged_iff (c : MemoryCeiling w) (bytes : BitVec w) :
    ((c.tryAlloc bytes).1 = false →
      (c.tryAlloc bytes).2.currentUsage = c.currentUsage ∧ (c.tryAlloc bytes).2.idle = c.idle) ↔
    c.idle = [] ∨ ∃ n, afterEvicting c.currentBytes (c.sortedIdle.take n) + bytes
      ≤ c.budgetBytes := by
  obtain ⟨evicted, rest, hsorted, hnone, hresult⟩ := tryAlloc_spec c bytes
  rcases hresult with ⟨hfits, htrue, -, -⟩ | ⟨hnot, hall, hfalse, hcurrent, hidle⟩
  · -- the call succeeds
    refine iff_of_true (fun hfalse => ?_) (.inr ⟨evicted.length, ?_⟩)
    · rw [htrue] at hfalse
      cases hfalse
    · rw [hsorted, List.take_left]
      exact hfits
  · -- the call fails, and all documents are evicted
    obtain rfl : c.sortedIdle = evicted := by rw [hsorted, hall, List.append_nil]
    rw [hfalse, hcurrent, hidle]
    constructor
    · intro hsame
      exact .inl (hsame rfl).2.symm
    · rintro (hempty | ⟨n, hfits⟩) -
      · have hnil : c.sortedIdle = [] := (hempty ▸ sortedIdle_perm c).eq_nil
        rw [hnil, hempty]
        exact ⟨rfl, rfl⟩
      · refine absurd hfits ?_
        rcases Nat.lt_or_ge n c.sortedIdle.length with hn | hn
        · exact hnone.take hn
        · rw [List.take_of_length_le hn]
          exact hnot

/-- A request beyond the budget fails, and it has evicted the idle document. -/
theorem failed_alloc_evicts : ∃ c : MemoryCeiling 64,
    c = (((MemoryCeiling.new 1000).tryAlloc 500).2.registerIdle 99 500 1000) ∧
    c.currentUsage = 500 ∧ c.idle = [⟨99, 500, 1000⟩] ∧ (c.tryAlloc 1100).1 = false ∧
    (c.tryAlloc 1100).2.currentUsage = 0 ∧ (c.tryAlloc 1100).2.idle = [] :=
  ⟨_, rfl, by decide, by decide, by decide, by decide, by decide⟩

/-- Under an account without overflow, a call succeeds exactly when there is room once all
documents are evicted. It has then evicted the shortest prefix that makes room. -/
theorem tryAlloc_minimal (c : MemoryCeiling w) (bytes : BitVec w)
    (hidle : idleBytes c.idle ≤ c.currentUsage.toNat)
    (hfits : c.currentUsage.toNat + bytes.toNat < 2 ^ w) :
    ((c.tryAlloc bytes).1 = true ↔
      c.currentUsage.toNat - idleBytes c.idle + bytes.toNat ≤ c.budgetBytes.toNat) ∧
    ((c.tryAlloc bytes).1 = true → ∃ evicted rest,
      (evicted ++ rest).Perm c.idle ∧
      (evicted ++ rest).Pairwise (fun d d' => d.lastAccessMs ≤ d'.lastAccessMs) ∧
      (c.currentUsage.toNat - idleBytes evicted + bytes.toNat ≤ c.budgetBytes.toNat ∧
        ∀ n < evicted.length, c.budgetBytes.toNat
          < c.currentUsage.toNat - idleBytes (evicted.take n) + bytes.toNat) ∧
      (c.tryAlloc bytes).2.idle = (if evicted.isEmpty then c.idle else rest) ∧
      (c.tryAlloc bytes).2.currentUsage.toNat
        = c.currentUsage.toNat - idleBytes evicted + bytes.toNat) := by
  obtain ⟨evicted, rest, hsorted, hnone, hresult⟩ := tryAlloc_spec c bytes
  have hbytes : idleBytes evicted + idleBytes rest = idleBytes c.idle := by
    rw [← idleBytes_append, ← hsorted, idleBytes_perm (sortedIdle_perm c)]
  have hevicted : idleBytes evicted ≤ c.currentUsage.toNat := by omega
  have hiff := fitsAfter_iff hevicted hfits
  rcases hresult with ⟨hroom, htrue, hcurrent, hrest⟩ | ⟨hnot, hall, hfalse, -, -⟩
  · have hnat := hiff.mp hroom
    refine ⟨iff_of_true htrue (by omega), fun _ => ⟨evicted, rest, hsorted ▸ sortedIdle_perm c,
      hsorted ▸ sortedIdle_sorted c, ⟨hnat, fun n hn => ?_⟩, hrest, ?_⟩⟩
    · -- a shorter prefix is within the counter as well
      have hpart : idleBytes (evicted.take n) + idleBytes (evicted.drop n) = idleBytes evicted := by
        rw [← idleBytes_append, List.take_append_drop]
      have hshort := hnone.take hn
      rw [fitsAfter_iff (by omega) hfits] at hshort
      exact Nat.lt_of_not_le hshort
    · have hleft : (afterEvicting c.currentBytes evicted).toNat
          = c.currentUsage.toNat - idleBytes evicted :=
        afterEvicting_toNat (show idleBytes evicted ≤ c.currentUsage.toNat by omega)
      rw [hcurrent, BitVec.toNat_add_of_lt (by omega), hleft]
  · -- no room even without the documents
    have hnone : idleBytes rest = 0 := by rw [hall, idleBytes]
    rw [hfalse]
    refine ⟨iff_of_false (by simp) fun hroom => hnot (hiff.mpr (by omega)), by simp⟩

/-- Two of three documents make room, the least recently used one of size zero. -/
theorem tryAlloc_minimal_evicts_two : ∃ c : MemoryCeiling 64,
    c.currentUsage = 9 ∧ c.budgetBytes = 10 ∧
      c.idle = [⟨1, 2, 300⟩, ⟨2, 3, 200⟩, ⟨3, 0, 100⟩] ∧
      (c.tryAlloc 4).1 = true ∧ (c.tryAlloc 4).2.idle = [⟨1, 2, 300⟩] ∧
      c.currentUsage.toNat - idleBytes c.idle + 4 ≤ c.budgetBytes.toNat := by
  refine ⟨⟨10, 9, [⟨1, 2, 300⟩, ⟨2, 3, 200⟩, ⟨3, 0, 100⟩], false, false⟩, rfl, rfl, rfl,
    by decide, by decide, ?_⟩
  exact (tryAlloc_minimal ⟨10, 9, [⟨1, 2, 300⟩, ⟨2, 3, 200⟩, ⟨3, 0, 100⟩], false, false⟩ 4
    (by decide) (by decide)).1.mp (by decide)

end

end GrafeoLoro.Proofs
