import GrafeoLoro.Proofs.Bijection

/-!
# `GrafeoLoro.Proofs.BijectionDrift`: what an error of the runtime check says

`validate_text_bijection` accepts exactly the mutually inverse maps. When it finds an id that goes
back to another key, it reports that both keys are bound to the id, without a look at the binding
of the other key.

* `diagnosis_exact_iff`: the check is exact and its errors are true, in every order of iteration,
  exactly when every such key is bound to the id.
* `insertNode_drift_misdiagnosed`: three `insert_node` calls after which the check reports a
  duplicate id, although the ids of the two keys are different.
-/

set_option autoImplicit false

namespace GrafeoLoro.Proofs

open GrafeoLoro GrafeoLoro.Lib

/-- What an error says about the two maps. -/
def TrueOf (forward : HashMap String NodeId) (inverse : HashMap NodeId String) :
    BijectionError → Prop
  | .missingInverse loroKey id =>
    forward.lookup loroKey = some id ∧ inverse.lookup id = none
  | .missingForward loroKey id =>
    inverse.lookup id = some loroKey ∧ forward.lookup loroKey = none
  | .duplicateId id keyA keyB =>
    keyA ≠ keyB ∧ forward.lookup keyA = some id ∧ forward.lookup keyB = some id
  | .duplicateKey loroKey idA idB =>
    idA ≠ idB ∧ inverse.lookup idA = some loroKey ∧ inverse.lookup idB = some loroKey

section
variable {forward : HashMap String NodeId} {inverse : HashMap NodeId String} {e : BijectionError}

/-- An error of check 1 is about an entry of the list: its id is unbound, or goes back to another
key. -/
theorem checkForward_error {entries : List (Σ _ : String, NodeId)}
    (h : checkForward inverse entries = .error e) :
    ∃ loroKey id, ⟨loroKey, id⟩ ∈ entries ∧
      ((inverse.lookup id = none ∧ e = .missingInverse loroKey id) ∨
        ∃ invKey, inverse.lookup id = some invKey ∧ invKey ≠ loroKey ∧
          e = .duplicateId id loroKey invKey) := by
  induction entries with
  | nil => cases h
  | cons entry rest ih =>
    rw [checkForward] at h
    cases hid : inverse.lookup entry.2 with
    | none =>
      rw [hid] at h
      cases h
      exact ⟨entry.1, entry.2, List.mem_cons_self, .inl ⟨hid, rfl⟩⟩
    | some invKey =>
      simp only [hid] at h
      by_cases hkey : invKey = entry.1
      · -- the entry is fine, and the error is about a later one
        rw [if_pos hkey] at h
        obtain ⟨loroKey, id, hmem, herror⟩ := ih h
        exact ⟨loroKey, id, List.mem_cons_of_mem _ hmem, herror⟩
      · rw [if_neg hkey] at h
        cases h
        exact ⟨entry.1, entry.2, List.mem_cons_self, .inr ⟨invKey, hid, hkey, rfl⟩⟩

/-- An error of check 2 is about an entry of the list: its key is unbound, or goes to another
id. -/
theorem checkInverse_error {entries : List (Σ _ : NodeId, String)}
    (h : checkInverse forward entries = .error e) :
    ∃ id loroKey, ⟨id, loroKey⟩ ∈ entries ∧
      ((forward.lookup loroKey = none ∧ e = .missingForward loroKey id) ∨
        ∃ fwdId, forward.lookup loroKey = some fwdId ∧ fwdId ≠ id ∧
          e = .duplicateKey loroKey id fwdId) := by
  induction entries with
  | nil => cases h
  | cons entry rest ih =>
    rw [checkInverse] at h
    cases hkey : forward.lookup entry.2 with
    | none =>
      rw [hkey] at h
      cases h
      exact ⟨entry.1, entry.2, List.mem_cons_self, .inl ⟨hkey, rfl⟩⟩
    | some fwdId =>
      simp only [hkey] at h
      by_cases hid : fwdId = entry.1
      · rw [if_pos hid] at h
        obtain ⟨id, loroKey, hmem, herror⟩ := ih h
        exact ⟨id, loroKey, List.mem_cons_of_mem _ hmem, herror⟩
      · rw [if_neg hid] at h
        cases h
        exact ⟨entry.1, entry.2, List.mem_cons_self, .inr ⟨fwdId, hkey, hid, rfl⟩⟩

end

/-- The check accepts exactly the mutually inverse maps and every error it reports is true, in
every order of iteration. -/
def DiagnosisExact (forward : HashMap String NodeId) (inverse : HashMap NodeId String) : Prop :=
  ∀ (f : Table String NodeId) (g : Table NodeId String), f.toFinmap = forward →
    g.toFinmap = inverse →
    (validateTextBijection f g = .ok () ↔ MutualInverse forward inverse) ∧
      ∀ e, validateTextBijection f g = .error e → TrueOf forward inverse e

/-- The diagnosis is exact exactly when a key that an id goes back to, from an entry of another
key, is bound to the id as well. -/
theorem diagnosis_exact_iff (forward : HashMap String NodeId) (inverse : HashMap NodeId String) :
    DiagnosisExact forward inverse ↔
      ∀ loroKey id invKey, forward.lookup loroKey = some id → inverse.lookup id = some invKey →
        invKey ≠ loroKey → forward.lookup invKey = some id := by
  constructor
  · -- such an entry may come first, and then it is reported
    intro hexact loroKey id invKey hkey hid hne
    obtain ⟨f, rest, hf, hentries⟩ := exists_order_head hkey
    induction inverse using Finmap.induction_on with | _ g =>
    -- Check 1 compares the key only, and names both keys without a look at the other one.
    have herror : validateTextBijection f g = .error (.duplicateId id loroKey invKey) := by
      simp only [validateTextBijection, hentries, checkForward, hid, if_neg hne]
    exact ((hexact f g hf rfl).2 _ herror).2.2
  · rintro hbound f g rfl rfl
    refine ⟨validateTextBijection_ok_iff f g, fun e herror => ?_⟩
    rw [validateTextBijection] at herror
    cases hforward : checkForward g.toFinmap f.entries with
    | error e' =>
      rw [hforward] at herror
      cases herror
      obtain ⟨loroKey, id, hmem, hcase⟩ := checkForward_error hforward
      have hkey : f.toFinmap.lookup loroKey = some id := AList.mem_lookup_iff.mpr hmem
      rcases hcase with ⟨hnone, rfl⟩ | ⟨invKey, hid, hne, rfl⟩
      · exact ⟨hkey, hnone⟩
      · exact ⟨hne.symm, hkey, hbound loroKey id invKey hkey hid hne⟩
    | ok u =>
      rw [hforward] at herror
      obtain ⟨id, loroKey, hmem, hcase⟩ := checkInverse_error herror
      have hid : g.toFinmap.lookup id = some loroKey := AList.mem_lookup_iff.mpr hmem
      rcases hcase with ⟨hnone, rfl⟩ | ⟨fwdId, hkey, hne, rfl⟩
      · exact ⟨hid, hnone⟩
      · -- check 1 has passed for the entry of the key
        have hback := (checkForward_ok_iff _ _).mp hforward ⟨loroKey, fwdId⟩
          (AList.mem_lookup_iff.mp hkey)
        exact ⟨hne.symm, hid, hback⟩

/-- The second key is bound to the first id and then to a second one. The check reports that both
keys are bound to the first id, in every order of iteration. -/
theorem insertNode_drift_misdiagnosed :
    let maps := ((BridgeMaps.new.insertNode "k1" 1).insertNode "k2" 1).insertNode "k2" 2
    (∀ (f : Table String NodeId) (g : Table NodeId String), f.toFinmap = maps.nodeIdMap →
      g.toFinmap = maps.nodeKeyMap →
      validateTextBijection f g = .error (.duplicateId 1 "k1" "k2")) ∧
    maps.nodeIdMap.lookup "k2" = some 2 ∧
    ¬ DiagnosisExact maps.nodeIdMap maps.nodeKeyMap := by
  intro maps
  have hk2 : maps.nodeIdMap.lookup "k2" = some 2 := by decide +kernel
  have hk1 : maps.nodeIdMap.lookup "k1" = some 1 := by decide +kernel
  have h1 : maps.nodeKeyMap.lookup 1 = some "k2" := by decide +kernel
  have h2 : maps.nodeKeyMap.lookup 2 = some "k2" := by decide +kernel
  have hkeys : ∀ loroKey id, maps.nodeIdMap.lookup loroKey = some id →
      loroKey = "k1" ∧ id = 1 ∨ loroKey = "k2" ∧ id = 2 := by
    intro loroKey id hkey
    simp only [maps, BridgeMaps.insertNode, BridgeMaps.new, finmap_lookup_insert,
      Finmap.lookup_empty] at hkey
    split at hkey
    · rename_i heq
      exact .inr ⟨heq, (Option.some.inj hkey).symm⟩
    · split at hkey
      · rename_i heq
        exact .inl ⟨heq, (Option.some.inj hkey).symm⟩
      · cases hkey
  have hreport : ∀ (f : Table String NodeId) (g : Table NodeId String),
      f.toFinmap = maps.nodeIdMap → g.toFinmap = maps.nodeKeyMap →
      validateTextBijection f g = .error (.duplicateId 1 "k1" "k2") := by
    intro f g hf hg
    cases hcheck : checkForward g.toFinmap f.entries with
    | ok u =>
      -- the entry of the first key is not fine
      rw [← hf] at hk1
      have hback := (checkForward_ok_iff _ _).mp hcheck ⟨"k1", 1⟩ (AList.mem_lookup_iff.mp hk1)
      rw [hg, h1] at hback
      simp at hback
    | error e =>
      obtain ⟨loroKey, id, hmem, hcase⟩ := checkForward_error hcheck
      have hkey : f.toFinmap.lookup loroKey = some id := AList.mem_lookup_iff.mpr hmem
      rw [hf] at hkey
      rw [hg] at hcase
      rw [validateTextBijection, hcheck]
      rcases hkeys loroKey id hkey with ⟨rfl, rfl⟩ | ⟨rfl, rfl⟩
      · simp only [h1, reduceCtorEq, false_and, Option.some.injEq, exists_eq_left', false_or]
          at hcase
        rw [hcase.2]
      · simp [h2] at hcase
  refine ⟨hreport, hk2, fun hexact => ?_⟩
  obtain ⟨f, -, hf, -⟩ := exists_order_head hk1
  obtain ⟨g, -, hg, -⟩ := exists_order_head h1
  have htrue := ((hexact f g hf hg).2 _ (hreport f g hf hg)).2.2
  rw [hk2] at htrue
  simp at htrue

end GrafeoLoro.Proofs
