import GrafeoLoro.Fts.Search
import GrafeoLoro.Proofs.InvertedIndex

/-!
# `GrafeoLoro.Proofs.Search`: a search finds the matching documents

A term gives a score to the documents in its list, so the documents with a score are those in the
list of some term of the query. The lists hold the tokens of the latest texts, and these documents
are the matching ones. The sort and the cut keep what is theirs, whatever the scores are.

* `search_finds_matching`: after every run in which no counter wraps, a search returns matching
  documents only, each one once, and all of them where the limit allows it.
-/

set_option autoImplicit false

namespace GrafeoLoro.Proofs

open GrafeoLoro GrafeoLoro.Lib InvertedIndex

section
variable {idx : InvertedIndex} {R : String → UInt32 → Prop} {docs : HashMap UInt32 String}

/-- A document matches a query when it has one of its terms. -/
theorem mem_matching (docs : HashMap UInt32 String) (query : String) (d : UInt32) :
    d ∈ matching docs query ↔ ∃ t ∈ tokenize query, HasTerm docs t d := by
  unfold matching
  rw [Finset.mem_filter, Finmap.mem_keys, ← Finmap.lookup_isSome]
  cases htext : docs.lookup d with
  | none => simp [HasTerm, htext]
  | some text =>
    have hshares : (some text).any (fun text => SharesToken query text) = true ↔
        SharesToken query text := decide_eq_true_iff
    rw [hshares]
    simp [SharesToken, HasTerm, htext]

/-- One term gives a score to the documents in its list. -/
theorem mem_scoreTerm (h : TermTables idx R) (scores : HashMap UInt32 Float) (term : String)
    (d : UInt32) : d ∈ idx.scoreTerm scores term ↔ d ∈ scores ∨ R term d := by
  have hfreq := h.freq term
  rw [← h.mem term d, scoreTerm]
  cases hdf : idx.docFreq.lookup term with
  | none =>
    -- a term without a frequency has no list
    have hnone : idx.postings.lookup term = none := by simpa [hdf] using hfreq.symm
    simp [hnone]
  | some df =>
    cases hv : idx.postings.lookup term with
    | none => simp
    | some v => exact mem_foldl_insert _ v scores d

/-- The terms of a query give a score to the documents in their lists. -/
theorem mem_foldl_scoreTerm (h : TermTables idx R) (terms : List String)
    (scores : HashMap UInt32 Float) (d : UInt32) :
    d ∈ terms.foldl idx.scoreTerm scores ↔ d ∈ scores ∨ ∃ t ∈ terms, R t d := by
  induction terms generalizing scores with
  | nil => simp
  | cons term rest ih =>
    rw [List.foldl_cons, ih, mem_scoreTerm h]
    simp only [List.mem_cons, exists_eq_or_imp]
    tauto

/-- The documents with a score are the matching ones. -/
theorem keys_scores (h : Indexes idx docs) (query : String) :
    (((tokenize query).mergeSort (· ≤ ·)).destutter (· ≠ ·) |>.foldl idx.scoreTerm ∅).keys
      = matching docs query := by
  ext d
  rw [Finmap.mem_keys, mem_foldl_scoreTerm h.terms, mem_matching]
  simp [mem_destutter_ne, Finmap.notMem_empty]

/-- Where a search returns early, no document matches. -/
theorem matching_eq_empty (h : Indexes idx docs) {query : String}
    (hearly : ((tokenize query).isEmpty || idx.totalDocs == 0) = true) :
    matching docs query = ∅ := by
  rcases Bool.or_eq_true_iff.mp hearly with hempty | hnone
  · rw [Finset.eq_empty_iff_forall_notMem]
    intro d hd
    obtain ⟨t, ht, -⟩ := (mem_matching docs query d).mp hd
    rw [List.isEmpty_iff.mp hempty] at ht
    cases ht
  · have hcard : docs.keys.card = 0 := by
      rw [← h.total, beq_iff_eq.mp hnone]
      rfl
    rw [matching, Finset.card_eq_zero.mp hcard, Finset.filter_empty]

/-- A search cuts a list with one hit for each matching document. -/
theorem search_eq_take (h : Indexes idx docs) (scoresOrder : SetOrder UInt32) (query : String)
    (limit : Nat) :
    ∃ hits : List SearchHit, idx.search scoresOrder query limit = hits.take limit ∧
      (hits.map SearchHit.docId).Perm (scoresOrder.iter (matching docs query)) := by
  unfold InvertedIndex.search
  by_cases hearly : ((tokenize query).isEmpty || idx.totalDocs == 0) = true
  · refine ⟨[], ?_, ?_⟩
    · rw [if_pos hearly, List.take_nil]
    · have hnil : scoresOrder.iter (matching docs query) = [] := by
        rw [matching_eq_empty h hearly, List.eq_nil_iff_forall_not_mem]
        exact fun d hd => Finset.notMem_empty d ((scoresOrder.mem_iter ∅ d).mp hd)
      rw [hnil]
      rfl
  · rw [if_neg hearly]
    refine ⟨_, rfl, ?_⟩
    refine ((List.mergeSort_perm _ _).map _).trans ?_
    rw [List.map_map, keys_scores h]
    -- a hit carries the document that it was made from
    exact .of_eq (List.map_id _)

end

/-- After every run in which no counter wraps, a search with any limit and with any iteration order
of its scores returns as many hits as there are matching documents, or as the limit allows. The
hits are matching documents, each of them once. They are all of them, if the limit is no less than
their number. -/
theorem search_finds_matching {calls : List IndexCall} (hfit : CountersFit calls)
    (scoresOrder : SetOrder UInt32) (query : String) (limit : Nat) :
    ((InvertedIndex.run calls).search scoresOrder query limit).length
      = min limit (matching (assigned calls) query).card ∧
    (((InvertedIndex.run calls).search scoresOrder query limit).map SearchHit.docId).Nodup ∧
    (∀ hit ∈ (InvertedIndex.run calls).search scoresOrder query limit,
      hit.docId ∈ matching (assigned calls) query) ∧
    ((matching (assigned calls) query).card ≤ limit →
      ∀ d ∈ matching (assigned calls) query,
        d ∈ ((InvertedIndex.run calls).search scoresOrder query limit).map SearchHit.docId) := by
  obtain ⟨hits, hsearch, hperm⟩ := search_eq_take (indexes_run hfit) scoresOrder query limit
  rw [hsearch]
  have hmem : ∀ docId, docId ∈ hits.map SearchHit.docId ↔
      docId ∈ matching (assigned calls) query := fun docId =>
    hperm.mem_iff.trans (scoresOrder.mem_iter _ docId)
  have hnodup : (hits.map SearchHit.docId).Nodup := hperm.nodup_iff.mpr (scoresOrder.nodup _)
  have hlength : hits.length = (matching (assigned calls) query).card := by
    rw [← List.length_map SearchHit.docId, ← List.toFinset_card_of_nodup hnodup]
    congr 1
    ext docId
    rw [List.mem_toFinset, hmem]
  refine ⟨?length, ?nodup, ?sound, ?complete⟩
  case length => rw [List.length_take, hlength]
  case nodup =>
    rw [List.map_take]
    exact hnodup.sublist (List.take_sublist _ _)
  case sound =>
    intro hit hhit
    exact (hmem hit.docId).mp (List.mem_map_of_mem (List.mem_of_mem_take hhit))
  case complete =>
    intro hlimit docId hdoc
    -- the cut is behind the last hit
    rw [List.take_of_length_le (hlength ▸ hlimit)]
    exact (hmem docId).mpr hdoc

/-- The iteration order by document id. -/
def ascending : SetOrder UInt32 where
  iter s := s.sort (· ≤ ·)
  nodup s := Finset.sort_nodup s (· ≤ ·)
  mem_iter s _ := Finset.mem_sort (s := s) (· ≤ ·)

/-- Two documents of three have the token, one of them by its second text. A limit of one leaves
one of them. -/
theorem search_finds_matching_quick :
    let calls : List IndexCall := [.indexDoc 1 "the quick brown fox", .indexDoc 2 "lazy dogs",
      .indexDoc 3 "the lazy cat", .indexDoc 2 "Quick brown dogs"]
    ((InvertedIndex.run calls).search ascending "quick, QUICK!" 10).length = 2 ∧
    2 ∈ ((InvertedIndex.run calls).search ascending "quick, QUICK!" 10).map SearchHit.docId ∧
    ((InvertedIndex.run calls).search ascending "quick, QUICK!" 1).length = 1 := by
  intro calls
  have hfit : CountersFit calls := .of_length (by decide) (by
    simp only [calls, List.mem_cons, List.not_mem_nil, or_false]
    rintro call (rfl | rfl | rfl | rfl) docId text ⟨⟩ <;> decide +kernel)
  have hmatching : matching (assigned calls) "quick, QUICK!" = {1, 2} := by decide +kernel
  obtain ⟨hlength, -, -, hcomplete⟩ := search_finds_matching hfit ascending "quick, QUICK!" 10
  have hone := (search_finds_matching hfit ascending "quick, QUICK!" 1).1
  rw [hmatching] at hlength hcomplete hone
  exact ⟨hlength, hcomplete (by decide) 2 (by decide), hone⟩

end GrafeoLoro.Proofs
