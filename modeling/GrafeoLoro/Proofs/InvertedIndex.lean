import GrafeoLoro.Fts.InvertedIndex
import GrafeoLoro.Lib.Maps

/-!
# `GrafeoLoro.Proofs.InvertedIndex`: the index is a function of the latest texts

`TermTables idx R` says that the two tables by term hold the relation `R` between terms and
documents. Entering a document under its terms adds its pairs to the relation, and a removal takes
them away. `Indexes idx docs` says the same of the whole index and the latest texts.

* `Indexes.indexDoc`, `Indexes.removeDoc`: the two calls give a document a text and take it away.
* `indexes_run`: in every run in which no counter wraps, the index is that of the latest texts.
* `Indexes.unique`: and the texts determine the index.
* `invertedIndex_represents`: so the tables hold the tokens of the latest texts, whatever the order
  of the calls was.
-/

set_option autoImplicit false

namespace GrafeoLoro.Proofs

open GrafeoLoro GrafeoLoro.Lib InvertedIndex

/-- The postings and the document frequencies hold the relation `R`. -/
structure TermTables (idx : InvertedIndex) (R : String → UInt32 → Prop) : Prop where
  sorted : ∀ t v, idx.postings.lookup t = some v → v.Pairwise (· < ·)
  nonempty : ∀ t v, idx.postings.lookup t = some v → v ≠ []
  mem : ∀ t d, d ∈ (idx.postings.lookup t).getD [] ↔ R t d
  freq : ∀ t, (idx.docFreq.lookup t).map UInt32.toNat = (idx.postings.lookup t).map List.length

section
variable {idx : InvertedIndex} {R : String → UInt32 → Prop} {docId : UInt32} {term : String}

/-- The list of a term, also where there is none, is strictly increasing. -/
theorem TermTables.sorted_getD (h : TermTables idx R) (t : String) :
    ((idx.postings.lookup t).getD []).Pairwise (· < ·) := by
  cases hv : idx.postings.lookup t with
  | none => simp
  | some v => exact h.sorted t v hv

theorem TermTables.not_mem (h : TermTables idx R) (hnew : ¬ R term docId) :
    docId ∉ (idx.postings.lookup term).getD [] :=
  fun hd => hnew ((h.mem term docId).mp hd)

/-- The frequency of a term is the length of its list, also where there is none. -/
theorem TermTables.freq_getD (h : TermTables idx R) (t : String) :
    ((idx.docFreq.lookup t).getD 0).toNat = ((idx.postings.lookup t).getD []).length := by
  have hfreq := h.freq t
  cases hdf : idx.docFreq.lookup t with
  | none =>
    rw [hdf] at hfreq
    have hnone : idx.postings.lookup t = none := by simpa using hfreq.symm
    rw [hnone]
    rfl
  | some df =>
    rw [hdf] at hfreq
    obtain ⟨v, hv, hlen⟩ := Option.map_eq_some_iff.mp hfreq.symm
    rw [hv]
    exact hlen.symm

/-! ### One term -/

/-- A document that is not under the term goes to its place in the list. -/
theorem addTerm_eq (h : TermTables idx R) (hnew : ¬ R term docId) :
    addTerm docId idx term =
      { idx with
        postings := idx.postings.insert term
          (((idx.postings.lookup term).getD []).insertIdx
            (rank ((idx.postings.lookup term).getD []) docId) docId)
        docFreq := idx.docFreq.insert term ((idx.docFreq.lookup term).getD 0 + 1) } := by
  have hs := h.sorted_getD term
  have hnot : docId ∉ (idx.postings.lookup term).getD [] := h.not_mem hnew
  have hpos : ((idx.postings.lookup term).getD [])[
      rank ((idx.postings.lookup term).getD []) docId]? ≠ some docId :=
    fun hget => hnot ((getElem?_rank hs docId).mp hget)
  simp only [addTerm, binarySearch_of_not_mem hs hnot]
  rw [if_pos (Or.inr hpos)]

/-- Entering a document under a new term adds the pair. -/
theorem TermTables.add (h : TermTables idx R) (hnew : ¬ R term docId)
    (hroom : ((idx.postings.lookup term).getD []).length + 1 < 2 ^ 32) :
    TermTables (addTerm docId idx term) fun t d => R t d ∨ (t = term ∧ d = docId) := by
  have hs := h.sorted_getD term
  have hnot : docId ∉ (idx.postings.lookup term).getD [] := h.not_mem hnew
  rw [addTerm_eq h hnew]
  refine ⟨fun t v hv => ?_, fun t v hv => ?_, fun t d => ?_, fun t => ?_⟩
  · rw [finmap_lookup_insert] at hv
    split at hv
    · cases hv
      exact pairwise_insertIdx_rank hs hnot
    · exact h.sorted t v hv
  · rw [finmap_lookup_insert] at hv
    split at hv
    · cases hv
      exact List.ne_nil_of_mem ((mem_insertIdx_rank _ docId docId).mpr (Or.inl rfl))
    · exact h.nonempty t v hv
  · rw [finmap_lookup_insert]
    split
    · rename_i heq
      rw [Option.getD_some, mem_insertIdx_rank, h.mem, heq]
      tauto
    · rename_i hne
      rw [h.mem]
      tauto
  · rw [finmap_lookup_insert, finmap_lookup_insert]
    split
    · -- the counter has room for one more
      have hadd : ((idx.docFreq.lookup term).getD 0 + 1).toNat
          = ((idx.postings.lookup term).getD []).length + 1 := by
        rw [UInt32.toNat_add, h.freq_getD, UInt32.toNat_one, Nat.mod_eq_of_lt hroom]
      rw [Option.map_some, Option.map_some, hadd,
        List.length_insertIdx_of_le_length (rank_le_length _ _)]
    · exact h.freq t

/-- The postings after a removal: a list that becomes empty goes. -/
theorem lookup_dropPosting {postings : HashMap String (List UInt32)} {v : List UInt32}
    (hv : postings.lookup term = some v) (hs : v.Pairwise (· < ·)) (hd : docId ∈ v) (t : String) :
    (dropPosting docId term postings).lookup t =
      if t = term then some (v.eraseIdx (rank v docId)) |>.filter (!·.isEmpty)
      else postings.lookup t := by
  simp only [dropPosting, hv, binarySearch_of_mem hs hd]
  split
  · rename_i hempty
    simp [Option.filter_some, hempty]
  · rename_i hleft
    simp [Option.filter_some, hleft]

/-- The frequencies after a removal: a count that becomes zero goes. -/
theorem lookup_dropFreq {docFreq : HashMap String UInt32} {df : UInt32}
    (hdf : docFreq.lookup term = some df) (hpos : 0 < df.toNat) (t : String) :
    (dropFreq term docFreq).lookup t =
      if t = term then some (df - 1) |>.filter (· ≠ 0) else docFreq.lookup t := by
  have hlt : 0 < df := UInt32.lt_iff_toNat_lt.mpr hpos
  simp only [dropFreq, hdf, if_pos hlt]
  split
  · rename_i hzero
    simp [Option.filter_some, hzero]
  · rename_i hleft
    simp [Option.filter_some, hleft]

/-- A counter that is not zero goes down by one. -/
theorem toNat_sub_one {df : UInt32} (h : 0 < df.toNat) : (df - 1).toNat = df.toNat - 1 := by
  have hle : (1 : UInt32) ≤ df := by
    rw [UInt32.le_iff_toNat_le, UInt32.toNat_one]
    omega
  rw [UInt32.toNat_sub_of_le _ _ hle, UInt32.toNat_one]

/-- A list without the document and its count go at the same time. -/
theorem map_dropped {v : List UInt32} {df : UInt32} (hs : v.Pairwise (· < ·)) (hd : docId ∈ v)
    (hlen : df.toNat = v.length) :
    (some (df - 1) |>.filter (· ≠ 0)).map UInt32.toNat =
      (some (v.eraseIdx (rank v docId)) |>.filter (!·.isEmpty)).map List.length := by
  have hpos : 0 < df.toNat := hlen ▸ List.length_pos_of_mem hd
  have hleft : (df - 1).toNat = (v.eraseIdx (rank v docId)).length := by
    rw [toNat_sub_one hpos, hlen, List.length_eraseIdx_of_lt (rank_lt_length hs hd)]
  have hzero : df - 1 = 0 ↔ v.eraseIdx (rank v docId) = [] := by
    rw [← UInt32.toNat_inj, hleft, UInt32.toNat_zero, List.length_eq_zero_iff]
  rw [Option.filter_some, Option.filter_some]
  by_cases hempty : v.eraseIdx (rank v docId) = []
  · simp [hempty, hzero.mpr hempty]
  · simp [hempty, mt hzero.mp hempty, hleft]

/-- A list that is kept only when it is not empty has the members it had. -/
theorem mem_getD_filter (v : List UInt32) (d : UInt32) :
    d ∈ (some v |>.filter (!·.isEmpty)).getD [] ↔ d ∈ v := by
  cases v with
  | nil => simp [Option.filter_some]
  | cons a v => simp [Option.filter_some]

/-- A term with a document has a list and a count. -/
theorem TermTables.lookup_of_rel (h : TermTables idx R) (hold : R term docId) :
    ∃ v df, idx.postings.lookup term = some v ∧ docId ∈ v ∧
      idx.docFreq.lookup term = some df ∧ df.toNat = v.length := by
  have hmem := (h.mem term docId).mpr hold
  have hfreq := h.freq term
  cases hv : idx.postings.lookup term with
  | none =>
    rw [hv] at hmem
    cases hmem
  | some v =>
    rw [hv] at hmem hfreq
    obtain ⟨df, hdf, hlen⟩ := Option.map_eq_some_iff.mp hfreq
    exact ⟨v, df, rfl, hmem, hdf, hlen⟩

/-- Taking a document out from under its term takes the pair away. -/
theorem TermTables.drop (h : TermTables idx R) (hold : R term docId) :
    TermTables (dropTerm docId idx term) fun t d => R t d ∧ ¬ (t = term ∧ d = docId) := by
  obtain ⟨v, df, hv, hd, hdf, hlen⟩ := h.lookup_of_rel hold
  have hs := h.sorted term v hv
  have hpost := lookup_dropPosting hv hs hd
  have hcount := lookup_dropFreq hdf (hlen ▸ List.length_pos_of_mem hd)
  refine ⟨fun t w hw => ?_, fun t w hw => ?_, fun t d => ?_, fun t => ?_⟩
  · rw [dropTerm, hpost] at hw
    split at hw
    · obtain ⟨rfl, -⟩ := by simpa using hw
      exact pairwise_eraseIdx hs _
    · exact h.sorted t w hw
  · rw [dropTerm, hpost] at hw
    split at hw
    · obtain ⟨rfl, hne⟩ := by simpa using hw
      exact hne
    · exact h.nonempty t w hw
  · have hmem := h.mem t d
    rw [dropTerm, hpost]
    split
    · rename_i heq
      subst heq
      rw [hv, Option.getD_some] at hmem
      rw [mem_getD_filter, mem_eraseIdx_rank hs hd, ← hmem]
      tauto
    · rename_i hne
      rw [hmem]
      tauto
  · rw [dropTerm, hcount, hpost]
    split
    · exact map_dropped hs hd hlen
    · exact h.freq t

/-! ### All terms of a document -/

/-- The two tables decide, and the relation may be written otherwise. -/
theorem TermTables.congr {idx' : InvertedIndex} {R' : String → UInt32 → Prop}
    (h : TermTables idx R) (hp : idx'.postings = idx.postings) (hf : idx'.docFreq = idx.docFreq)
    (hR : ∀ t d, R t d ↔ R' t d) : TermTables idx' R' := by
  refine ⟨fun t v => ?_, fun t v => ?_, fun t d => ?_, fun t => ?_⟩
  · rw [hp]
    exact h.sorted t v
  · rw [hp]
    exact h.nonempty t v
  · rw [hp, h.mem, hR]
  · rw [hp, hf]
    exact h.freq t

/-- The loop of `index_doc`: the document is entered under each of its terms. -/
theorem TermTables.addAll {terms : List String} (hterms : terms.Nodup) (h : TermTables idx R)
    (hnew : ∀ t ∈ terms, ¬ R t docId)
    (hroom : ∀ t ∈ terms, ((idx.postings.lookup t).getD []).length + 1 < 2 ^ 32) :
    TermTables (terms.foldl (addTerm docId) idx) fun t d => R t d ∨ (t ∈ terms ∧ d = docId) := by
  induction terms generalizing idx R with
  | nil => exact h.congr rfl rfl fun t d => by simp
  | cons term rest ih =>
    obtain ⟨hnot, hrest⟩ := List.nodup_cons.mp hterms
    have hnew₁ : ¬ R term docId := hnew term (by simp)
    have hstep := h.add hnew₁ (hroom term (by simp))
    -- the other terms have the lists they had
    have hne : ∀ t ∈ rest, t ≠ term := fun t ht heq => hnot (heq ▸ ht)
    have hnew' : ∀ t ∈ rest, ¬ (R t docId ∨ (t = term ∧ docId = docId)) := by
      intro t ht
      have := hnew t (by simp [ht])
      have := hne t ht
      tauto
    have hroom' : ∀ t ∈ rest,
        (((addTerm docId idx term).postings.lookup t).getD []).length + 1
          < 2 ^ 32 := by
      intro t ht
      rw [addTerm_eq h hnew₁, finmap_lookup_insert, if_neg (hne t ht)]
      exact hroom t (by simp [ht])
    refine (ih hrest hstep hnew' hroom').congr rfl rfl fun t d => ?_
    rw [List.mem_cons]
    tauto

/-- The loop of `remove_doc`: the document is taken out from under each of its terms. -/
theorem TermTables.dropAll {terms : List String} (hterms : terms.Nodup) (h : TermTables idx R)
    (hold : ∀ t ∈ terms, R t docId) :
    TermTables (terms.foldl (dropTerm docId) idx) fun t d => R t d ∧ ¬ (t ∈ terms ∧ d = docId) := by
  induction terms generalizing idx R with
  | nil => exact h.congr rfl rfl fun t d => by simp
  | cons term rest ih =>
    obtain ⟨hnot, hrest⟩ := List.nodup_cons.mp hterms
    have hstep := h.drop (hold term (by simp))
    have hold' : ∀ t ∈ rest, R t docId ∧ ¬ (t = term ∧ docId = docId) := by
      intro t ht
      have hne : t ≠ term := fun heq => hnot (heq ▸ ht)
      exact ⟨hold t (by simp [ht]), fun ⟨heq, _⟩ => hne heq⟩
    refine (ih hrest hstep hold').congr rfl rfl fun t d => ?_
    rw [List.mem_cons]
    tauto

/-- The loops over the terms leave the tables by document alone. -/
theorem foldl_docTables (step : InvertedIndex → String → InvertedIndex)
    (hstep : ∀ idx t, ∃ postings docFreq, step idx t = { idx with postings, docFreq })
    (terms : List String) (idx : InvertedIndex) :
    ∃ postings docFreq, terms.foldl step idx = { idx with postings, docFreq } := by
  induction terms generalizing idx with
  | nil => exact ⟨idx.postings, idx.docFreq, rfl⟩
  | cons t rest ih =>
    obtain ⟨postings, docFreq, h⟩ := hstep idx t
    obtain ⟨postings', docFreq', h'⟩ := ih (step idx t)
    refine ⟨postings', docFreq', ?_⟩
    rw [List.foldl_cons, h', h]

end

/-! ### The terms of a text -/

theorem mem_termFrequencies (tokens : List String) (t : String) :
    t ∈ termFrequencies tokens ↔ t ∈ tokens := by
  have hloop := mem_foldl_insert (fun tfMap tok => ((tfMap.lookup tok).getD 0 : UInt32) + 1)
    tokens ∅ t
  rw [termFrequencies, hloop]
  simp [Finmap.notMem_empty]

/-- The sorted keys have no repetitions to remove. -/
theorem termsForDoc_eq (tokens : List String) :
    termsForDoc tokens = (termFrequencies tokens).keys.sort (· ≤ ·) := by
  have hnodup := Finset.sort_nodup (termFrequencies tokens).keys (· ≤ ·)
  exact List.destutter_of_isChain _ _ hnodup.isChain

theorem nodup_termsForDoc (tokens : List String) : (termsForDoc tokens).Nodup := by
  rw [termsForDoc_eq]
  exact Finset.sort_nodup _ _

@[simp] theorem mem_termsForDoc (tokens : List String) (t : String) :
    t ∈ termsForDoc tokens ↔ t ∈ tokens := by
  rw [termsForDoc_eq, Finset.mem_sort, Finmap.mem_keys, mem_termFrequencies]

/-! ### The average -/

section
variable (idx : InvertedIndex)

@[simp] theorem recomputeAvg_postings : idx.recomputeAvg.postings = idx.postings := by
  unfold recomputeAvg
  split <;> rfl

@[simp] theorem recomputeAvg_docFreq : idx.recomputeAvg.docFreq = idx.docFreq := by
  unfold recomputeAvg
  split <;> rfl

@[simp] theorem recomputeAvg_docLengths : idx.recomputeAvg.docLengths = idx.docLengths := by
  unfold recomputeAvg
  split <;> rfl

@[simp] theorem recomputeAvg_indexedDocs : idx.recomputeAvg.indexedDocs = idx.indexedDocs := by
  unfold recomputeAvg
  split <;> rfl

@[simp] theorem recomputeAvg_totalDocs : idx.recomputeAvg.totalDocs = idx.totalDocs := by
  unfold recomputeAvg
  split <;> rfl

/-- The average depends on the tables, so a second computation changes nothing. -/
@[simp] theorem recomputeAvg_recomputeAvg : idx.recomputeAvg.recomputeAvg = idx.recomputeAvg := by
  by_cases h : idx.totalDocs = 0
  · simp [recomputeAvg, h]
  · simp [recomputeAvg, h]

/-- The other fields determine the average. -/
theorem recomputeAvg_congr {idx idx' : InvertedIndex} (hp : idx.postings = idx'.postings)
    (hf : idx.docFreq = idx'.docFreq) (hl : idx.docLengths = idx'.docLengths)
    (hd : idx.indexedDocs = idx'.indexedDocs) (ht : idx.totalDocs = idx'.totalDocs) :
    idx.recomputeAvg = idx'.recomputeAvg := by
  cases idx
  cases idx'
  subst hp hf hl hd ht
  rfl

end

/-! ### The whole index -/

/-- The term is a token of the latest text of the document. -/
def HasTerm (docs : HashMap UInt32 String) (t : String) (d : UInt32) : Prop :=
  ∃ text, docs.lookup d = some text ∧ t ∈ tokenize text

/-- The index is that of the latest texts. -/
structure Indexes (idx : InvertedIndex) (docs : HashMap UInt32 String) : Prop where
  terms : TermTables idx (HasTerm docs)
  lengths : ∀ d, idx.docLengths.lookup d =
    (docs.lookup d).map fun text => UInt32.ofNat (tokenize text).length
  docTerms : ∀ d, idx.indexedDocs.lookup d =
    (docs.lookup d).map fun text => termsForDoc (tokenize text)
  total : idx.totalDocs.toNat = docs.keys.card
  average : idx.recomputeAvg = idx

/-- An empty index is that of no texts. -/
theorem indexes_new : Indexes .new ∅ := by
  refine ⟨⟨?_, ?_, ?_, ?_⟩, ?_, ?_, ?_, ?_⟩
  · simp [InvertedIndex.new]
  · simp [InvertedIndex.new]
  · simp [InvertedIndex.new, HasTerm]
  · simp [InvertedIndex.new]
  · simp [InvertedIndex.new]
  · simp [InvertedIndex.new]
  · simp [InvertedIndex.new]
  · simp [InvertedIndex.new, recomputeAvg]

section
variable {idx : InvertedIndex} {docs : HashMap UInt32 String} {docId : UInt32} {text : String}

/-- A list of postings is no longer than the number of documents. -/
theorem Indexes.length_postings_le (h : Indexes idx docs) (t : String) :
    ((idx.postings.lookup t).getD []).length ≤ docs.keys.card := by
  have hnodup : ((idx.postings.lookup t).getD []).Nodup :=
    (h.terms.sorted_getD t).imp fun hlt => ne_of_lt hlt
  rw [← List.toFinset_card_of_nodup hnodup]
  refine Finset.card_le_card fun d hd => ?_
  obtain ⟨text, htext, -⟩ := (h.terms.mem t d).mp (List.mem_toFinset.mp hd)
  rw [Finmap.mem_keys, ← Finmap.lookup_isSome, htext]
  rfl

/-- `remove_doc` of a document that is indexed. -/
theorem removeDoc_of_indexed {terms : List String} (h : idx.indexedDocs.lookup docId = some terms)
    (htotal : 0 < idx.totalDocs.toNat) :
    ∃ postings docFreq,
      terms.foldl (dropTerm docId) { idx with indexedDocs := idx.indexedDocs.erase docId } =
        { idx with postings, docFreq, indexedDocs := idx.indexedDocs.erase docId } ∧
      idx.removeDoc docId = recomputeAvg { idx with
        postings, docFreq
        indexedDocs := idx.indexedDocs.erase docId
        docLengths := idx.docLengths.erase docId
        totalDocs := idx.totalDocs - 1 } := by
  obtain ⟨postings, docFreq, hloop⟩ := foldl_docTables (dropTerm docId)
    (fun _ _ => ⟨_, _, rfl⟩) terms { idx with indexedDocs := idx.indexedDocs.erase docId }
  have hpos : 0 < idx.totalDocs := UInt32.lt_iff_toNat_lt.mpr htotal
  refine ⟨postings, docFreq, hloop, ?_⟩
  simp only [InvertedIndex.removeDoc, h, hloop, if_pos hpos]

/-- `remove_doc` takes the text of the document away. -/
theorem Indexes.removeDoc (h : Indexes idx docs) :
    Indexes (idx.removeDoc docId) (docs.erase docId) := by
  cases htext : docs.lookup docId with
  | none =>
    have hnone : idx.indexedDocs.lookup docId = none := by rw [h.docTerms, htext, Option.map_none]
    have hidx : idx.removeDoc docId = idx := by simp only [InvertedIndex.removeDoc, hnone]
    rw [hidx, finmap_erase_of_none htext]
    exact h
  | some text =>
    have hmem : docId ∈ docs.keys := by
      rw [Finmap.mem_keys, ← Finmap.lookup_isSome, htext]
      rfl
    have hpos : 0 < docs.keys.card := Finset.card_pos.mpr ⟨docId, hmem⟩
    have hindexed := h.docTerms docId
    rw [htext, Option.map_some] at hindexed
    obtain ⟨postings, docFreq, hloop, heq⟩ := removeDoc_of_indexed hindexed (h.total ▸ hpos)
    rw [heq]
    refine ⟨?_, fun d => ?_, fun d => ?_, ?_, recomputeAvg_recomputeAvg _⟩
    · -- the recorded terms are those that the document is under
      have hterms : TermTables { idx with indexedDocs := idx.indexedDocs.erase docId }
          (HasTerm docs) := h.terms.congr rfl rfl fun _ _ => Iff.rfl
      have hold : ∀ t ∈ termsForDoc (tokenize text), HasTerm docs t docId := fun t ht =>
        ⟨text, htext, (mem_termsForDoc _ _).mp ht⟩
      have hdrop := hterms.dropAll (nodup_termsForDoc (tokenize text)) hold
      rw [hloop] at hdrop
      refine hdrop.congr (recomputeAvg_postings _) (recomputeAvg_docFreq _) fun t d => ?_
      unfold HasTerm
      rw [finmap_lookup_erase, mem_termsForDoc]
      split
      · rename_i hd
        subst hd
        simp [htext]
      · rename_i hd
        simp [hd]
    · rw [recomputeAvg_docLengths, finmap_lookup_erase, finmap_lookup_erase, h.lengths]
      split <;> rfl
    · rw [recomputeAvg_indexedDocs, finmap_lookup_erase, finmap_lookup_erase, h.docTerms]
      split <;> rfl
    · rw [recomputeAvg_totalDocs, Finmap.keys_erase, Finset.card_erase_of_mem hmem, ← h.total]
      exact toNat_sub_one (h.total ▸ hpos)

/-- The statements at the end of `index_doc`, for a document that is not indexed. -/
theorem Indexes.register (h : Indexes idx docs) (hfresh : docs.lookup docId = none)
    (hfew : docs.keys.card + 1 < 2 ^ 32) :
    Indexes ((termsForDoc (tokenize text)).foldl (addTerm docId) idx |>.register docId
      (UInt32.ofNat (tokenize text).length) (termsForDoc (tokenize text)))
      (docs.insert docId text) := by
  -- the document is under no term yet, and each list has room for it
  have hnew : ∀ t ∈ termsForDoc (tokenize text), ¬ HasTerm docs t docId := by
    rintro t - ⟨text', htext', -⟩
    rw [hfresh] at htext'
    cases htext'
  have hroom : ∀ t ∈ termsForDoc (tokenize text),
      ((idx.postings.lookup t).getD []).length + 1 < 2 ^ 32 := fun t _ =>
    (Nat.add_le_add_right (h.length_postings_le t) 1).trans_lt hfew
  have hadd := h.terms.addAll (nodup_termsForDoc (tokenize text)) hnew hroom
  obtain ⟨postings, docFreq, hloop⟩ := foldl_docTables (addTerm docId)
    (fun _ _ => ⟨_, _, rfl⟩) (termsForDoc (tokenize text)) idx
  rw [hloop] at hadd
  rw [hloop, InvertedIndex.register]
  refine ⟨?_, fun d => ?_, fun d => ?_, ?_, recomputeAvg_recomputeAvg _⟩
  · refine hadd.congr (recomputeAvg_postings _) (recomputeAvg_docFreq _) fun t d => ?_
    unfold HasTerm
    rw [finmap_lookup_insert, mem_termsForDoc]
    split
    · rename_i hd
      subst hd
      simp [hfresh]
    · rename_i hd
      simp [hd]
  · rw [recomputeAvg_docLengths, finmap_lookup_insert, finmap_lookup_insert, h.lengths]
    split <;> rfl
  · rw [recomputeAvg_indexedDocs, finmap_lookup_insert, finmap_lookup_insert, h.docTerms]
    split <;> rfl
  · have hnot : docId ∉ docs.keys := by
      rw [Finmap.mem_keys, ← Finmap.lookup_isSome, hfresh]
      simp
    rw [recomputeAvg_totalDocs, finmap_keys_insert, Finset.card_insert_of_notMem hnot,
      UInt32.toNat_add, UInt32.toNat_one, h.total, Nat.mod_eq_of_lt hfew]

/-- The two branches of `index_doc` are one where the number of tokens fits in a `u32`. -/
theorem indexDoc_eq (htokens : (tokenize text).length < 2 ^ 32) :
    idx.indexDoc docId text =
      ((termsForDoc (tokenize text)).foldl (addTerm docId)
        (if (idx.docLengths.lookup docId).isSome then idx.removeDoc docId else idx)).register docId
        (UInt32.ofNat (tokenize text).length) (termsForDoc (tokenize text)) := by
  simp only [InvertedIndex.indexDoc]
  split
  · rename_i hzero
    -- a count of zero means no tokens only where the count is exact
    have hlen : (tokenize text).length = 0 := by
      have hnat := congrArg UInt32.toNat hzero
      rwa [UInt32.toNat_ofNat', UInt32.toNat_zero, Nat.mod_eq_of_lt htokens] at hnat
    rw [List.length_eq_zero_iff.mp hlen]
    have hterms : termsForDoc [] = [] :=
      List.eq_nil_iff_forall_not_mem.mpr fun t ht => by simpa using (mem_termsForDoc [] t).mp ht
    rw [hterms]
    rfl
  · rfl

/-- `index_doc` gives the document a new text. -/
theorem Indexes.indexDoc (h : Indexes idx docs) (hfew : (docs.insert docId text).keys.card < 2 ^ 32)
    (htokens : (tokenize text).length < 2 ^ 32) :
    Indexes (idx.indexDoc docId text) (docs.insert docId text) := by
  -- the document is not indexed when its terms are entered
  have hcleared : Indexes
      (if (idx.docLengths.lookup docId).isSome then idx.removeDoc docId else idx)
      (docs.erase docId) := by
    have hremoved : Indexes (idx.removeDoc docId) (docs.erase docId) := h.removeDoc
    split
    · exact hremoved
    · rename_i hnone
      have hlookup : docs.lookup docId = none := by
        simpa [h.lengths] using hnone
      have hidx : idx.removeDoc docId = idx := by
        simp only [InvertedIndex.removeDoc, h.docTerms, hlookup, Option.map_none]
      rwa [hidx] at hremoved
  have hagain := finmap_insert_erase docs docId text
  have hfresh : (docs.erase docId).lookup docId = none := by simp
  have hcard : (docs.erase docId).keys.card + 1 = (docs.insert docId text).keys.card := by
    rw [← hagain, finmap_keys_insert, Finset.card_insert_of_notMem (by simp [Finmap.keys_erase])]
  rw [indexDoc_eq htokens, ← hagain]
  exact hcleared.register hfresh (hcard ▸ hfew)

end

/-! ### The runs -/

/-- The counters do not wrap in the calls: there are fewer than `2 ^ 32` documents after any of
them, and fewer than `2 ^ 32` tokens in each text. -/
structure CountersFit (calls : List IndexCall) : Prop where
  docs : ∀ earlier, earlier <+: calls → (assigned earlier).keys.card < 2 ^ 32
  tokens : ∀ docId text, .indexDoc docId text ∈ calls → (tokenize text).length < 2 ^ 32

/-- In every run the index is that of the latest texts. -/
theorem indexes_run {calls : List IndexCall} (hfit : CountersFit calls) :
    Indexes (.run calls) (assigned calls) := by
  -- from the right: a call acts on the index after the calls before it
  induction calls using List.reverseRecOn with
  | nil => exact indexes_new
  | append_singleton calls call ih =>
    have hcalls := ih ⟨fun earlier h => hfit.docs earlier (h.trans (List.prefix_append ..)),
      fun docId text h => hfit.tokens docId text (by simp [h])⟩
    have hrun : InvertedIndex.run (calls ++ [call]) = (InvertedIndex.run calls).apply call := by
      simp [InvertedIndex.run]
    have hassigned : assigned (calls ++ [call]) = assign (assigned calls) call := by
      simp [assigned]
    rw [hrun, hassigned]
    cases call with
    | indexDoc docId text =>
      have hfew := hfit.docs _ (List.prefix_refl _)
      rw [hassigned] at hfew
      exact hcalls.indexDoc hfew (hfit.tokens docId text (by simp))
    | removeDoc docId => exact hcalls.removeDoc

/-- Only a list that is not empty is kept, so the documents of a term determine its entry. -/
theorem TermTables.lookup_eq {idx idx' : InvertedIndex} {R R' : String → UInt32 → Prop}
    (h : TermTables idx R) (h' : TermTables idx' R') {t : String}
    (heq : (idx.postings.lookup t).getD [] = (idx'.postings.lookup t).getD []) :
    idx.postings.lookup t = idx'.postings.lookup t := by
  cases hv : idx.postings.lookup t with
  | none =>
    cases hv' : idx'.postings.lookup t with
    | none => rfl
    | some v' =>
      rw [hv, hv'] at heq
      exact absurd heq.symm (h'.nonempty t v' hv')
  | some v =>
    cases hv' : idx'.postings.lookup t with
    | none =>
      rw [hv, hv'] at heq
      exact absurd heq (h.nonempty t v hv)
    | some v' =>
      rw [hv, hv'] at heq
      exact congrArg some heq

/-- The texts determine the index. -/
theorem Indexes.unique {idx idx' : InvertedIndex} {docs : HashMap UInt32 String}
    (h : Indexes idx docs) (h' : Indexes idx' docs) : idx = idx' := by
  -- a strictly increasing list is determined by its members
  have hp : idx.postings = idx'.postings := Finmap.ext_lookup fun t => by
    refine h.terms.lookup_eq h'.terms ((h.terms.sorted_getD t).eq_of_mem_iff
      (h'.terms.sorted_getD t) fun d => ?_)
    rw [h.terms.mem, h'.terms.mem]
  have hf : idx.docFreq = idx'.docFreq := Finmap.ext_lookup fun t => by
    have hinj : Function.Injective UInt32.toNat := fun _ _ => UInt32.toNat_inj.mp
    apply Option.map_injective hinj
    rw [h.terms.freq, h'.terms.freq, hp]
  have hl : idx.docLengths = idx'.docLengths := Finmap.ext_lookup fun d => by
    rw [h.lengths, h'.lengths]
  have hd : idx.indexedDocs = idx'.indexedDocs := Finmap.ext_lookup fun d => by
    rw [h.docTerms, h'.docTerms]
  have ht : idx.totalDocs = idx'.totalDocs := by
    rw [← UInt32.toNat_inj, h.total, h'.total]
  -- the average is that of fields which agree
  rw [← h.average, ← h'.average]
  exact recomputeAvg_congr hp hf hl hd ht

/-- The latest text of a document comes from a call. -/
theorem indexDoc_mem_of_assigned {calls : List IndexCall} {d : UInt32} {text : String}
    (h : (assigned calls).lookup d = some text) : .indexDoc d text ∈ calls := by
  induction calls using List.reverseRecOn with
  | nil => cases h
  | append_singleton calls call ih =>
    rw [assigned, List.foldl_append, List.foldl_cons, List.foldl_nil, ← assigned] at h
    rw [List.mem_append, List.mem_singleton]
    cases call with
    | indexDoc docId text' =>
      rw [assign, finmap_lookup_insert] at h
      split at h
      · rename_i heq
        cases h
        exact Or.inr (by rw [heq])
      · exact Or.inl (ih h)
    | removeDoc docId =>
      rw [assign, finmap_lookup_erase] at h
      split at h
      · cases h
      · exact Or.inl (ih h)

/-- There are no more documents than calls. -/
theorem card_assigned_le (calls : List IndexCall) : (assigned calls).keys.card ≤ calls.length := by
  induction calls using List.reverseRecOn with
  | nil => simp [assigned]
  | append_singleton calls call ih =>
    rw [assigned, List.foldl_append, List.foldl_cons, List.foldl_nil, ← assigned,
      List.length_append, List.length_singleton]
    cases call with
    | indexDoc docId text =>
      rw [assign, finmap_keys_insert]
      exact (Finset.card_insert_le _ _).trans (Nat.add_le_add_right ih 1)
    | removeDoc docId =>
      rw [assign, Finmap.keys_erase]
      exact (Finset.card_erase_le.trans ih).trans (Nat.le_succ _)

/-- A run of fewer than `2 ^ 32` calls cannot wrap a counter of documents. -/
theorem CountersFit.of_length {calls : List IndexCall} (hlen : calls.length < 2 ^ 32)
    (htokens : ∀ call ∈ calls, ∀ docId text, call = .indexDoc docId text →
      (tokenize text).length < 2 ^ 32) : CountersFit calls where
  docs earlier h := (card_assigned_le earlier).trans_lt (h.length_le.trans_lt hlen)
  tokens docId text h := htokens _ h docId text rfl

/-- In every run in which no counter wraps, the tables hold the tokens of the latest texts, and
runs that leave the same texts leave the same index. -/
theorem invertedIndex_represents {calls : List IndexCall} (hfit : CountersFit calls) :
    let idx := InvertedIndex.run calls
    let docs := assigned calls
    (∀ t v, idx.postings.lookup t = some v → v.Pairwise (· < ·) ∧ v ≠ []) ∧
    (∀ t d, (∃ v, idx.postings.lookup t = some v ∧ d ∈ v) ↔
      ∃ text, docs.lookup d = some text ∧ t ∈ tokenize text) ∧
    (∀ t, (idx.docFreq.lookup t).map UInt32.toNat = (idx.postings.lookup t).map List.length) ∧
    idx.indexedDocs.keys = docs.keys ∧
    idx.totalDocs.toNat = docs.keys.card ∧
    (∀ d, (idx.docLengths.lookup d).map UInt32.toNat =
      (docs.lookup d).map fun text => (tokenize text).length) ∧
    ∀ calls', CountersFit calls' → assigned calls' = docs → InvertedIndex.run calls' = idx := by
  intro idx docs
  have h : Indexes idx docs := indexes_run hfit
  refine ⟨fun t v hv => ⟨h.terms.sorted t v hv, h.terms.nonempty t v hv⟩, fun t d => ?_,
    h.terms.freq, ?_, h.total, fun d => ?_, fun calls' hfit' hsame => ?_⟩
  · have hmem := h.terms.mem t d
    show _ ↔ HasTerm docs t d
    rw [← hmem]
    cases idx.postings.lookup t <;> simp
  · ext d
    rw [Finmap.mem_keys, Finmap.mem_keys, ← Finmap.lookup_isSome, ← Finmap.lookup_isSome,
      h.docTerms, Option.isSome_map]
  · rw [h.lengths]
    cases htext : docs.lookup d with
    | none => rfl
    | some text =>
      have htokens := hfit.tokens d text (indexDoc_mem_of_assigned htext)
      rw [Option.map_some, Option.map_some, Option.map_some, UInt32.toNat_ofNat',
        Nat.mod_eq_of_lt htokens]
  · have h' : Indexes (.run calls') (assigned calls') := indexes_run hfit'
    rw [hsame] at h'
    exact h'.unique h

/-- A text that is replaced, an empty one and one that is removed: the first document is no longer
under the token it had, and the run leaves what its two latest texts alone leave. -/
theorem invertedIndex_represents_after_reindex :
    let calls : List IndexCall := [.indexDoc 2 "Alpha beta alpha", .indexDoc 1 "beta",
      .indexDoc 3 "", .indexDoc 2 "beta-gamma", .removeDoc 1]
    (¬ ∃ v, (InvertedIndex.run calls).postings.lookup "alpha" = some v ∧ 2 ∈ v) ∧
    (InvertedIndex.run calls).totalDocs.toNat = 2 ∧
    InvertedIndex.run [.indexDoc 2 "beta-gamma", .indexDoc 3 ""] = InvertedIndex.run calls := by
  intro calls
  have hfit : CountersFit calls := .of_length (by decide) (by
    simp only [calls, List.mem_cons, List.not_mem_nil, or_false]
    rintro call (rfl | rfl | rfl | rfl | rfl) docId text ⟨⟩ <;> decide +kernel)
  have hfit' : CountersFit [.indexDoc 2 "beta-gamma", .indexDoc 3 ""] := .of_length (by decide) (by
    simp only [List.mem_cons, List.not_mem_nil, or_false]
    rintro call (rfl | rfl) docId text ⟨⟩ <;> decide +kernel)
  obtain ⟨-, hmem, -, -, htotal, -, hsame⟩ := invertedIndex_represents hfit
  have hlatest : (assigned calls).lookup 2 = some "beta-gamma" := by decide +kernel
  refine ⟨fun h => ?_, htotal.trans (by decide +kernel), hsame _ hfit' (by decide +kernel)⟩
  obtain ⟨text, htext, htok⟩ := (hmem "alpha" 2).mp h
  rw [hlatest] at htext
  cases htext
  exact absurd htok (by decide +kernel)

end GrafeoLoro.Proofs
