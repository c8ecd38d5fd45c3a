import GrafeoLoro.Fts.InvertedIndex
import GrafeoLoro.Schema.EdgeSpec

/-!
# `GrafeoLoro.Fts.Search`: the ranked search of the full-text index

The model of `InvertedIndex::search` (`src/fts/mod.rs`). The scores are `Float`, whose arithmetic
has no theorems. They decide the order of the hits, and `limit` cuts the list in that order.

The scores are in a hash map. `scoresOrder` is the order in which it is iterated. `sort_by` is a
stable merge sort.
-/

set_option autoImplicit false

namespace GrafeoLoro

open GrafeoLoro.Lib

/-- `SearchHit`. -/
structure SearchHit where
  docId : UInt32
  score : Float

/-- `f64::max`: the other operand where one is not a number. -/
def f64Max (a b : Float) : Float :=
  if a.isNaN then b else if b.isNaN then a else if a < b then b else a

/-- The order of the hits: a higher score first, and among equal scores the lower document id.
Scores that cannot be compared count as equal. -/
def compareHits (a b : SearchHit) : Ordering :=
  let byScore : Ordering :=
    if b.score < a.score then .lt else if a.score < b.score then .gt else .eq
  byScore.then (compare a.docId b.docId)

namespace InvertedIndex

/-- The inverse document frequency of a term. -/
def idf (idx : InvertedIndex) (df : UInt32) : Float :=
  let n := idx.totalDocs.toFloat
  Float.log ((n + 1.0) / (df.toFloat + 1.0)) + 1.0

/-- The weight of a document by its length. -/
def lengthNorm (idx : InvertedIndex) (docId : UInt32) : Float :=
  let avgDl := if 0.0 < idx.avgDocLength then idx.avgDocLength else 1.0
  let dl := ((idx.docLengths.lookup docId).getD 0).toFloat
  1.0 / (1.0 + f64Max (Float.log (dl / avgDl)).abs 1e-9)

/-- What a term adds to the score of a document. -/
def contribution (idx : InvertedIndex) (df docId : UInt32) : Float :=
  let tf := 1.0
  tf * idx.idf df * idx.lengthNorm docId

/-- The loop body of `search`: the scores after one term. -/
def scoreTerm (idx : InvertedIndex) (scores : HashMap UInt32 Float) (term : String) :
    HashMap UInt32 Float :=
  match idx.docFreq.lookup term with
  | none => scores
  | some df =>
    match idx.postings.lookup term with
    | none => scores
    | some postingsVec =>
      postingsVec.foldl (fun scores docId =>
        scores.insert docId ((scores.lookup docId).getD 0.0 + idx.contribution df docId)) scores

/-- `search`. -/
def search (scoresOrder : SetOrder UInt32) (idx : InvertedIndex) (query : String) (limit : Nat) :
    List SearchHit :=
  let queryTerms := tokenize query
  if queryTerms.isEmpty || idx.totalDocs == 0 then []
  else
    let uniqueTerms := (queryTerms.mergeSort (· ≤ ·)).destutter (· ≠ ·)
    let scores := uniqueTerms.foldl idx.scoreTerm ∅
    let hits := (scoresOrder.iter scores.keys).map fun docId =>
      { docId, score := (scores.lookup docId).getD 0.0 : SearchHit }
    (hits.mergeSort fun a b => (compareHits a b).isLE).take limit

end InvertedIndex

/-! ### What a search is for -/

/-- The query and the text have a token in common. -/
def SharesToken (query text : String) : Prop := ∃ t ∈ tokenize query, t ∈ tokenize text

instance (query text : String) : Decidable (SharesToken query text) :=
  inferInstanceAs (Decidable (∃ t ∈ tokenize query, t ∈ tokenize text))

/-- The documents whose latest text has a token of the query. -/
def matching (docs : HashMap UInt32 String) (query : String) : Finset UInt32 :=
  docs.keys.filter fun docId => (docs.lookup docId).any fun text => SharesToken query text

end GrafeoLoro
