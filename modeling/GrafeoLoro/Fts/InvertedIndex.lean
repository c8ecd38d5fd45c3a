import GrafeoLoro.Lib.SortedVec
import GrafeoLoro.Types.Values
import Mathlib.Data.Finset.Sort
import Mathlib.Data.List.Destutter
import Mathlib.Data.String.Basic

/-!
# `GrafeoLoro.Fts.InvertedIndex`: the tables of the full-text index

The model of `index_doc` and `remove_doc` of `InvertedIndex`, and of `tokenize` (`src/fts/mod.rs`).
A `HashMap` is a finite map without an iteration order, so the terms of a document are the sorted
keys of its frequency map, and the average is a fold in any order.

A `u32` counter wraps around. `assigned` is what the calls say: the latest text of each document
that is not removed.
-/

set_option autoImplicit false

namespace GrafeoLoro

open GrafeoLoro.Lib

/-- `char::is_whitespace`. -/
def isWhitespace (c : Char) : Bool :=
  let n := c.toNat
  (0x9 ≤ n && n ≤ 0xD) || (0x2000 ≤ n && n ≤ 0x200A) ||
    [0x20, 0x85, 0xA0, 0x1680, 0x2028, 0x2029, 0x202F, 0x205F, 0x3000].contains n

/-- `char::is_ascii`. -/
def isAscii (c : Char) : Bool := c.toNat < 128

/-- The characters on which `tokenize` splits. -/
def isDelimiter (c : Char) : Bool := isWhitespace c || (isAscii c && !c.isAlphanum)

/-- `tokenize`. -/
def tokenize (text : String) : List String :=
  ((text.toList.splitOnP isDelimiter).filter fun s => !s.isEmpty).map fun s =>
    String.ofList (s.map fun c => if isAscii c then c.toLower else c)

/-- The map from a term to its frequency in the document. -/
def termFrequencies (tokens : List String) : HashMap String UInt32 :=
  tokens.foldl (fun tfMap tok => tfMap.insert tok ((tfMap.lookup tok).getD 0 + 1)) ∅

/-- The terms that a document contributes to: the keys, sorted and without repetitions. -/
def termsForDoc (tokens : List String) : List String :=
  ((termFrequencies tokens).keys.sort (· ≤ ·)).destutter (· ≠ ·)

/-- `InvertedIndex`. -/
structure InvertedIndex where
  postings : HashMap String (List UInt32)
  docFreq : HashMap String UInt32
  docLengths : HashMap UInt32 UInt32
  indexedDocs : HashMap UInt32 (List String)
  totalDocs : UInt32
  avgDocLength : Float

namespace InvertedIndex

/-- The order of document ids. -/
scoped instance : LinearOrder UInt32 where
  le_refl := UInt32.le_refl
  le_trans _ _ _ := UInt32.le_trans
  le_antisymm _ _ := UInt32.le_antisymm
  le_total := UInt32.le_total
  lt_iff_le_not_ge a b := by
    rw [UInt32.not_le, UInt32.lt_iff_toNat_lt, UInt32.le_iff_toNat_le]
    omega
  toDecidableLE := inferInstance

/-- `InvertedIndex::new`. -/
def new : InvertedIndex := ⟨∅, ∅, ∅, ∅, 0, 0.0⟩

/-- The sum of the document lengths, in a `u64`. -/
def totalLength (docLengths : HashMap UInt32 UInt32) : UInt64 :=
  docLengths.foldl (fun total _ l => total + l.toUInt64)
    (fun total _ l _ l' => by rw [UInt64.add_assoc, UInt64.add_comm l.toUInt64, UInt64.add_assoc]) 0

/-- `recompute_avg`. -/
def recomputeAvg (idx : InvertedIndex) : InvertedIndex :=
  if idx.totalDocs = 0 then { idx with avgDocLength := 0.0 }
  else { idx with avgDocLength := (totalLength idx.docLengths).toFloat / idx.totalDocs.toFloat }

/-- The loop body of `index_doc`: enter the document under a term. -/
def addTerm (docId : UInt32) (idx : InvertedIndex) (term : String) : InvertedIndex :=
  let postingsVec := (idx.postings.lookup term).getD []
  -- `unwrap_or_else`: the index in both cases
  let pos := match binarySearch postingsVec docId with
    | .ok pos => pos
    | .error e => e
  let postingsVec :=
    if pos = postingsVec.length ∨ postingsVec[pos]? ≠ some docId then
      postingsVec.insertIdx pos docId
    else postingsVec
  { idx with
    postings := idx.postings.insert term postingsVec
    docFreq := idx.docFreq.insert term ((idx.docFreq.lookup term).getD 0 + 1) }

/-- `remove_doc`, the postings of one term. -/
def dropPosting (docId : UInt32) (term : String) (postings : HashMap String (List UInt32)) :
    HashMap String (List UInt32) :=
  match postings.lookup term with
  | some postingsVec =>
    let postingsVec := match binarySearch postingsVec docId with
      | .ok pos => postingsVec.eraseIdx pos
      | .error _ => postingsVec
    -- no empty list stays under a term
    if postingsVec.isEmpty then postings.erase term else postings.insert term postingsVec
  | none => postings

/-- `remove_doc`, the document frequency of one term. -/
def dropFreq (term : String) (docFreq : HashMap String UInt32) : HashMap String UInt32 :=
  match docFreq.lookup term with
  | some df =>
    let df := if 0 < df then df - 1 else df
    if df = 0 then docFreq.erase term else docFreq.insert term df
  | none => docFreq

/-- The loop body of `remove_doc`: take the document out from under a term. -/
def dropTerm (docId : UInt32) (idx : InvertedIndex) (term : String) : InvertedIndex :=
  { idx with
    postings := dropPosting docId term idx.postings
    docFreq := dropFreq term idx.docFreq }

/-- `remove_doc`. -/
def removeDoc (docId : UInt32) (idx : InvertedIndex) : InvertedIndex :=
  match idx.indexedDocs.lookup docId with
  | none => idx
  | some terms =>
    -- the terms that `index_doc` recorded, so the text is not needed
    let idx := { idx with indexedDocs := idx.indexedDocs.erase docId }
    let idx := terms.foldl (dropTerm docId) idx
    let idx : InvertedIndex := { idx with docLengths := idx.docLengths.erase docId }
    let idx := if 0 < idx.totalDocs then { idx with totalDocs := idx.totalDocs - 1 } else idx
    idx.recomputeAvg

/-- The last four statements of `index_doc`. -/
def register (docId tokenCount : UInt32) (terms : List String) (idx : InvertedIndex) :
    InvertedIndex :=
  recomputeAvg { idx with
    docLengths := idx.docLengths.insert docId tokenCount
    indexedDocs := idx.indexedDocs.insert docId terms
    totalDocs := idx.totalDocs + 1 }

/-- `index_doc`. -/
def indexDoc (docId : UInt32) (text : String) (idx : InvertedIndex) : InvertedIndex :=
  -- the old text goes first
  let idx := if (idx.docLengths.lookup docId).isSome then idx.removeDoc docId else idx
  let tokens := tokenize text
  let tokenCount := UInt32.ofNat tokens.length
  -- a document without tokens counts as a document
  if tokenCount = 0 then idx.register docId 0 []
  else
    let terms := termsForDoc tokens
    (terms.foldl (addTerm docId) idx).register docId tokenCount terms

end InvertedIndex

/-! ### The calls of a run -/

/-- A call that changes the index. -/
inductive IndexCall where
  | indexDoc (docId : UInt32) (text : String)
  | removeDoc (docId : UInt32)
  deriving DecidableEq, Repr

/-- The index after one more call. -/
def InvertedIndex.apply (idx : InvertedIndex) : IndexCall → InvertedIndex
  | .indexDoc docId text => idx.indexDoc docId text
  | .removeDoc docId => idx.removeDoc docId

/-- The index after the calls. -/
def InvertedIndex.run (calls : List IndexCall) : InvertedIndex := calls.foldl .apply .new

/-- What one call says about the texts. -/
def assign (docs : HashMap UInt32 String) : IndexCall → HashMap UInt32 String
  | .indexDoc docId text => docs.insert docId text
  | .removeDoc docId => docs.erase docId

/-- The latest text of each document that is not removed. -/
def assigned (calls : List IndexCall) : HashMap UInt32 String := calls.foldl assign ∅

end GrafeoLoro
