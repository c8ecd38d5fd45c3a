import GrafeoLoro.Bridge.SyncEngine

/-!
# `GrafeoLoro.Proofs.EdgeKey`: which edge keys survive their encoding

`encodeEdgeKey` joins the three parts of a key with `|` and escapes nothing. `parseEdgeKey`
splits at the first two separators, so the label may hold further ones, and rejects an empty
label.

* `parse_encode_iff`: the parser gives a key back exactly when its endpoints hold no separator
  and its label is not empty.
* `encode_unique_iff`: no other key has the same encoding exactly when the three parts hold
  no separator.
* `edgeKey_roundtrip_iff`: the two together, and that keys which both come back have different
  encodings.
* `edgeKeys_collide`: a separator in a vertex key makes two edges share an entry of `E`.
* `parseEdgeKey_grammar`: the parser accepts the texts with two separators and a text after the
  second one, and a text that it accepts is rewritten unchanged.
-/

set_option autoImplicit false

namespace GrafeoLoro.Proofs

open GrafeoLoro

/-! ### The first separator -/

/-- The part before the first separator holds none. -/
theorem notMem_splitFirst (sep : Char) (l : List Char) : sep ∉ (splitFirst sep l).1 := by
  induction l with
  | nil => exact List.not_mem_nil
  | cons c rest ih =>
    rw [splitFirst]
    split
    · exact List.not_mem_nil
    · rename_i hne
      intro hmem
      cases List.mem_cons.mp hmem with
      | inl heq => exact hne heq.symm
      | inr hin => exact ih hin

/-- The split of a part without a separator, a separator and a rest. -/
theorem splitFirst_append {sep : Char} {l : List Char} (h : sep ∉ l) (rest : List Char) :
    splitFirst sep (l ++ sep :: rest) = (l, some rest) := by
  induction l with
  | nil => rw [List.nil_append, splitFirst, if_pos rfl]
  | cons c tail ih =>
    have hne : c ≠ sep := fun heq => h (heq ▸ List.mem_cons_self)
    have htail : sep ∉ tail := fun hin => h (List.mem_cons_of_mem c hin)
    rw [List.cons_append, splitFirst, if_neg hne, ih htail]

/-- A split that found a separator, put together again. -/
theorem eq_append_of_splitFirst {sep : Char} {l before after : List Char}
    (h : splitFirst sep l = (before, some after)) : l = before ++ sep :: after := by
  induction l generalizing before with
  | nil => cases (Prod.mk.inj h).2
  | cons c rest ih =>
    rw [splitFirst] at h
    split at h
    · rename_i hc
      obtain ⟨hbefore, hafter⟩ := Prod.mk.inj h
      rw [← hbefore, hc, Option.some.inj hafter]
      rfl
    · obtain ⟨hbefore, hafter⟩ := Prod.mk.inj h
      have hrest := ih (Prod.ext rfl hafter)
      rw [← hbefore]
      exact congrArg (c :: ·) hrest

/-! ### The round trip -/

/-- The characters of an encoded key. -/
theorem toList_encodeEdgeKey (src dst label : String) :
    (encodeEdgeKey (src, dst, label)).toList
      = src.toList ++ '|' :: (dst.toList ++ '|' :: label.toList) := by
  unfold encodeEdgeKey
  simp only [String.toList_append, List.append_assoc]
  rfl

/-- The parser gives a key back exactly when its endpoints hold no separator and its label is
not empty. -/
theorem parse_encode_iff (src dst label : String) :
    parseEdgeKey (encodeEdgeKey (src, dst, label)) = some (src, dst, label) ↔
      '|' ∉ src.toList ∧ '|' ∉ dst.toList ∧ label ≠ "" := by
  unfold parseEdgeKey
  rw [toList_encodeEdgeKey]
  constructor
  · intro h
    -- what the parser returns are the parts before the first two separators
    have hsrc := notMem_splitFirst '|' (src.toList ++ '|' :: (dst.toList ++ '|' :: label.toList))
    split at h
    · rename_i s rest hfirst
      rw [hfirst] at hsrc
      have hdst := notMem_splitFirst '|' rest
      split at h
      · rename_i d l hsecond
        rw [hsecond] at hdst
        split at h
        · cases h
        · rename_i hlabel
          simp only [Option.some.injEq, Prod.mk.injEq] at h
          obtain ⟨rfl, rfl, rfl⟩ := h
          refine ⟨?_, ?_, ?_⟩
          · simpa using hsrc
          · simpa using hdst
          · intro hempty
            apply hlabel
            simpa using congrArg String.toList hempty
      · cases h
    · cases h
  · rintro ⟨hsrc, hdst, hlabel⟩
    have hne : label.toList ≠ [] := by simpa using hlabel
    rw [splitFirst_append hsrc]
    simp only [splitFirst_append hdst, if_neg hne, String.ofList_toList]

/-- A text that parses is the encoding of the key it parses to. -/
theorem encode_parse {s : String} {key : EdgeKey} (h : parseEdgeKey s = some key) :
    encodeEdgeKey key = s := by
  unfold parseEdgeKey at h
  split at h
  · rename_i src rest hfirst
    split at h
    · rename_i dst label hsecond
      split at h
      · cases h
      · obtain rfl := Option.some.inj h
        apply String.toList_inj.mp
        rw [toList_encodeEdgeKey, eq_append_of_splitFirst hfirst, eq_append_of_splitFirst hsecond]
        simp
    · cases h
  · cases h

/-! ### Other keys with the same encoding -/

/-- A list of characters is not a proper part of itself. -/
theorem ofList_ne_of_append {s : String} {a b : List Char} (h : s.toList = a ++ '|' :: b) :
    String.ofList a ≠ s ∧ String.ofList b ≠ s := by
  have hlen : s.toList.length = a.length + (b.length + 1) := by
    rw [h, List.length_append, List.length_cons]
  constructor
  · intro heq
    rw [← heq, String.toList_ofList] at hlen
    omega
  · intro heq
    rw [← heq, String.toList_ofList] at hlen
    omega

/-- No other key has the same encoding exactly when the three parts hold no separator. -/
theorem encode_unique_iff (src dst label : String) :
    (∀ key, encodeEdgeKey key = encodeEdgeKey (src, dst, label) → key = (src, dst, label)) ↔
      '|' ∉ src.toList ∧ '|' ∉ dst.toList ∧ '|' ∉ label.toList := by
  constructor
  · intro hunique
    -- a separator in a part can be read as one of the two that the encoding adds
    have hother : ∀ s d l : String,
        s.toList ++ '|' :: (d.toList ++ '|' :: l.toList)
          = src.toList ++ '|' :: (dst.toList ++ '|' :: label.toList) →
        s = src ∧ d = dst ∧ l = label := by
      intro s d l hsame
      have hkey : ((s, d, l) : EdgeKey) = (src, dst, label) := by
        apply hunique
        apply String.toList_inj.mp
        rw [toList_encodeEdgeKey, toList_encodeEdgeKey]
        exact hsame
      simpa only [Prod.mk.injEq] using hkey
    refine ⟨fun hmem => ?_, fun hmem => ?_, fun hmem => ?_⟩
    · -- the source is split, and the old target goes into the label
      obtain ⟨a, b, hab⟩ := List.append_of_mem hmem
      have heq := hother (String.ofList a) (String.ofList b) (dst ++ "|" ++ label) (by
        simp [hab])
      exact (ofList_ne_of_append hab).1 heq.1
    · -- the target is split, and its rest goes into the label
      obtain ⟨a, b, hab⟩ := List.append_of_mem hmem
      have heq := hother src (String.ofList a) (String.ofList b ++ "|" ++ label) (by
        simp [hab])
      exact (ofList_ne_of_append hab).1 heq.2.1
    · -- the label is split, and its front goes into the target
      obtain ⟨a, b, hab⟩ := List.append_of_mem hmem
      have heq := hother src (dst ++ "|" ++ String.ofList a) (String.ofList b) (by
        simp [hab])
      exact (ofList_ne_of_append hab).2 heq.2.2
  · rintro ⟨hsrc, hdst, hlabel⟩ ⟨s, d, l⟩ hsame
    have hlist := congrArg String.toList hsame
    rw [toList_encodeEdgeKey, toList_encodeEdgeKey] at hlist
    -- the encoding has two separators, so the other key has none in its parts
    have hcount := congrArg (List.count '|') hlist
    simp only [List.count_append, List.count_cons, List.count_eq_zero.mpr hsrc,
      List.count_eq_zero.mpr hdst, List.count_eq_zero.mpr hlabel] at hcount
    have hs : '|' ∉ s.toList := List.count_eq_zero.mp (by omega)
    have hd : '|' ∉ d.toList := List.count_eq_zero.mp (by omega)
    -- so both keys are split at the same two places
    have hfirst := congrArg (splitFirst '|') hlist
    rw [splitFirst_append hs, splitFirst_append hsrc] at hfirst
    simp only [Prod.mk.injEq, Option.some.injEq] at hfirst
    have hsecond := congrArg (splitFirst '|') hfirst.2
    rw [splitFirst_append hd, splitFirst_append hdst] at hsecond
    simp only [Prod.mk.injEq, Option.some.injEq] at hsecond
    rw [String.toList_inj.mp hfirst.1, String.toList_inj.mp hsecond.1,
      String.toList_inj.mp hsecond.2]

/-- An edge key comes back from its encoding exactly when its endpoints hold no separator and
its label is not empty. No other key has its encoding exactly when no part holds a separator.
Two keys that both come back have different encodings. -/
theorem edgeKey_roundtrip_iff (src dst label : String) :
    (parseEdgeKey (encodeEdgeKey (src, dst, label)) = some (src, dst, label) ↔
      '|' ∉ src.toList ∧ '|' ∉ dst.toList ∧ label ≠ "") ∧
    ((∀ key, encodeEdgeKey key = encodeEdgeKey (src, dst, label) → key = (src, dst, label)) ↔
      '|' ∉ src.toList ∧ '|' ∉ dst.toList ∧ '|' ∉ label.toList) ∧
    ∀ key, ('|' ∉ src.toList ∧ '|' ∉ dst.toList ∧ label ≠ "") →
      ('|' ∉ key.1.toList ∧ '|' ∉ key.2.1.toList ∧ key.2.2 ≠ "") →
      encodeEdgeKey key = encodeEdgeKey (src, dst, label) → key = (src, dst, label) := by
  refine ⟨parse_encode_iff src dst label, encode_unique_iff src dst label, ?_⟩
  rintro ⟨s, d, l⟩ hthis hother hsame
  have hback := (parse_encode_iff src dst label).mpr hthis
  have hback' := (parse_encode_iff s d l).mpr hother
  rw [hsame, hback] at hback'
  exact (Option.some.inj hback').symm

/-- A key without separators comes back, and another one without separators has another
encoding. -/
theorem edgeKey_roundtrip_plain :
    parseEdgeKey (encodeEdgeKey ("a", "b", "KNOWS")) = some ("a", "b", "KNOWS") ∧
      encodeEdgeKey ("b", "a", "KNOWS") ≠ encodeEdgeKey ("a", "b", "KNOWS") := by
  have hroundtrip := edgeKey_roundtrip_iff "a" "b" "KNOWS"
  refine ⟨hroundtrip.1.mpr (by decide), fun hsame => ?_⟩
  have hkey := hroundtrip.2.2 ("b", "a", "KNOWS") (by decide) (by decide) hsame
  exact absurd hkey (by decide)

/-- A separator in a vertex key: the edge comes back as another one, and the two share an entry
of `E`. An empty label does not come back. -/
theorem edgeKeys_collide :
    parseEdgeKey (encodeEdgeKey ("a|b", "c", "L")) = some ("a", "b", "c|L") ∧
      encodeEdgeKey ("a|b", "c", "L") = encodeEdgeKey ("a", "b", "c|L") ∧
      parseEdgeKey (encodeEdgeKey ("a", "b", "")) = none := by
  decide

/-! ### The grammar of the parser -/

/-- A key that the parser returns encodes to the text that was parsed. Its endpoints hold no
separator and its label is not empty. -/
theorem wellFormed_of_parse {s : String} {key : EdgeKey} (h : parseEdgeKey s = some key) :
    encodeEdgeKey key = s ∧ '|' ∉ key.1.toList ∧ '|' ∉ key.2.1.toList ∧ key.2.2 ≠ "" := by
  have hencode := encode_parse h
  -- so the key comes back from its own encoding
  have hback : parseEdgeKey (encodeEdgeKey key) = some key := by rw [hencode, h]
  exact ⟨hencode, (parse_encode_iff key.1 key.2.1 key.2.2).mp hback⟩

/-- The parser accepts a text exactly when a separator with exactly one separator before it is
followed by a text. -/
theorem parse_isSome_iff (s : String) :
    (parseEdgeKey s).isSome ↔
      ∃ before after, s.toList = before ++ '|' :: after ∧ before.count '|' = 1 ∧ after ≠ [] := by
  constructor
  · intro hsome
    obtain ⟨key, hkey⟩ := Option.isSome_iff_exists.mp hsome
    obtain ⟨hencode, hsrc, hdst, hlabel⟩ := wellFormed_of_parse hkey
    -- the second separator is the one between the target and the label
    refine ⟨key.1.toList ++ '|' :: key.2.1.toList, key.2.2.toList, ?_, ?_, ?_⟩
    · rw [← hencode, toList_encodeEdgeKey key.1 key.2.1 key.2.2]
      simp
    · rw [List.count_append, List.count_cons_self, List.count_eq_zero.mpr hsrc,
        List.count_eq_zero.mpr hdst]
    · simpa using hlabel
  · rintro ⟨before, after, hs, hcount, hafter⟩
    have hmem : '|' ∈ before := List.count_pos_iff.mp (by omega)
    obtain ⟨src, dst, hbefore⟩ := List.append_of_mem hmem
    -- one separator is at the cut, so the parts on its two sides hold none
    rw [hbefore, List.count_append, List.count_cons_self] at hcount
    have hsrc : '|' ∉ src := List.count_eq_zero.mp (by omega)
    have hdst : '|' ∉ dst := List.count_eq_zero.mp (by omega)
    have hencode :
        encodeEdgeKey (String.ofList src, String.ofList dst, String.ofList after) = s := by
      apply String.toList_inj.mp
      rw [toList_encodeEdgeKey, hs, hbefore]
      simp
    have hparse := (parse_encode_iff (String.ofList src) (String.ofList dst)
      (String.ofList after)).mpr (by simp [hsrc, hdst, hafter])
    rw [← hencode, hparse]
    rfl

/-- The parser accepts exactly the texts with two separators and a text after the second one. The
key that it returns is rewritten to the text that was read, and its endpoints hold no
separator. -/
theorem parseEdgeKey_grammar (s : String) :
    ((parseEdgeKey s).isSome ↔
      ∃ before after, s.toList = before ++ '|' :: after ∧ before.count '|' = 1 ∧ after ≠ []) ∧
    ∀ key, parseEdgeKey s = some key →
      encodeEdgeKey key = s ∧ '|' ∉ key.1.toList ∧ '|' ∉ key.2.1.toList := by
  refine ⟨parse_isSome_iff s, ?_⟩
  intro key hkey
  obtain ⟨hencode, hsrc, hdst, _⟩ := wellFormed_of_parse hkey
  exact ⟨hencode, hsrc, hdst⟩

end GrafeoLoro.Proofs
