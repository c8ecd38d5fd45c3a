import GrafeoLoro.Lib.Exec
import GrafeoLoro.Sab.LayoutWriter

/-!
# `GrafeoLoro.Proofs.SabLayout`: the buffer holds a list of entries

What the buffer stands for is a list of `(y_offset, height)` pairs. `Stores` says that the buffer is
the encoding of the list with zero entries up to the capacity. `setLayout` writes one pair of the
list, and `recomputeOffsets` turns it into a list that is `Cascaded`.

* `stores_run`: after any calls the buffer holds such a list.
* `height_kept`, `entry_kept`: what a run leaves alone.
* `sabLayout_buffer`: the buffer and the three operations as the callers see them.
-/

set_option autoImplicit false

namespace GrafeoLoro.Proofs

open GrafeoLoro GrafeoLoro.Lib

/-- The bytes of an entry. -/
def encodeEntry (e : UInt32 × UInt32) : List UInt8 :=
  u32ToLe e.1 ++ u32ToLe e.2 ++ List.replicate 8 0

@[simp] theorem length_encodeEntry (e : UInt32 × UInt32) : (encodeEntry e).length = 16 := rfl

/-- The entries of the whole buffer: zeros behind the last entry. -/
def padded (capacity : Nat) (entries : List (UInt32 × UInt32)) : List (UInt32 × UInt32) :=
  entries ++ List.replicate (capacity - entries.length) (0, 0)

/-- The padding of an entry is zero. -/
theorem getElem?_encodeEntry_padding (e : UInt32 × UInt32) {k : Nat} (hlo : 8 ≤ k)
    (hhi : k < layoutEntryBytes) : (encodeEntry e)[k]? = some 0 := by
  have hlength : (u32ToLe e.1 ++ u32ToLe e.2).length = 8 := rfl
  unfold layoutEntryBytes at hhi
  rw [encodeEntry, List.getElem?_append_right (by omega), List.getElem?_replicate,
    if_pos (by omega)]

/-- The zero entry is all zeros. -/
theorem encodeEntry_zero : encodeEntry (0, 0) = List.replicate layoutEntryBytes 0 := rfl

/-- The bytes of some entries. -/
def encodeEntries (entries : List (UInt32 × UInt32)) : List UInt8 :=
  (entries.map encodeEntry).flatten

/-- The writer stores the entries. -/
structure Stores (capacity : Nat) (w : SabLayoutWriter) (entries : List (UInt32 × UInt32)) :
    Prop where
  buffer : w.buffer = encodeEntries (padded capacity entries)
  count : w.entryCount = entries.length
  fits : entries.length ≤ capacity
  alloc : capacity * layoutEntryBytes < 2 ^ 63

/-! ### Entries in the buffer -/

section
variable {entries : List (UInt32 × UInt32)} {i : Nat} {e : UInt32 × UInt32}

theorem width_encoded (entries : List (UInt32 × UInt32)) :
    ∀ r ∈ entries.map encodeEntry, r.length = layoutEntryBytes := by
  intro r hr
  obtain ⟨e, _, rfl⟩ := List.mem_map.mp hr
  rfl

theorem length_encodeEntries (entries : List (UInt32 × UInt32)) :
    (encodeEntries entries).length = entries.length * layoutEntryBytes := by
  rw [encodeEntries, length_flatten (width_encoded entries), List.length_map]

/-- A byte of an entry. -/
theorem getElem?_encodeEntries (he : entries[i]? = some e) {k : Nat} (hk : k < layoutEntryBytes) :
    (encodeEntries entries)[i * layoutEntryBytes + k]? = (encodeEntry e)[k]? := by
  rw [encodeEntries, getElem?_flatten (width_encoded entries) i hk, List.getElem?_map, he]
  rfl

/-- The offset of an entry is read. -/
theorem readF32_offset (he : entries[i]? = some e) :
    readF32 (encodeEntries entries) (i * layoutEntryBytes) = some e.1 := by
  have hbyte := fun k hk => getElem?_encodeEntries he (k := k) hk
  unfold readF32
  rw [← Nat.add_zero (i * layoutEntryBytes)]
  simp only [Nat.add_assoc]
  rw [hbyte _ (by decide), hbyte _ (by decide), hbyte _ (by decide), hbyte _ (by decide)]
  exact congrArg some (u32FromLe_toLe e.1)

/-- The height of an entry is read. -/
theorem readF32_height (he : entries[i]? = some e) :
    readF32 (encodeEntries entries) (i * layoutEntryBytes + 4) = some e.2 := by
  have hbyte := fun k hk => getElem?_encodeEntries he (k := k) hk
  unfold readF32
  simp only [Nat.add_assoc]
  rw [hbyte _ (by decide), hbyte _ (by decide), hbyte _ (by decide), hbyte _ (by decide)]
  exact congrArg some (u32FromLe_toLe e.2)

/-- A write of four bytes inside an entry. -/
theorem writeF32_entry (he : entries[i]? = some e) (f : UInt32) {off : Nat} {e' : UInt32 × UInt32}
    (hoff : off + 4 ≤ layoutEntryBytes)
    (hsplice : splice (encodeEntry e) off (u32ToLe f) = encodeEntry e') :
    writeF32 (encodeEntries entries) (i * layoutEntryBytes + off) f
      = some (encodeEntries (entries.set i e')) := by
  have hi := (List.getElem?_eq_some_iff.mp he).1
  have hlen : i * layoutEntryBytes + off + 4 ≤ (encodeEntries entries).length := by
    rw [length_encodeEntries]
    unfold layoutEntryBytes at *
    omega
  have hrecord : (entries.map encodeEntry)[i]? = some (encodeEntry e) := by
    rw [List.getElem?_map, he]
    rfl
  rw [writeF32, if_pos hlen, encodeEntries,
    splice_flatten (width_encoded entries) hrecord hoff, hsplice, encodeEntries, List.map_set]

/-- A write to the offset of an entry. -/
theorem writeF32_offset (he : entries[i]? = some e) (y : UInt32) :
    writeF32 (encodeEntries entries) (i * layoutEntryBytes) y
      = some (encodeEntries (entries.set i (y, e.2))) := by
  have hsplice : splice (encodeEntry e) 0 (u32ToLe y) = encodeEntry (y, e.2) := rfl
  exact writeF32_entry he y (by decide) hsplice

/-- A write to the height of an entry. -/
theorem writeF32_height (he : entries[i]? = some e) (h : UInt32) :
    writeF32 (encodeEntries entries) (i * layoutEntryBytes + 4) h
      = some (encodeEntries (entries.set i (e.1, h))) := by
  have hsplice : splice (encodeEntry e) 4 (u32ToLe h) = encodeEntry (e.1, h) := rfl
  exact writeF32_entry he h (by decide) hsplice

end

/-! ### The padded list -/

section
variable {capacity : Nat} {entries : List (UInt32 × UInt32)} {i : Nat}

theorem length_padded (hfits : entries.length ≤ capacity) :
    (padded capacity entries).length = capacity := by
  rw [padded, List.length_append, List.length_replicate]
  omega

/-- An entry of the list. -/
theorem getElem?_padded (hi : i < entries.length) :
    (padded capacity entries)[i]? = entries[i]? := by
  rw [padded, List.getElem?_append_left hi]

/-- Behind the list the entries are zero. -/
theorem getElem?_padded_tail (hi : entries.length ≤ i) (hcap : i < capacity) :
    (padded capacity entries)[i]? = some (0, 0) := by
  rw [padded, List.getElem?_append_right hi, List.getElem?_replicate, if_pos (by omega)]

/-- The list after a write at an index: one that is there, or the next one. -/
def setEntry (entries : List (UInt32 × UInt32)) (i : Nat) (e : UInt32 × UInt32) :
    List (UInt32 × UInt32) :=
  if i = entries.length then entries ++ [e] else entries.set i e

/-- A write at the end makes the list longer. -/
theorem length_setEntry (entries : List (UInt32 × UInt32)) (i : Nat) (e : UInt32 × UInt32) :
    (setEntry entries i e).length
      = if i = entries.length then entries.length + 1 else entries.length := by
  unfold setEntry
  split
  · exact List.length_append
  · exact List.length_set

/-- The entry that was written. -/
theorem getElem?_setEntry_self (hi : i ≤ entries.length) (e : UInt32 × UInt32) :
    (setEntry entries i e)[i]? = some e := by
  unfold setEntry
  split
  · rename_i heq
    rw [heq, List.getElem?_concat_length]
  · rw [List.getElem?_set_self (by omega)]

/-- The other entries. -/
theorem getElem?_setEntry_of_ne (e : UInt32 × UInt32) {j : Nat} (hj : j ≠ i) :
    (setEntry entries i e)[j]? = entries[j]? := by
  unfold setEntry
  split
  · rename_i heq
    cases Nat.lt_or_ge j entries.length with
    | inl hlt => rw [List.getElem?_append_left hlt]
    | inr hge =>
      rw [List.getElem?_eq_none hge, List.getElem?_eq_none]
      rw [List.length_append, List.length_singleton]
      omega
  · rw [List.getElem?_set_ne (Ne.symm hj)]

/-- A write to the buffer is a write to the list. -/
theorem padded_set (hi : i ≤ entries.length) (hcap : i < capacity) (e : UInt32 × UInt32) :
    (padded capacity entries).set i e = padded capacity (setEntry entries i e) := by
  unfold padded setEntry
  split
  · rename_i heq
    -- the first of the zero entries is overwritten
    have hzeros : List.replicate (capacity - entries.length) ((0, 0) : UInt32 × UInt32)
        = (0, 0) :: List.replicate (capacity - (entries ++ [e]).length) (0, 0) := by
      rw [← List.replicate_succ]
      congr 1
      rw [List.length_append, List.length_singleton]
      omega
    rw [hzeros, heq, List.set_append_right _ _ (Nat.le_refl _), Nat.sub_self, List.set_cons_zero,
      List.append_assoc, List.singleton_append]
  · rw [List.set_append_left _ _ (by omega), List.length_set]

end

/-! ### The operations on the list -/

section
variable {capacity : Nat} {w : SabLayoutWriter} {entries : List (UInt32 × UInt32)}

/-- A new writer stores no entry. -/
theorem stores_new (hnew : SabLayoutWriter.new capacity = some w) : Stores capacity w [] := by
  simp only [SabLayoutWriter.new, checkedMul] at hnew
  split at hnew
  · rw [Option.bind_eq_bind, Option.bind_some] at hnew
    split at hnew
    · rename_i halloc
      obtain rfl := Option.some.inj hnew
      constructor
      case buffer =>
        -- sixteen zeros are the encoding of the zero entry
        rw [padded, List.nil_append, List.length_nil, Nat.sub_zero, encodeEntries,
          List.map_replicate, encodeEntry_zero, List.flatten_replicate_replicate]
      case count => rfl
      case fits => exact Nat.zero_le capacity
      case alloc => exact halloc
    · cases hnew
  · cases hnew

/-- An entry is read. -/
theorem Stores.getLayout (h : Stores capacity w entries) (i : Nat) :
    w.getLayout i = some entries[i]? := by
  unfold SabLayoutWriter.getLayout
  rw [h.count, h.buffer]
  dsimp only
  split
  · rename_i hi
    rw [List.getElem?_eq_none hi]
  · rename_i hi
    have he : (padded capacity entries)[i]? = some entries[i] := by
      rw [getElem?_padded (by omega), List.getElem?_eq_getElem]
    rw [readF32_offset he, readF32_height he, List.getElem?_eq_getElem (by omega)]
    rfl

/-- A call of `setLayout` in range writes one entry of the list. -/
theorem Stores.setLayout (h : Stores capacity w entries) {i : Nat} (hi : i ≤ entries.length)
    (hcap : i < capacity) (y height : UInt32) :
    ∃ w', w.setLayout i y height = some w' ∧
      Stores capacity w' (setEntry entries i (y, height)) := by
  have halloc := h.alloc
  have hend : (i + 1) * layoutEntryBytes ≤ capacity * layoutEntryBytes :=
    Nat.mul_le_mul_right _ hcap
  rw [Nat.succ_mul] at hend
  have hlt : i < (padded capacity entries).length := by rw [length_padded h.fits]; exact hcap
  have hbuffer : (i * layoutEntryBytes + layoutEntryBytes) % 2 ^ 64
      ≤ (encodeEntries (padded capacity entries)).length := by
    rw [length_encodeEntries, length_padded h.fits, Nat.mod_eq_of_lt (by omega)]
    exact hend
  -- first the offset is written, and then the height of the same entry
  have hfirst := writeF32_offset (List.getElem?_eq_getElem hlt) y
  have hwritten : ((padded capacity entries).set i (y, (padded capacity entries)[i].2))[i]?
      = some (y, (padded capacity entries)[i].2) := by
    rw [List.getElem?_set_self hlt]
  have hsecond := writeF32_height hwritten height
  rw [List.set_set] at hsecond
  have hstored := padded_set hi hcap (y, height)
  refine ⟨⟨encodeEntries (padded capacity (setEntry entries i (y, height))),
    (setEntry entries i (y, height)).length⟩, ?_, rfl, rfl, ?_, halloc⟩
  · unfold SabLayoutWriter.setLayout checkedMul
    rw [h.count, h.buffer, if_pos hi, if_pos (by omega), Option.bind_eq_bind, Option.bind_some,
      if_pos hbuffer, hfirst]
    dsimp only [bind, Option.bind_some, pure]
    rw [hsecond, Option.bind_some, ← hstored, length_setEntry]
  · have hfits := h.fits
    rw [length_setEntry]
    split <;> omega

/-- A call of `setLayout` out of range panics. -/
theorem Stores.setLayout_none (h : Stores capacity w entries) {i : Nat}
    (hout : ¬ (i ≤ entries.length ∧ i < capacity)) (y height : UInt32) :
    w.setLayout i y height = none := by
  have halloc := h.alloc
  have hfits := h.fits
  unfold SabLayoutWriter.setLayout checkedMul
  rw [h.count, h.buffer]
  split
  · rename_i hi
    -- the index is the capacity, so the entry does not fit into the buffer
    obtain rfl : i = capacity := by omega
    rw [if_pos (by omega), Option.bind_eq_bind, Option.bind_some, if_neg]
    rw [length_encodeEntries, length_padded h.fits, Nat.mod_eq_of_lt]
    · unfold layoutEntryBytes
      omega
    · unfold layoutEntryBytes at *
      omega
  · rfl

/-! ### The cascade -/

/-- The list after the offsets from entry `start` on are computed again: the lengths and the heights
are the same, and so are the entries before `start`. From `start` on each offset is the sum of the
entry before it. -/
structure Cascaded (add : UInt32 → UInt32 → UInt32) (start : Nat)
    (entries entries' : List (UInt32 × UInt32)) : Prop where
  length : entries'.length = entries.length
  before : ∀ i < start, entries'[i]? = entries[i]?
  heights : entries'.map Prod.snd = entries.map Prod.snd
  sums : ∀ i, start ≤ i → i < entries.length → ∀ e e',
    entries'[i - 1]? = some e → entries'[i]? = some e' → e'.1 = add e.1 e.2

variable {add : UInt32 → UInt32 → UInt32}

/-- Behind the last entry there is nothing to compute. -/
theorem Cascaded.nothing {start : Nat} (h : entries.length ≤ start) :
    Cascaded add start entries entries := by
  refine ⟨rfl, fun _ _ => rfl, rfl, ?_⟩
  intro i hi hlt
  omega

/-- The offset of entry `i` is computed first, and then the ones after it. -/
theorem Cascaded.of_round {i : Nat} {entries' : List (UInt32 × UInt32)}
    (hprev : i - 1 < entries.length) (hcur : i < entries.length) (hpos : 1 ≤ i)
    (h : Cascaded add (i + 1)
      (entries.set i (add entries[i - 1].1 entries[i - 1].2, entries[i].2)) entries') :
    Cascaded add i entries entries' := by
  constructor
  case length => rw [h.length, List.length_set]
  case before =>
    intro j hj
    rw [h.before j (by omega), List.getElem?_set_ne (by omega)]
  case heights =>
    rw [h.heights, List.map_set]
    have hheight : (entries.map Prod.snd)[i]? = some entries[i].2 := by
      rw [List.getElem?_map, List.getElem?_eq_getElem hcur]
      rfl
    obtain ⟨hlt, heq⟩ := List.getElem?_eq_some_iff.mp hheight
    rw [← heq]
    exact List.set_getElem_self hlt
  case sums =>
    intro j hj hlt e e' he he'
    by_cases heq : j = i
    · -- the new offset, and the entry before it, which no round after this one writes
      subst heq
      rw [h.before j (by omega), List.getElem?_set_self hcur] at he'
      rw [h.before (j - 1) (by omega), List.getElem?_set_ne (by omega),
        List.getElem?_eq_getElem hprev] at he
      rw [← Option.some.inj he', ← Option.some.inj he]
    · exact h.sums j (by omega) (by rw [List.length_set]; exact hlt) e e' he he'

/-- The loop computes the offsets from entry `i` on. -/
theorem cascade_spec (hfits : entries.length ≤ capacity) (rounds i : Nat) (hi : 1 ≤ i)
    (hrounds : i + rounds = entries.length) :
    ∃ entries', SabLayoutWriter.cascade add rounds i (encodeEntries (padded capacity entries))
        = some (encodeEntries (padded capacity entries')) ∧
      Cascaded add i entries entries' := by
  induction rounds generalizing i entries with
  | zero =>
    refine ⟨entries, rfl, rfl, fun _ _ => rfl, rfl, ?_⟩
    intro j hj hlt
    omega
  | succ rounds ih =>
    have hprev : i - 1 < entries.length := by omega
    have hcur : i < entries.length := by omega
    have hread : (padded capacity entries)[i - 1]? = some entries[i - 1] := by
      rw [getElem?_padded hprev, List.getElem?_eq_getElem]
    have hwrite : (padded capacity entries)[i]? = some entries[i] := by
      rw [getElem?_padded hcur, List.getElem?_eq_getElem]
    -- the round writes the sum of the entry before, and the other rounds read it
    have hset : setEntry entries i (add entries[i - 1].1 entries[i - 1].2, entries[i].2)
        = entries.set i (add entries[i - 1].1 entries[i - 1].2, entries[i].2) := by
      rw [setEntry, if_neg (by omega)]
    have hround := writeF32_offset hwrite (add entries[i - 1].1 entries[i - 1].2)
    rw [padded_set (by omega) (by omega), hset] at hround
    have hlength : (entries.set i
        (add entries[i - 1].1 entries[i - 1].2, entries[i].2)).length = entries.length :=
      List.length_set
    obtain ⟨entries', hloop, hlater⟩ :=
      ih (Nat.le_trans (Nat.le_of_eq hlength) hfits) (i + 1) (by omega) (by omega)
    refine ⟨entries', ?_, ?_⟩
    · rw [SabLayoutWriter.cascade, readF32_offset hread, readF32_height hread]
      dsimp only [bind, Option.bind_some]
      rw [hround, Option.bind_some, hloop]
    · exact hlater.of_round hprev hcur hi

/-- A call of `recomputeOffsets` computes the offsets again. -/
theorem Stores.recomputeOffsets (h : Stores capacity w entries)
    (add : UInt32 → UInt32 → UInt32) (start : Nat) :
    ∃ w' entries', w.recomputeOffsets add start = some w' ∧ Stores capacity w' entries' ∧
      Cascaded add (max start 1) entries entries' := by
  unfold SabLayoutWriter.recomputeOffsets
  rw [h.count]
  split
  · rename_i hnothing
    exact ⟨w, entries, rfl, h, .nothing (by omega)⟩
  · rename_i hsome
    have hfirst : (if start = 0 then 1 else start) = max start 1 := by
      split <;> omega
    dsimp only
    rw [hfirst, h.buffer]
    obtain ⟨entries', hloop, hcascaded⟩ := cascade_spec h.fits (entries.length - max start 1)
      (max start 1) (Nat.le_max_right _ _) (by omega)
    rw [hloop]
    refine ⟨_, entries', rfl, ?_, hcascaded⟩
    exact ⟨rfl, hcascaded.length.symm, Nat.le_trans (Nat.le_of_eq hcascaded.length) h.fits, h.alloc⟩

/-! ### Runs -/

/-- A call of `setLayout` that succeeds is in range, and writes one entry of the list. -/
theorem Stores.of_setLayout (h : Stores capacity w entries) {i : Nat} {y height : UInt32}
    {w' : SabLayoutWriter} (hset : w.setLayout i y height = some w') :
    (i ≤ entries.length ∧ i < capacity) ∧
      Stores capacity w' (setEntry entries i (y, height)) := by
  by_cases hin : i ≤ entries.length ∧ i < capacity
  · obtain ⟨w₁, hset₁, hstores⟩ := h.setLayout hin.1 hin.2 y height
    obtain rfl := Option.some.inj (hset₁.symm.trans hset)
    exact ⟨hin, hstores⟩
  · rw [h.setLayout_none hin] at hset
    cases hset

/-- One call writes an entry of the list, or computes the offsets again. -/
theorem Stores.next (h : Stores capacity w entries) {call : LayoutCall} {w' : SabLayoutWriter}
    (hnext : w.next add call = some w') :
    ∃ entries', Stores capacity w' entries' ∧
      ((∃ i y height, call = .setLayout i y height ∧
          entries' = setEntry entries i (y, height)) ∨
        ∃ start, call = .recomputeOffsets start ∧
          Cascaded add (max start 1) entries entries') := by
  cases call with
  | setLayout i y height =>
    have hcall : w.setLayout i y height = some w' := hnext
    exact ⟨_, (h.of_setLayout hcall).2, .inl ⟨i, y, height, rfl, rfl⟩⟩
  | recomputeOffsets start =>
    have hcall : w.recomputeOffsets add start = some w' := hnext
    obtain ⟨w₁, entries', hcompute, hstores, hcascaded⟩ := h.recomputeOffsets add start
    obtain rfl := Option.some.inj (hcompute.symm.trans hcall)
    exact ⟨entries', hstores, .inr ⟨start, rfl, hcascaded⟩⟩

/-- After any calls the writer stores a list of entries. -/
theorem stores_run {w₀ : SabLayoutWriter} (hnew : SabLayoutWriter.new capacity = some w₀)
    {h : List (SabLayoutWriter × LayoutCall)} (hexec : Exec (SabLayoutWriter.next add) w₀ h w) :
    ∃ entries, Stores capacity w entries := by
  apply hexec.invariant (I := fun w => ∃ entries, Stores capacity w entries)
  · rintro w call w' hnext ⟨entries, hstores⟩
    obtain ⟨entries', hstores', _⟩ := hstores.next hnext
    exact ⟨entries', hstores'⟩
  · exact ⟨[], stores_new hnew⟩

/-- The call does not write entry `i`. -/
def NotWriting (i : Nat) (call : LayoutCall) : Prop :=
  ∀ y height, call ≠ .setLayout i y height

/-- The call does not compute the offset of entry `i`. -/
def NotCascading (i : Nat) (call : LayoutCall) : Prop :=
  ∀ start, call = .recomputeOffsets start → i < max start 1

/-- A call that does not write an entry keeps its height, and one that does not compute its offset
either keeps the entry. -/
theorem Stores.next_entry (h : Stores capacity w entries) {call : LayoutCall}
    {w' : SabLayoutWriter} (hnext : w.next add call = some w') {i : Nat}
    (hcall : NotWriting i call) :
    ∃ entries', Stores capacity w' entries' ∧
      entries'[i]?.map Prod.snd = entries[i]?.map Prod.snd ∧
      (NotCascading i call → entries'[i]? = entries[i]?) := by
  obtain ⟨entries', hstores, hwhat⟩ := h.next hnext
  refine ⟨entries', hstores, ?_⟩
  rcases hwhat with ⟨j, y, height, rfl, rfl⟩ | ⟨start, hcascade, hcascaded⟩
  · -- another entry is written
    have hne : i ≠ j := by
      intro heq
      exact hcall y height (by rw [heq])
    have hsame : (setEntry entries j (y, height))[i]? = entries[i]? :=
      getElem?_setEntry_of_ne _ hne
    exact ⟨by rw [hsame], fun _ => hsame⟩
  · constructor
    · rw [← List.getElem?_map, hcascaded.heights, List.getElem?_map]
    · intro hspared
      exact hcascaded.before i (hspared start hcascade)

/-- The height of an entry stays until the entry is written again. -/
theorem height_kept {w' : SabLayoutWriter} {h : List (SabLayoutWriter × LayoutCall)}
    (hexec : Exec (SabLayoutWriter.next add) w h w') {i : Nat} {height : Option UInt32}
    (hstores : ∃ entries, Stores capacity w entries ∧ entries[i]?.map Prod.snd = height)
    (hother : Steps (fun _ call => NotWriting i call) h) :
    ∃ entries, Stores capacity w' entries ∧ entries[i]?.map Prod.snd = height := by
  apply (hexec.invariant_of_steps _ hstores hother).2
  rintro w call w' hnext hcall ⟨entries, hs, hheight⟩
  obtain ⟨entries', hs', hsame, _⟩ := hs.next_entry hnext hcall
  exact ⟨entries', hs', hsame.trans hheight⟩

/-- An entry stays until it is written again or its offset is computed again. -/
theorem entry_kept {w' : SabLayoutWriter} {h : List (SabLayoutWriter × LayoutCall)}
    (hexec : Exec (SabLayoutWriter.next add) w h w') {i : Nat} {e : Option (UInt32 × UInt32)}
    (hstores : ∃ entries, Stores capacity w entries ∧ entries[i]? = e)
    (hother : Steps (fun _ call => NotWriting i call ∧ NotCascading i call) h) :
    ∃ entries, Stores capacity w' entries ∧ entries[i]? = e := by
  apply (hexec.invariant_of_steps _ hstores hother).2
  rintro w call w' hnext ⟨hcall, hspared⟩ ⟨entries, hs, he⟩
  obtain ⟨entries', hs', _, hsame⟩ := hs.next_entry hnext hcall
  exact ⟨entries', hs', (hsame hspared).trans he⟩

/-! ### The buffer as the callers see it -/

/-- The buffer has the length of the capacity, and the count fits. The padding and everything behind
the last entry are zero. -/
structure BufferOk (capacity : Nat) (w : SabLayoutWriter) : Prop where
  length : w.buffer.length = capacity * layoutEntryBytes
  count : w.entryCount ≤ capacity
  padding : ∀ i < capacity, ∀ k, 8 ≤ k → k < layoutEntryBytes →
    w.buffer[i * layoutEntryBytes + k]? = some 0
  tail : ∀ p, w.entryCount * layoutEntryBytes ≤ p → p < capacity * layoutEntryBytes →
    w.buffer[p]? = some 0

/-- What `recompute_offsets` does from entry `first` on: no height changes, no entry before `first`
changes, and each offset from `first` on is the sum of the entry before it. -/
structure Recomputed (add : UInt32 → UInt32 → UInt32) (first : Nat) (w w' : SabLayoutWriter) :
    Prop where
  count : w'.entryCount = w.entryCount
  before : ∀ i < first, w'.getLayout i = w.getLayout i
  heights : ∀ i < w.entryCount, ∃ y y' height,
    w.getLayout i = some (some (y, height)) ∧ w'.getLayout i = some (some (y', height))
  sums : ∀ i, first ≤ i → i < w.entryCount → ∃ y height height',
    w'.getLayout (i - 1) = some (some (y, height)) ∧
      w'.getLayout i = some (some (add y height, height'))

/-- A writer that stores entries has a well-formed buffer. -/
theorem Stores.bufferOk (h : Stores capacity w entries) : BufferOk capacity w := by
  constructor
  case length => rw [h.buffer, length_encodeEntries, length_padded h.fits]
  case count => rw [h.count]; exact h.fits
  case padding =>
    intro i hi k hlo hhi
    have hlt : i < (padded capacity entries).length := by rw [length_padded h.fits]; exact hi
    rw [h.buffer, getElem?_encodeEntries (List.getElem?_eq_getElem hlt) hhi]
    exact getElem?_encodeEntry_padding _ hlo hhi
  case tail =>
    intro p hlo hhi
    -- the byte `p % 16` of the entry `p / 16`
    have hk : p % layoutEntryBytes < layoutEntryBytes := Nat.mod_lt p (by decide)
    have hp : p / layoutEntryBytes * layoutEntryBytes + p % layoutEntryBytes = p := by
      rw [Nat.mul_comm]
      exact Nat.div_add_mod p layoutEntryBytes
    have hentry : (padded capacity entries)[p / layoutEntryBytes]? = some (0, 0) := by
      apply getElem?_padded_tail
      · rw [h.count] at hlo
        exact (Nat.le_div_iff_mul_le (by decide)).mpr hlo
      · exact (Nat.div_lt_iff_lt_mul (by decide)).mpr hhi
    rw [h.buffer, ← hp, getElem?_encodeEntries hentry hk, encodeEntry_zero,
      List.getElem?_replicate, if_pos hk]

/-- A cascade of the list, as the callers see it. -/
theorem Cascaded.recomputed {w' : SabLayoutWriter} {entries' : List (UInt32 × UInt32)} {first : Nat}
    (hcascaded : Cascaded add first entries entries') (hpos : 1 ≤ first)
    (h : Stores capacity w entries) (h' : Stores capacity w' entries') :
    Recomputed add first w w' := by
  have hlength := hcascaded.length
  constructor
  case count => rw [h'.count, h.count, hlength]
  case before =>
    intro i hi
    rw [h'.getLayout, h.getLayout, hcascaded.before i hi]
  case heights =>
    intro i hi
    rw [h.count] at hi
    have hi' : i < entries'.length := by omega
    have hheight := congrArg (fun l => l[i]?) hcascaded.heights
    rw [List.getElem?_map, List.getElem?_map, List.getElem?_eq_getElem hi,
      List.getElem?_eq_getElem hi', Option.map_some, Option.map_some, Option.some.injEq] at hheight
    refine ⟨entries[i].1, entries'[i].1, entries[i].2, ?_, ?_⟩
    · rw [h.getLayout, List.getElem?_eq_getElem hi]
    · rw [h'.getLayout, List.getElem?_eq_getElem hi', ← hheight]
  case sums =>
    intro i hfirst hi
    rw [h.count] at hi
    have hi' : i < entries'.length := by omega
    have hprev : i - 1 < entries'.length := by omega
    have hsum := hcascaded.sums i hfirst hi _ _ (List.getElem?_eq_getElem hprev)
      (List.getElem?_eq_getElem hi')
    refine ⟨entries'[i - 1].1, entries'[i - 1].2, entries'[i].2, ?_, ?_⟩
    · rw [h'.getLayout, List.getElem?_eq_getElem hprev]
    · rw [h'.getLayout, List.getElem?_eq_getElem hi', ← hsum]

/-- For every capacity and every sequence of calls that do not panic: the buffer is well formed, and
`get_layout` returns an entry exactly below the count. A call of `set_layout` succeeds exactly when
the index is in range. Then the entry is read as it was written, and the others are as before.
`recompute_offsets` succeeds and computes the offsets. The height of an entry is the one of the last
`set_layout` of this entry, and so is the offset unless it was computed since. -/
theorem sabLayout_buffer (add : UInt32 → UInt32 → UInt32) {capacity : Nat} {w₀ w : SabLayoutWriter}
    (hnew : SabLayoutWriter.new capacity = some w₀) {h : List (SabLayoutWriter × LayoutCall)}
    (hexec : Exec (SabLayoutWriter.next add) w₀ h w) :
    BufferOk capacity w ∧
    (∀ i, ∃ entry, w.getLayout i = some entry ∧ (entry.isSome ↔ i < w.entryCount)) ∧
    (∀ i y height, (w.setLayout i y height).isSome ↔ i ≤ w.entryCount ∧ i < capacity) ∧
    (∀ i y height w', w.setLayout i y height = some w' →
      w'.getLayout i = some (some (y, height)) ∧ ∀ j ≠ i, w'.getLayout j = w.getLayout j) ∧
    (∀ start, ∃ w', w.recomputeOffsets add start = some w' ∧
      Recomputed add (max start 1) w w') ∧
    ∀ before u i y height after, h = before ++ (u, .setLayout i y height) :: after →
      Steps (fun _ call => NotWriting i call) after →
      (∃ y', w.getLayout i = some (some (y', height))) ∧
        (Steps (fun _ call => NotCascading i call) after →
          w.getLayout i = some (some (y, height))) := by
  obtain ⟨entries, hstores⟩ := stores_run hnew hexec
  refine ⟨hstores.bufferOk, ?_, ?_, ?_, ?_, ?_⟩
  · intro i
    refine ⟨entries[i]?, hstores.getLayout i, ?_⟩
    rw [hstores.count]
    simp
  · intro i y height
    rw [hstores.count]
    constructor
    · intro hsome
      obtain ⟨w', hset⟩ := Option.isSome_iff_exists.mp hsome
      exact (hstores.of_setLayout hset).1
    · intro hin
      obtain ⟨w', hset, _⟩ := hstores.setLayout hin.1 hin.2 y height
      rw [hset]
      rfl
  · intro i y height w' hset
    obtain ⟨hin, hstores'⟩ := hstores.of_setLayout hset
    constructor
    · rw [hstores'.getLayout, getElem?_setEntry_self hin.1]
    · intro j hj
      rw [hstores'.getLayout, hstores.getLayout, getElem?_setEntry_of_ne _ hj]
  · intro start
    obtain ⟨w', entries', hcompute, hstores', hcascaded⟩ := hstores.recomputeOffsets add start
    exact ⟨w', hcompute, hcascaded.recomputed (Nat.le_max_right _ _) hstores hstores'⟩
  · rintro before u i y height after rfl hother
    -- the state after the call has the entry, and the rest of the run keeps it
    obtain ⟨w₁, hbefore, hset, hafter⟩ := hexec.cut
    obtain ⟨entries₀, hstores₀⟩ := stores_run hnew hbefore
    obtain ⟨hin, hstores₁⟩ := hstores₀.of_setLayout hset
    have hentry := getElem?_setEntry_self hin.1 (y, height)
    constructor
    · obtain ⟨entries', hstores', hheight⟩ :=
        height_kept hafter ⟨_, hstores₁, congrArg (Option.map Prod.snd) hentry⟩ hother
      obtain ⟨e, he, rfl⟩ := Option.map_eq_some_iff.mp hheight
      exact ⟨e.1, by rw [hstores'.getLayout, he]⟩
    · intro hspared
      obtain ⟨entries', hstores', he⟩ := entry_kept hafter ⟨_, hstores₁, hentry⟩
        fun p hp => ⟨hother p hp, hspared p hp⟩
      rw [hstores'.getLayout, he]

end

/-- Two entries, the second one with a wrong offset, and a cascade from it. -/
theorem sabLayout_buffer_two :
    ∃ h w, Exec (SabLayoutWriter.next (· + ·)) ⟨List.replicate 32 0, 0⟩ h w ∧ BufferOk 2 w ∧
      ∃ w', w.recomputeOffsets (· + ·) 1 = some w' ∧ w'.entryCount = 2 := by
  have hnew : SabLayoutWriter.new 2 = some ⟨List.replicate 32 0, 0⟩ := rfl
  have hrun : runActions (SabLayoutWriter.next (· + ·)) ⟨List.replicate 32 0, 0⟩
      [.setLayout 0 0 10, .setLayout 1 999 20]
      = some ⟨[0, 0, 0, 0, 10, 0, 0, 0, 0, 0, 0, 0, 0, 0, 0, 0,
          231, 3, 0, 0, 20, 0, 0, 0, 0, 0, 0, 0, 0, 0, 0, 0], 2⟩ := rfl
  obtain ⟨h, hexec, _⟩ := exec_of_run hrun
  obtain ⟨hok, _, _, _, hcompute, _⟩ := sabLayout_buffer (· + ·) hnew hexec
  obtain ⟨w', hw', hrecomputed⟩ := hcompute 1
  exact ⟨h, _, hexec, hok, w', hw', hrecomputed.count⟩

end GrafeoLoro.Proofs
