import GrafeoLoro.Types.NodeIdTable
import GrafeoLoro.Lib.FirstOccurrence
import GrafeoLoro.Lib.Inverse

/-!
# `GrafeoLoro.Proofs.NodeIdTable`: the table is a growing bijection

What the table stands for is a list of keys without repetitions: the id of a key is its position,
and a new key goes to the end. `StoresNames` says that a table stores such a list, and
`internAll_storesNames` that after any calls it stores the keys in order of first occurrence.

* `nodeIdTable_bijection`: the two maps are inverse, the ids count up, no id changes, and the
  lookups return these bindings.
-/

set_option autoImplicit false

namespace GrafeoLoro.Proofs

open GrafeoLoro GrafeoLoro.Lib

/-- The table stores the keys of a list with their positions as ids. -/
structure StoresNames (t : NodeIdTable) (names : List String) : Prop where
  forward : ∀ key id, t.strToId.lookup key = some id ↔ names[id.toNat]? = some key
  backward : ∀ id, t.idToStr.lookup id = names[id.toNat]?
  next : t.nextId.toNat = names.length

namespace StoresNames

variable {t : NodeIdTable} {names : List String}

/-- The empty table stores no key. -/
theorem new : StoresNames NodeIdTable.new [] := by
  constructor
  case forward =>
    intro key id
    simp [NodeIdTable.new]
  case backward =>
    intro id
    simp [NodeIdTable.new]
  case next => rfl

/-- A stored key is bound to its position. -/
theorem lookup_of_getElem? (h : StoresNames t names) {i : Nat} {key : String}
    (hi : names[i]? = some key) : t.strToId.lookup key = some (UInt64.ofNat i) := by
  have hlt := (List.getElem?_eq_some_iff.mp hi).1
  -- the positions are below the counter, so they fit into a `u64`
  have hfit : i < 2 ^ 64 := by
    have hnext := t.nextId.toNat_lt
    rw [h.next] at hnext
    omega
  rw [h.forward, UInt64.toNat_ofNat_of_lt' hfit]
  exact hi

/-- The keys of the table are the stored keys. -/
theorem keys (h : StoresNames t names) : t.strToId.keys = names.toFinset := by
  ext key
  rw [Finmap.mem_keys, Finmap.mem_iff, List.mem_toFinset]
  constructor
  · rintro ⟨id, hid⟩
    exact List.mem_of_getElem? ((h.forward key id).mp hid)
  · intro hmem
    obtain ⟨i, hi⟩ := List.mem_iff_getElem?.mp hmem
    exact ⟨_, h.lookup_of_getElem? hi⟩

/-- The two maps are inverse. -/
theorem mutualInverse (h : StoresNames t names) : MutualInverse t.strToId t.idToStr := by
  intro key id
  rw [h.forward, h.backward]

/-- A call with a stored key changes nothing. -/
theorem intern_of_mem (h : StoresNames t names) {key : String} (hmem : key ∈ names) :
    (t.intern key).2 = t := by
  obtain ⟨i, hi⟩ := List.mem_iff_getElem?.mp hmem
  unfold NodeIdTable.intern
  rw [h.lookup_of_getElem? hi]

/-- A call with a new key stores it at the end. -/
theorem intern_of_notMem (h : StoresNames t names) {key : String} (hnew : key ∉ names)
    (hroom : names.length + 1 < 2 ^ 64) : StoresNames (t.intern key).2 (names ++ [key]) := by
  have hlookup : t.strToId.lookup key = none := by
    rw [Finmap.lookup_eq_none, ← Finmap.mem_keys, h.keys, List.mem_toFinset]
    exact hnew
  -- the new position is the counter
  have hposition : ∀ id : UInt64,
      (names ++ [key])[id.toNat]? = if id = t.nextId then some key else names[id.toNat]? := by
    intro id
    split
    · rename_i hid
      rw [hid, h.next, List.getElem?_concat_length]
    · rename_i hid
      have hne : id.toNat ≠ names.length := by
        rw [← h.next]
        exact fun heq => hid (UInt64.toNat_inj.mp heq)
      rw [List.getElem?_append]
      split
      · rfl
      · rw [List.getElem?_eq_none_iff.mpr, List.getElem?_eq_none_iff.mpr]
        · omega
        · rw [List.length_singleton]
          omega
  unfold NodeIdTable.intern
  rw [hlookup]
  constructor
  case forward =>
    intro key' id
    rw [finmap_lookup_insert, hposition]
    by_cases hkey : key' = key
    · rw [if_pos hkey, hkey, Option.some.injEq]
      split
      · rename_i hid
        simp [hid]
      · rename_i hid
        constructor
        · exact fun heq => absurd heq.symm hid
        · exact fun hold => absurd (List.mem_of_getElem? hold) hnew
    · rw [if_neg hkey, h.forward]
      split
      · rename_i hid
        rw [hid, h.next, List.getElem?_eq_none (Nat.le_refl _)]
        simp [Ne.symm hkey]
      · rfl
  case backward =>
    intro id
    rw [finmap_lookup_insert, hposition, h.backward]
  case next =>
    show (t.nextId + 1).toNat = (names ++ [key]).length
    rw [UInt64.toNat_add, h.next, List.length_append]
    exact Nat.mod_eq_of_lt hroom

end StoresNames

/-- A call returns the binding of its key in the table after the call. -/
theorem lookupByStr_intern (t : NodeIdTable) (key : String) :
    (t.intern key).2.lookupByStr key = some (t.intern key).1 := by
  unfold NodeIdTable.intern NodeIdTable.lookupByStr
  cases hlookup : t.strToId.lookup key with
  | none => exact Finmap.lookup_insert _
  | some id => exact hlookup

/-! ### The table after a run -/

/-- One more call. -/
theorem internAll_concat (keys : List String) (key : String) :
    NodeIdTable.internAll (keys ++ [key]) = ((NodeIdTable.internAll keys).intern key).2 := by
  unfold NodeIdTable.internAll
  rw [List.foldl_append]
  rfl

/-- The first calls of a run have no more different keys than the run. -/
theorem card_toFinset_le_append (keys more : List String) :
    keys.toFinset.card ≤ (keys ++ more).toFinset.card := by
  apply Finset.card_le_card
  rw [List.toFinset_append]
  exact Finset.subset_union_left

/-- After any calls the table stores the keys in order of first occurrence. -/
theorem internAll_storesNames (keys : List String) (hroom : keys.toFinset.card < 2 ^ 64) :
    StoresNames (NodeIdTable.internAll keys) keys.eraseDups := by
  induction keys using List.reverseRecOn with
  | nil => exact .new
  | append_singleton keys key ih =>
    have hkeys := ih ((card_toFinset_le_append keys [key]).trans_lt hroom)
    rw [← length_eraseDups] at hroom
    rw [internAll_concat]
    rw [eraseDups_concat] at hroom ⊢
    split
    · rename_i hmem
      rw [hkeys.intern_of_mem (List.mem_eraseDups.mpr hmem)]
      exact hkeys
    · rename_i hnew
      rw [if_neg hnew, List.length_append, List.length_singleton] at hroom
      exact hkeys.intern_of_notMem (fun hmem => hnew (List.mem_eraseDups.mp hmem)) hroom

/-- The id of a key is the number of different keys before its first occurrence. -/
theorem lookupByStr_internAll_iff {keys : List String} (hroom : keys.toFinset.card < 2 ^ 64)
    (key : String) (id : UInt64) :
    (NodeIdTable.internAll keys).lookupByStr key = some id ↔
      ∃ before after, keys = before ++ key :: after ∧ key ∉ before ∧
        id.toNat = before.toFinset.card := by
  rw [← getElem?_eraseDups_iff]
  exact (internAll_storesNames keys hroom).forward key id

/-- A binding stays when more keys come. -/
theorem lookupByStr_internAll_append {keys more : List String}
    (hroom : (keys ++ more).toFinset.card < 2 ^ 64) {key : String} {id : UInt64}
    (h : (NodeIdTable.internAll keys).lookupByStr key = some id) :
    (NodeIdTable.internAll (keys ++ more)).lookupByStr key = some id := by
  have hfirst := (card_toFinset_le_append keys more).trans_lt hroom
  rw [lookupByStr_internAll_iff hfirst] at h
  obtain ⟨before, after, hkeys, hnew, hid⟩ := h
  -- the first occurrence of the key stays where it is
  rw [lookupByStr_internAll_iff hroom]
  refine ⟨before, after ++ more, ?_, hnew, hid⟩
  rw [hkeys, List.append_assoc, List.cons_append]

/-- The ids are the numbers below `len`. -/
theorem isSome_lookup_internAll {keys : List String} (hroom : keys.toFinset.card < 2 ^ 64)
    (id : UInt64) :
    ((NodeIdTable.internAll keys).lookup id).isSome ↔ id.toNat < keys.toFinset.card := by
  rw [NodeIdTable.lookup, (internAll_storesNames keys hroom).backward, ← length_eraseDups]
  simp

/-- For every sequence of calls with fewer than `2 ^ 64` different keys: the two maps are
inverse. The id of a key is the number of different keys before its first occurrence, and the ids
are the numbers below `len`. A binding stays when more keys come, and a call returns the binding of
its key. The two lookups return these bindings. -/
theorem nodeIdTable_bijection (keys : List String) (hroom : keys.toFinset.card < 2 ^ 64) :
    MutualInverse (NodeIdTable.internAll keys).strToId (NodeIdTable.internAll keys).idToStr ∧
    (∀ key id, (NodeIdTable.internAll keys).lookupByStr key = some id ↔
      ∃ before after, keys = before ++ key :: after ∧ key ∉ before ∧
        id.toNat = before.toFinset.card) ∧
    (∀ key id, (NodeIdTable.internAll keys).lookup id = some key ↔
      (NodeIdTable.internAll keys).lookupByStr key = some id) ∧
    (∀ id, ((NodeIdTable.internAll keys).lookup id).isSome ↔
      id.toNat < (NodeIdTable.internAll keys).len) ∧
    (NodeIdTable.internAll keys).len = keys.toFinset.card ∧
    (∀ before after, keys = before ++ after → ∀ key id,
      (NodeIdTable.internAll before).lookupByStr key = some id →
        (NodeIdTable.internAll keys).lookupByStr key = some id) ∧
    ∀ before key after, keys = before ++ key :: after →
      (NodeIdTable.internAll keys).lookupByStr key
        = some ((NodeIdTable.internAll before).intern key).1 := by
  have h := internAll_storesNames keys hroom
  have hlen : (NodeIdTable.internAll keys).len = keys.toFinset.card := by
    rw [NodeIdTable.len, h.keys, List.toFinset_card_of_nodup (nodup_eraseDups keys),
      length_eraseDups]
  refine ⟨h.mutualInverse, lookupByStr_internAll_iff hroom,
    fun key id => (h.mutualInverse key id).symm, ?_, hlen, ?_, ?_⟩
  · intro id
    rw [hlen]
    exact isSome_lookup_internAll hroom id
  · intro before after hkeys key id hbound
    have hroom' := hroom
    rw [hkeys] at hroom'
    have hkept := lookupByStr_internAll_append hroom' hbound
    rw [← hkeys] at hkept
    exact hkept
  · intro before key after hkeys
    -- the call binds its key, and the later calls keep the binding
    have hbound := lookupByStr_intern (NodeIdTable.internAll before) key
    rw [← internAll_concat] at hbound
    have hsplit : keys = (before ++ [key]) ++ after := by
      rw [hkeys, List.append_assoc, List.singleton_append]
    have hroom' := hroom
    rw [hsplit] at hroom'
    have hkept := lookupByStr_internAll_append hroom' hbound
    rw [← hsplit] at hkept
    exact hkept

/-- Three calls with two keys: the second key has the id 1, and the third call returns the id of
the first one. -/
theorem nodeIdTable_bijection_repeated :
    (NodeIdTable.internAll ["peer", "tree", "peer"]).len = 2 ∧
      (NodeIdTable.internAll ["peer", "tree", "peer"]).lookup 1 = some "tree" ∧
      (NodeIdTable.internAll ["peer", "tree", "peer"]).lookupByStr "peer" = some 0 := by
  have h := nodeIdTable_bijection ["peer", "tree", "peer"] (by decide)
  refine ⟨h.2.2.2.2.1, ?_, ?_⟩
  · rw [h.2.2.1, h.2.1]
    exact ⟨["peer"], ["peer"], rfl, by decide, rfl⟩
  · rw [h.2.1]
    exact ⟨[], ["tree", "peer"], rfl, by decide, rfl⟩

end GrafeoLoro.Proofs
