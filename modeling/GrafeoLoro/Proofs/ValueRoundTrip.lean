import GrafeoLoro.Types.Values

/-!
# `GrafeoLoro.Proofs.ValueRoundTrip`: a Loro value through Grafeo and back

A value of a Loro map becomes a graph value, then a Grafeo value, and the outbound worker makes a
Loro value of that again. A map passes through two hash maps and a `BTreeMap` on its way, so its
entries come back in another order.

`SameValue` and `SameGraph` compare values up to the order of the entries of their maps, at every
depth.

* `value_roundTrip`: the first conversion fails exactly on the values that contain a `Binary` or a
  `Container`. Every other value comes back the same, whatever the iteration orders of the hash
  maps in between.
-/

set_option autoImplicit false

namespace GrafeoLoro.Proofs

open GrafeoLoro

/-! ### Values up to the order of map entries -/

/-- The value is or contains a `Binary` or a `Container`. -/
inductive HasUnsupported : LoroValue → Prop
  | binary (bytes : List UInt8) : HasUnsupported (.binary bytes)
  | container (id : ContainerID) : HasUnsupported (.container id)
  | item {items : List LoroValue} {v : LoroValue} (hmem : v ∈ items) (h : HasUnsupported v) :
      HasUnsupported (.list items)
  | entry {entries : List (String × LoroValue)} {k : String} {v : LoroValue}
      (hmem : (k, v) ∈ entries) (h : HasUnsupported v) : HasUnsupported (.map entries)

mutual

/-- Every map in the value has distinct keys, as a hash map does. -/
def DistinctKeys : LoroValue → Prop
  | .list items => DistinctKeysItems items
  | .map entries => (entries.map Prod.fst).Nodup ∧ DistinctKeysEntries entries
  | _ => True

/-- The same for the items of a list. -/
def DistinctKeysItems : List LoroValue → Prop
  | [] => True
  | v :: rest => DistinctKeys v ∧ DistinctKeysItems rest

/-- The same for the values of a map. -/
def DistinctKeysEntries : List (String × LoroValue) → Prop
  | [] => True
  | (_, v) :: rest => DistinctKeys v ∧ DistinctKeysEntries rest

end

mutual

/-- Two Loro values are the same up to the order of map entries. -/
inductive SameValue : LoroValue → LoroValue → Prop
  | refl (v : LoroValue) : SameValue v v
  | list {items items' : List LoroValue} (h : SameItems items items') :
      SameValue (.list items) (.list items')
  | map {entries entries' : List (String × LoroValue)} (h : SameEntries entries entries') :
      SameValue (.map entries) (.map entries')

/-- The same items at the same places. -/
inductive SameItems : List LoroValue → List LoroValue → Prop
  | nil : SameItems [] []
  | cons {v v' : LoroValue} {rest rest' : List LoroValue} (hv : SameValue v v')
      (hrest : SameItems rest rest') : SameItems (v :: rest) (v' :: rest')

/-- The same entries at some places. -/
inductive SameEntries : List (String × LoroValue) → List (String × LoroValue) → Prop
  | nil : SameEntries [] []
  | cons {k : String} {v v' : LoroValue} {rest rest' entries' : List (String × LoroValue)}
      (hv : SameValue v v') (hperm : entries'.Perm ((k, v') :: rest'))
      (hrest : SameEntries rest rest') : SameEntries ((k, v) :: rest) entries'

end

mutual

/-- Two graph values are the same up to the order of map entries. -/
inductive SameGraph : GraphValue → GraphValue → Prop
  | refl (g : GraphValue) : SameGraph g g
  | list {items items' : List GraphValue} (h : SameGraphItems items items') :
      SameGraph (.list items) (.list items')
  | map {entries entries' : List (String × GraphValue)} (h : SameGraphEntries entries entries') :
      SameGraph (.map entries) (.map entries')

/-- The same items at the same places. -/
inductive SameGraphItems : List GraphValue → List GraphValue → Prop
  | nil : SameGraphItems [] []
  | cons {g g' : GraphValue} {rest rest' : List GraphValue} (hg : SameGraph g g')
      (hrest : SameGraphItems rest rest') : SameGraphItems (g :: rest) (g' :: rest')

/-- The same entries at some places. -/
inductive SameGraphEntries : List (String × GraphValue) → List (String × GraphValue) → Prop
  | nil : SameGraphEntries [] []
  | cons {k : String} {g g' : GraphValue} {rest rest' entries' : List (String × GraphValue)}
      (hg : SameGraph g g') (hperm : entries'.Perm ((k, g') :: rest'))
      (hrest : SameGraphEntries rest rest') : SameGraphEntries ((k, g) :: rest) entries'

end

theorem SameGraphItems.refl (items : List GraphValue) : SameGraphItems items items := by
  induction items with
  | nil => exact .nil
  | cons g rest ih => exact .cons (.refl g) ih

theorem SameGraphEntries.refl (entries : List (String × GraphValue)) :
    SameGraphEntries entries entries := by
  induction entries with
  | nil => exact .nil
  | cons e rest ih => exact .cons (.refl e.2) (.refl _) ih

/-- A graph value that is the same as a list is a list of the same items. -/
theorem SameGraph.of_list {items : List GraphValue} {g' : GraphValue}
    (h : SameGraph (.list items) g') : ∃ items', g' = .list items' ∧ SameGraphItems items items' := by
  cases h with
  | refl => exact ⟨items, rfl, .refl items⟩
  | list hitems => exact ⟨_, rfl, hitems⟩

/-- A graph value that is the same as a map is a map of the same entries. -/
theorem SameGraph.of_map {entries : List (String × GraphValue)} {g' : GraphValue}
    (h : SameGraph (.map entries) g') :
    ∃ entries', g' = .map entries' ∧ SameGraphEntries entries entries' := by
  cases h with
  | refl => exact ⟨entries, rfl, .refl entries⟩
  | map hentries => exact ⟨_, rfl, hentries⟩

theorem SameEntries.perm {entries a b : List (String × LoroValue)} (h : SameEntries entries a)
    (hperm : a.Perm b) : SameEntries entries b := by
  cases h with
  | nil =>
    rw [← hperm.nil_eq]
    exact .nil
  | cons hv ha hrest => exact .cons hv (hperm.symm.trans ha) hrest

/-! ### The conversion to graph values -/

section
variable {ε α β : Type} {x : Except ε α} {f : α → Except ε β}

/-- A sequence succeeds when both its parts do. -/
theorem except_bind_eq_ok {b : β} : (x >>= f) = .ok b ↔ ∃ a, x = .ok a ∧ f a = .ok b := by
  cases x with
  | error e => simp [bind, Except.bind]
  | ok a => simp [bind, Except.bind]

/-- A sequence fails when its first part does, or its second part after the first. -/
theorem except_bind_eq_error {e : ε} :
    (x >>= f) = .error e ↔ x = .error e ∨ ∃ a, x = .ok a ∧ f a = .error e := by
  cases x with
  | error e => simp [bind, Except.bind]
  | ok a => simp [bind, Except.bind]

end

section
variable {v : LoroValue} {e : GrafeoLoroError}

theorem lvalsToGvals_cons_ok {rest : List LoroValue} {gs : List GraphValue} :
    lvalsToGvals (v :: rest) = .ok gs ↔
      ∃ g, lvalToGval v = .ok g ∧ ∃ gs', lvalsToGvals rest = .ok gs' ∧ g :: gs' = gs := by
  simp only [lvalsToGvals, except_bind_eq_ok, pure, Except.pure, Except.ok.injEq]

theorem lvalsToGvals_cons_error {rest : List LoroValue} :
    lvalsToGvals (v :: rest) = .error e ↔
      lvalToGval v = .error e ∨ ∃ g, lvalToGval v = .ok g ∧ lvalsToGvals rest = .error e := by
  simp [lvalsToGvals, except_bind_eq_error, pure, Except.pure]

theorem lentriesToGentries_cons_ok {k : String} {rest : List (String × LoroValue)}
    {gs : List (String × GraphValue)} :
    lentriesToGentries ((k, v) :: rest) = .ok gs ↔
      ∃ g, lvalToGval v = .ok g ∧ ∃ gs', lentriesToGentries rest = .ok gs' ∧ (k, g) :: gs' = gs := by
  simp only [lentriesToGentries, except_bind_eq_ok, pure, Except.pure, Except.ok.injEq]

theorem lentriesToGentries_cons_error {k : String} {rest : List (String × LoroValue)} :
    lentriesToGentries ((k, v) :: rest) = .error e ↔
      lvalToGval v = .error e ∨ ∃ g, lvalToGval v = .ok g ∧ lentriesToGentries rest = .error e := by
  simp [lentriesToGentries, except_bind_eq_error, pure, Except.pure]

/-- A list converts when each of its items does. -/
theorem lvalsToGvals_ok_mem {items : List LoroValue} {gs : List GraphValue}
    (h : lvalsToGvals items = .ok gs) (hmem : v ∈ items) : ∃ g, lvalToGval v = .ok g := by
  induction items generalizing gs with
  | nil => simp at hmem
  | cons first rest ih =>
    obtain ⟨g, hfirst, gs', hrest, -⟩ := lvalsToGvals_cons_ok.mp h
    rcases List.mem_cons.mp hmem with rfl | hmem
    · exact ⟨g, hfirst⟩
    · exact ih hrest hmem

/-- A map converts when each of its values does. -/
theorem lentriesToGentries_ok_mem {entries : List (String × LoroValue)}
    {gs : List (String × GraphValue)} {k : String} (h : lentriesToGentries entries = .ok gs)
    (hmem : (k, v) ∈ entries) : ∃ g, lvalToGval v = .ok g := by
  induction entries generalizing gs with
  | nil => simp at hmem
  | cons first rest ih =>
    obtain ⟨g, hfirst, gs', hrest, -⟩ := lentriesToGentries_cons_ok.mp h
    rcases List.mem_cons.mp hmem with rfl | hmem
    · exact ⟨g, hfirst⟩
    · exact ih hrest hmem

end

theorem except_map_eq_ok {ε α β : Type} {x : Except ε α} {f : α → β} {b : β} :
    x.map f = .ok b ↔ ∃ a, x = .ok a ∧ f a = b := by
  cases x with
  | error e => simp [Except.map]
  | ok a => simp [Except.map]

theorem except_map_eq_error {ε α β : Type} {x : Except ε α} {f : α → β} {e : ε} :
    x.map f = .error e ↔ x = .error e := by
  cases x with
  | error e => simp [Except.map]
  | ok a => simp [Except.map]

/-- A value that contains an unsupported one does not convert. -/
theorem not_ok_of_hasUnsupported {v : LoroValue} (h : HasUnsupported v) :
    ∀ g, lvalToGval v ≠ .ok g := by
  induction h with
  | binary bytes => simp [lvalToGval]
  | container id => simp [lvalToGval]
  | item hmem _ ih =>
    intro g hok
    rw [lvalToGval, except_map_eq_ok] at hok
    obtain ⟨gs, hitems, -⟩ := hok
    obtain ⟨g', hg'⟩ := lvalsToGvals_ok_mem hitems hmem
    exact ih g' hg'
  | entry hmem _ ih =>
    intro g hok
    rw [lvalToGval, except_map_eq_ok] at hok
    obtain ⟨gs, hentries, -⟩ := hok
    obtain ⟨g', hg'⟩ := lentriesToGentries_ok_mem hentries hmem
    exact ih g' hg'

mutual

/-- A value that does not convert contains an unsupported one. -/
theorem hasUnsupported_of_error :
    ∀ (v : LoroValue) (e : GrafeoLoroError), lvalToGval v = .error e → HasUnsupported v
  | .null, e, h => by simp [lvalToGval] at h
  | .bool _, e, h => by simp [lvalToGval] at h
  | .i64 _, e, h => by simp [lvalToGval] at h
  | .double _, e, h => by simp [lvalToGval] at h
  | .string _, e, h => by simp [lvalToGval] at h
  | .binary bytes, _, _ => .binary bytes
  | .container id, _, _ => .container id
  | .list items, e, h => by
    rw [lvalToGval, except_map_eq_error] at h
    obtain ⟨v, hmem, hv⟩ := item_of_error items e h
    exact .item hmem hv
  | .map entries, e, h => by
    rw [lvalToGval, except_map_eq_error] at h
    obtain ⟨k, v, hmem, hv⟩ := entry_of_error entries e h
    exact .entry hmem hv

theorem item_of_error :
    ∀ (items : List LoroValue) (e : GrafeoLoroError), lvalsToGvals items = .error e →
      ∃ v ∈ items, HasUnsupported v
  | [], e, h => by simp [lvalsToGvals] at h
  | v :: rest, e, h => by
    rcases lvalsToGvals_cons_error.mp h with hv | ⟨g, -, hrest⟩
    · exact ⟨v, List.mem_cons_self, hasUnsupported_of_error v e hv⟩
    · obtain ⟨v', hmem, hv'⟩ := item_of_error rest e hrest
      exact ⟨v', List.mem_cons_of_mem _ hmem, hv'⟩

theorem entry_of_error :
    ∀ (entries : List (String × LoroValue)) (e : GrafeoLoroError),
      lentriesToGentries entries = .error e → ∃ k v, (k, v) ∈ entries ∧ HasUnsupported v
  | [], e, h => by simp [lentriesToGentries] at h
  | (k, v) :: rest, e, h => by
    rcases lentriesToGentries_cons_error.mp h with hv | ⟨g, -, hrest⟩
    · exact ⟨k, v, List.mem_cons_self, hasUnsupported_of_error v e hv⟩
    · obtain ⟨k', v', hmem, hv'⟩ := entry_of_error rest e hrest
      exact ⟨k', v', List.mem_cons_of_mem _ hmem, hv'⟩

end

/-! ### The conversion to a `BTreeMap` and back -/

/-- An insert of a new key adds its entry somewhere. -/
theorem btreeInsert_perm {V : Type} {k : String} {v : V} {bt : List (String × V)}
    (hk : k ∉ bt.map Prod.fst) : (btreeInsert k v bt).Perm ((k, v) :: bt) := by
  induction bt with
  | nil => exact .refl _
  | cons e rest ih =>
    rw [List.map_cons, List.mem_cons, not_or] at hk
    rw [btreeInsert, if_neg hk.1]
    split
    · exact .refl _
    · exact ((ih hk.2).cons e).trans (.swap _ _ _)

/-- The entries of a graph map, as Grafeo values. -/
def convertEntries (gs : List (String × GraphValue)) : List (String × Value) :=
  gs.map fun e => (e.1, gvalToGrafeoValue e.2)

/-- The loop over the entries of a map adds all of them. -/
theorem gentriesToGrafeoValues_perm (gs : List (String × GraphValue)) :
    ∀ bt, (gs.map Prod.fst).Nodup → (∀ k ∈ gs.map Prod.fst, k ∉ bt.map Prod.fst) →
      (gentriesToGrafeoValues gs bt).Perm (convertEntries gs ++ bt) := by
  induction gs with
  | nil => intro bt _ _; exact .refl _
  | cons e rest ih =>
    intro bt hnodup hnew
    rw [List.map_cons, List.nodup_cons] at hnodup
    have hfirst : (btreeInsert e.1 (gvalToGrafeoValue e.2) bt).Perm
        ((e.1, gvalToGrafeoValue e.2) :: bt) :=
      btreeInsert_perm (hnew e.1 (by simp))
    rw [gentriesToGrafeoValues]
    refine (ih _ hnodup.2 fun k hk => ?_).trans ?_
    · -- the keys of the rest are neither the first one nor in the map so far
      rw [(hfirst.map Prod.fst).mem_iff, List.map_cons, List.mem_cons, not_or]
      refine ⟨?_, hnew k (by simp [hk])⟩
      rintro rfl
      exact hnodup.1 hk
    · exact (hfirst.append_left _).trans List.perm_middle

theorem grafeoEntriesToLentries_eq (bt : List (String × Value)) :
    grafeoEntriesToLentries bt = bt.map fun e => (e.1, grafeoValueToLval e.2) := by
  induction bt with
  | nil => rfl
  | cons e rest ih => rw [grafeoEntriesToLentries, ih, List.map_cons]

/-- A graph value as the outbound worker sees it. -/
def throughGrafeo (g : GraphValue) : LoroValue := grafeoValueToLval (gvalToGrafeoValue g)

/-- A map with distinct keys goes through Grafeo entry by entry, up to the order. -/
theorem mapEntries_throughGrafeo {gs : List (String × GraphValue)}
    (h : (gs.map Prod.fst).Nodup) :
    (gs.map fun e => (e.1, throughGrafeo e.2)).Perm
      (grafeoEntriesToLentries (gentriesToGrafeoValues gs [])) := by
  have hperm := gentriesToGrafeoValues_perm gs [] h (by simp)
  rw [List.append_nil] at hperm
  have hconvert : (gs.map fun e => (e.1, throughGrafeo e.2))
      = (convertEntries gs).map fun e => (e.1, grafeoValueToLval e.2) := by
    simp [convertEntries, throughGrafeo]
  rw [grafeoEntriesToLentries_eq, hconvert]
  exact (hperm.map _).symm

mutual

/-- A value that converts comes back the same, in every order of the graph maps. -/
theorem sameValue_throughGrafeo :
    ∀ (v : LoroValue) (g g' : GraphValue), DistinctKeys v → lvalToGval v = .ok g →
      SameGraph g g' → SameValue v (throughGrafeo g')
  | .null, g, g', _, h, hsame => by
    obtain rfl : GraphValue.null = g := by simpa [lvalToGval] using h
    cases hsame
    exact .refl _
  | .bool b, g, g', _, h, hsame => by
    obtain rfl : GraphValue.bool b = g := by simpa [lvalToGval] using h
    cases hsame
    exact .refl _
  | .i64 i, g, g', _, h, hsame => by
    obtain rfl : GraphValue.integer i = g := by simpa [lvalToGval] using h
    cases hsame
    exact .refl _
  | .double f, g, g', _, h, hsame => by
    obtain rfl : GraphValue.float f = g := by simpa [lvalToGval] using h
    cases hsame
    exact .refl _
  | .string t, g, g', _, h, hsame => by
    obtain rfl : GraphValue.string t = g := by simpa [lvalToGval] using h
    cases hsame
    exact .refl _
  | .binary bytes, g, _, _, h, _ => absurd h (not_ok_of_hasUnsupported (.binary bytes) g)
  | .container id, g, _, _, h, _ => absurd h (not_ok_of_hasUnsupported (.container id) g)
  | .list items, g, g', hkeys, h, hsame => by
    rw [lvalToGval, except_map_eq_ok] at h
    obtain ⟨gs, hitems, rfl⟩ := h
    obtain ⟨gs', rfl, hsame'⟩ := hsame.of_list
    exact .list (sameItems_throughGrafeo items gs gs' hkeys hitems hsame')
  | .map entries, g, g', hkeys, h, hsame => by
    rw [lvalToGval, except_map_eq_ok] at h
    obtain ⟨gs, hentries, rfl⟩ := h
    obtain ⟨gs', rfl, hsame'⟩ := hsame.of_map
    obtain ⟨heach, hperm⟩ := sameEntries_throughGrafeo entries gs gs' hkeys.2 hentries hsame'
    -- With distinct keys no insert into the `BTreeMap` overwrites another one.
    have hnodup : (gs'.map Prod.fst).Nodup := hperm.nodup_iff.mpr hkeys.1
    exact .map (heach.perm (mapEntries_throughGrafeo hnodup))

theorem sameItems_throughGrafeo :
    ∀ (items : List LoroValue) (gs gs' : List GraphValue), DistinctKeysItems items →
      lvalsToGvals items = .ok gs → SameGraphItems gs gs' →
      SameItems items (grafeoValuesToLvals (gvalsToGrafeoValues gs'))
  | [], gs, gs', _, h, hsame => by
    obtain rfl : [] = gs := by simpa [lvalsToGvals] using h
    cases hsame
    exact .nil
  | v :: rest, gs, gs', hkeys, h, hsame => by
    obtain ⟨g, hv, gs1, hrest, rfl⟩ := lvalsToGvals_cons_ok.mp h
    cases hsame with
    | cons hg hsame' =>
      exact .cons (sameValue_throughGrafeo v g _ hkeys.1 hv hg)
        (sameItems_throughGrafeo rest gs1 _ hkeys.2 hrest hsame')

theorem sameEntries_throughGrafeo :
    ∀ (entries : List (String × LoroValue)) (gs gs' : List (String × GraphValue)),
      DistinctKeysEntries entries → lentriesToGentries entries = .ok gs →
      SameGraphEntries gs gs' →
      SameEntries entries (gs'.map fun e => (e.1, throughGrafeo e.2)) ∧
        (gs'.map Prod.fst).Perm (entries.map Prod.fst)
  | [], gs, gs', _, h, hsame => by
    obtain rfl : [] = gs := by simpa [lentriesToGentries] using h
    cases hsame
    exact ⟨.nil, .refl _⟩
  | (k, v) :: rest, gs, gs', hkeys, h, hsame => by
    obtain ⟨g, hv, gs1, hrest, rfl⟩ := lentriesToGentries_cons_ok.mp h
    cases hsame with
    | cons hg hperm hsame' =>
      -- The graph map may have this entry anywhere. The others are those of the rest.
      obtain ⟨heach, hkeysRest⟩ := sameEntries_throughGrafeo rest gs1 _ hkeys.2 hrest hsame'
      exact ⟨.cons (sameValue_throughGrafeo v g _ hkeys.1 hv hg) (hperm.map _) heach,
        (hperm.map Prod.fst).trans (hkeysRest.cons k)⟩

end

/-- The first conversion fails exactly on the values that contain an unsupported one. A value
that converts comes back the same, also when the hash maps of the graph value are iterated in
other orders than those of the Loro value. -/
theorem value_roundTrip (v : LoroValue) (hkeys : DistinctKeys v) :
    ((∃ e, lvalToGval v = .error e) ↔ HasUnsupported v) ∧
    ∀ g g', lvalToGval v = .ok g → SameGraph g g' →
      SameValue v (grafeoValueToLval (gvalToGrafeoValue g')) := by
  refine ⟨⟨fun ⟨e, h⟩ => hasUnsupported_of_error v e h, fun h => ?_⟩,
    fun g g' h hsame => sameValue_throughGrafeo v g g' hkeys h hsame⟩
  cases hconv : lvalToGval v with
  | error e => exact ⟨e, rfl⟩
  | ok g => exact absurd hconv (not_ok_of_hasUnsupported h g)

/-- A list that holds a map of two entries, which come back in key order. -/
theorem value_roundTrip_nested :
    let v : LoroValue := .list [.map [("b", .i64 2), ("a", .list [.null])]]
    lvalToGval v = .ok (.list [.map [("b", .integer 2), ("a", .list [.null])]]) ∧
      SameValue v (.list [.map [("a", .list [.null]), ("b", .i64 2)]]) := by
  intro v
  have hkeys : DistinctKeys v := by
    simp [v, DistinctKeys, DistinctKeysItems, DistinctKeysEntries]
  exact ⟨rfl, (value_roundTrip v hkeys).2 _ _ rfl (.refl _)⟩

end GrafeoLoro.Proofs
