import GrafeoLoro.Proofs.ValueRoundTrip

/-!
# `GrafeoLoro.Proofs.GrafeoRoundTrip`: a Grafeo value through Loro and back

The outbound worker makes a Loro value of a Grafeo value, and the inbound path makes a Grafeo value
of that again. The maps in between are hash maps, whose entries come in any order.

* `gvalToGrafeoValue_congr`: the conversion to Grafeo does not depend on these orders, because the
  `BTreeMap` puts the entries in key order.
* `grafeoValue_roundTrip`: the way back never fails, and it gives the first value exactly when that
  contains neither a vector nor an exotic value.
-/

set_option autoImplicit false

namespace GrafeoLoro.Proofs

open GrafeoLoro

/-! ### Maps in key order -/

/-- The entries of a `BTreeMap`: strictly increasing keys. -/
def KeyOrder {V : Type} (entries : List (String × V)) : Prop :=
  entries.Pairwise fun a b => a.1 < b.1

/-- An insert adds its entry and keeps at most the others. -/
theorem mem_btreeInsert {V : Type} {k : String} {v : V} {bt : List (String × V)}
    {e : String × V} (h : e ∈ btreeInsert k v bt) : e = (k, v) ∨ e ∈ bt := by
  induction bt with
  | nil => exact .inl (List.mem_singleton.mp h)
  | cons first rest ih =>
    rw [btreeInsert] at h
    split at h
    · exact (List.mem_cons.mp h).imp_right (List.mem_cons_of_mem _)
    · split at h
      · exact List.mem_cons.mp h
      · rcases List.mem_cons.mp h with rfl | h
        · exact .inr List.mem_cons_self
        · exact (ih h).imp_right (List.mem_cons_of_mem _)

/-- An insert keeps the keys in order. -/
theorem keyOrder_btreeInsert {V : Type} (k : String) (v : V) {bt : List (String × V)}
    (h : KeyOrder bt) : KeyOrder (btreeInsert k v bt) := by
  induction bt with
  | nil => exact List.pairwise_singleton _ _
  | cons first rest ih =>
    obtain ⟨hfirst, hrest⟩ := List.pairwise_cons.mp h
    rw [btreeInsert]
    split
    · rename_i hk
      exact List.pairwise_cons.mpr ⟨fun e he => hk ▸ hfirst e he, hrest⟩
    · rename_i hne
      split
      · rename_i hlt
        refine List.pairwise_cons.mpr ⟨fun e he => ?_, h⟩
        rcases List.mem_cons.mp he with rfl | he
        · exact hlt
        · exact String.lt_trans hlt (hfirst e he)
      · rename_i hge
        refine List.pairwise_cons.mpr ⟨fun e he => ?_, ih hrest⟩
        rcases mem_btreeInsert he with rfl | he
        · -- the key is neither the first one nor before it
          exact Std.lt_of_le_of_ne (Std.not_lt.mp hge) (Ne.symm hne)
        · exact hfirst e he

/-- The loop over the entries of a map keeps the keys in order. -/
theorem keyOrder_gentriesToGrafeoValues (gs : List (String × GraphValue)) :
    ∀ bt, KeyOrder bt → KeyOrder (gentriesToGrafeoValues gs bt) := by
  induction gs with
  | nil => exact fun _ h => h
  | cons e rest ih => exact fun bt h => ih _ (keyOrder_btreeInsert _ _ h)

/-- Entries in key order are determined by their set. -/
theorem KeyOrder.eq_of_perm {V : Type} {a b : List (String × V)} (ha : KeyOrder a)
    (hb : KeyOrder b) (hperm : a.Perm b) : a = b :=
  List.Perm.eq_of_pairwise
    (fun _ _ _ _ hxy hyx => absurd (String.lt_trans hxy hyx) (String.lt_irrefl _)) ha hb hperm

/-- Keys in order are distinct. -/
theorem KeyOrder.nodup {V : Type} {entries : List (String × V)} (h : KeyOrder entries) :
    (entries.map Prod.fst).Nodup := by
  refine List.pairwise_map.mpr (h.imp fun hlt heq => ?_)
  exact absurd hlt (heq ▸ String.lt_irrefl _)

mutual

/-- Every map in the graph value has distinct keys. -/
def DistinctGraph : GraphValue → Prop
  | .list items => DistinctGraphItems items
  | .map entries => (entries.map Prod.fst).Nodup ∧ DistinctGraphEntries entries
  | _ => True

/-- The same for the items of a list. -/
def DistinctGraphItems : List GraphValue → Prop
  | [] => True
  | g :: rest => DistinctGraph g ∧ DistinctGraphItems rest

/-- The same for the values of a map. -/
def DistinctGraphEntries : List (String × GraphValue) → Prop
  | [] => True
  | (_, g) :: rest => DistinctGraph g ∧ DistinctGraphEntries rest

end

/-- The order of the entries does not matter. -/
theorem distinctGraphEntries_perm {a b : List (String × GraphValue)} (h : a.Perm b) :
    DistinctGraphEntries a ↔ DistinctGraphEntries b := by
  induction h with
  | nil => exact Iff.rfl
  | cons e _ ih => exact and_congr_right fun _ => ih
  | swap e e' l => exact and_left_comm
  | trans _ _ ih ih' => exact ih.trans ih'

/-! ### The order of the graph maps -/

mutual

/-- The conversion to Grafeo does not depend on the order of the graph maps. -/
theorem gvalToGrafeoValue_congr : ∀ (g g' : GraphValue), DistinctGraph g → SameGraph g g' →
    DistinctGraph g' ∧ gvalToGrafeoValue g = gvalToGrafeoValue g'
  | .null, _, h, hsame | .bool _, _, h, hsame | .integer _, _, h, hsame | .float _, _, h, hsame
  | .string _, _, h, hsame | .vector _, _, h, hsame => by
    cases hsame
    exact ⟨h, rfl⟩
  | .list items, g', h, hsame => by
    obtain ⟨items', rfl, hitems⟩ := hsame.of_list
    obtain ⟨hdistinct, heq⟩ := gvalsToGrafeoValues_congr items items' h hitems
    exact ⟨hdistinct, congrArg Value.list heq⟩
  | .map entries, g', h, hsame => by
    obtain ⟨entries', rfl, hentries⟩ := hsame.of_map
    obtain ⟨hdistinct, hkeys, hperm⟩ := convertEntries_congr entries entries' h.2 hentries
    have hnodup : (entries'.map Prod.fst).Nodup := hkeys.nodup_iff.mpr h.1
    have hleft := gentriesToGrafeoValues_perm entries [] h.1 (by simp)
    have hright := gentriesToGrafeoValues_perm entries' [] hnodup (by simp)
    rw [List.append_nil] at hleft hright
    -- both maps have the same entries, and both are in key order
    have heq := (keyOrder_gentriesToGrafeoValues entries [] .nil).eq_of_perm
      (keyOrder_gentriesToGrafeoValues entries' [] .nil) ((hleft.trans hperm).trans hright.symm)
    exact ⟨⟨hnodup, hdistinct⟩, congrArg Value.map heq⟩

theorem gvalsToGrafeoValues_congr : ∀ (items items' : List GraphValue),
    DistinctGraphItems items → SameGraphItems items items' →
    DistinctGraphItems items' ∧ gvalsToGrafeoValues items = gvalsToGrafeoValues items'
  | [], _, h, hsame => by
    cases hsame
    exact ⟨h, rfl⟩
  | g :: rest, _, h, hsame => by
    cases hsame with
    | @cons _ g' _ rest' hg hrest =>
      obtain ⟨hdistinct, heq⟩ := gvalToGrafeoValue_congr g g' h.1 hg
      obtain ⟨hdistincts, heqs⟩ := gvalsToGrafeoValues_congr rest rest' h.2 hrest
      exact ⟨⟨hdistinct, hdistincts⟩, by rw [gvalsToGrafeoValues, gvalsToGrafeoValues, heq, heqs]⟩

theorem convertEntries_congr : ∀ (entries entries' : List (String × GraphValue)),
    DistinctGraphEntries entries → SameGraphEntries entries entries' →
    DistinctGraphEntries entries' ∧ (entries'.map Prod.fst).Perm (entries.map Prod.fst) ∧
      (convertEntries entries).Perm (convertEntries entries')
  | [], _, h, hsame => by
    cases hsame
    exact ⟨h, .refl _, .refl _⟩
  | (k, g) :: rest, entries', h, hsame => by
    cases hsame with
    | @cons _ _ g' _ rest' _ hg hperm hrest =>
      obtain ⟨hdistinct, heq⟩ := gvalToGrafeoValue_congr g g' h.1 hg
      obtain ⟨hdistincts, hkeys, hentries⟩ := convertEntries_congr rest rest' h.2 hrest
      refine ⟨(distinctGraphEntries_perm hperm).mpr ⟨hdistinct, hdistincts⟩,
        (hperm.map Prod.fst).trans (hkeys.cons k), ?_⟩
      have hhead : convertEntries ((k, g) :: rest)
          = (k, gvalToGrafeoValue g') :: convertEntries rest := by
        rw [convertEntries, List.map_cons, heq]
        rfl
      have hlast : (convertEntries entries').Perm
          ((k, gvalToGrafeoValue g') :: convertEntries rest') := hperm.map _
      rw [hhead]
      exact (hentries.cons _).trans hlast.symm

end

/-! ### The order of the Loro maps -/

theorem SameItems.refl (items : List LoroValue) : SameItems items items := by
  induction items with
  | nil => exact .nil
  | cons v rest ih => exact .cons (.refl v) ih

theorem SameEntries.refl (entries : List (String × LoroValue)) : SameEntries entries entries := by
  induction entries with
  | nil => exact .nil
  | cons e rest ih => exact .cons (.refl e.2) (.refl _) ih

/-- Entries in another order convert to graph entries in another order. -/
theorem lentriesToGentries_perm {a b : List (String × LoroValue)} (hperm : a.Perm b) :
    ∀ gs, lentriesToGentries a = .ok gs → ∃ gs', lentriesToGentries b = .ok gs' ∧ gs'.Perm gs := by
  induction hperm with
  | nil => exact fun gs h => ⟨gs, h, .refl _⟩
  | cons e _ ih =>
    intro gs h
    obtain ⟨g, hv, gs₁, hrest, rfl⟩ := lentriesToGentries_cons_ok.mp h
    obtain ⟨gs₂, hrest', hperm⟩ := ih gs₁ hrest
    exact ⟨_, lentriesToGentries_cons_ok.mpr ⟨g, hv, gs₂, hrest', rfl⟩, hperm.cons _⟩
  | swap e e' l =>
    intro gs h
    obtain ⟨g, hv, gs₁, hrest, rfl⟩ := lentriesToGentries_cons_ok.mp h
    obtain ⟨g', hv', gs₂, hrest', rfl⟩ := lentriesToGentries_cons_ok.mp hrest
    have htail : lentriesToGentries (e' :: l) = .ok ((e'.1, g) :: gs₂) :=
      lentriesToGentries_cons_ok.mpr ⟨g, hv, gs₂, hrest', rfl⟩
    exact ⟨_, lentriesToGentries_cons_ok.mpr ⟨g', hv', _, htail, rfl⟩, .swap _ _ _⟩
  | trans _ _ ih ih' =>
    intro gs h
    obtain ⟨gs₁, h₁, hperm₁⟩ := ih gs h
    obtain ⟨gs₂, h₂, hperm₂⟩ := ih' gs₁ h₁
    exact ⟨gs₂, h₂, hperm₂.trans hperm₁⟩

mutual

/-- Loro values that are the same up to the order of map entries convert alike. -/
theorem lvalToGval_congr : ∀ (v w : LoroValue) (g : GraphValue), SameValue v w →
    lvalToGval v = .ok g → ∃ g', lvalToGval w = .ok g' ∧ SameGraph g g'
  | .null, _, g, hsame, h | .bool _, _, g, hsame, h | .i64 _, _, g, hsame, h
  | .double _, _, g, hsame, h | .string _, _, g, hsame, h | .binary _, _, g, hsame, h
  | .container _, _, g, hsame, h => by
    cases hsame
    exact ⟨g, h, .refl g⟩
  | .list items, w, g, hsame, h => by
    rw [lvalToGval, except_map_eq_ok] at h
    obtain ⟨gs, hitems, rfl⟩ := h
    cases hsame with
    | refl => exact ⟨_, except_map_eq_ok.mpr ⟨gs, hitems, rfl⟩, .refl _⟩
    | @list _ items' hsame =>
      obtain ⟨gs', hitems', hgs⟩ := lvalsToGvals_congr items items' gs hsame hitems
      exact ⟨_, except_map_eq_ok.mpr ⟨gs', hitems', rfl⟩, .list hgs⟩
  | .map entries, w, g, hsame, h => by
    rw [lvalToGval, except_map_eq_ok] at h
    obtain ⟨gs, hentries, rfl⟩ := h
    cases hsame with
    | refl => exact ⟨_, except_map_eq_ok.mpr ⟨gs, hentries, rfl⟩, .refl _⟩
    | @map _ entries' hsame =>
      obtain ⟨gs', hentries', hgs⟩ := lentriesToGentries_congr entries entries' gs hsame hentries
      exact ⟨_, except_map_eq_ok.mpr ⟨gs', hentries', rfl⟩, .map hgs⟩

theorem lvalsToGvals_congr : ∀ (items items' : List LoroValue) (gs : List GraphValue),
    SameItems items items' → lvalsToGvals items = .ok gs →
    ∃ gs', lvalsToGvals items' = .ok gs' ∧ SameGraphItems gs gs'
  | [], _, gs, hsame, h => by
    cases hsame
    exact ⟨gs, h, .refl gs⟩
  | v :: rest, _, gs, hsame, h => by
    obtain ⟨g, hv, gs₁, hrest, rfl⟩ := lvalsToGvals_cons_ok.mp h
    cases hsame with
    | @cons _ v' _ rest' hsamev hsame =>
      obtain ⟨g', hv', hg⟩ := lvalToGval_congr v v' g hsamev hv
      obtain ⟨gs', hrest', hgs⟩ := lvalsToGvals_congr rest rest' gs₁ hsame hrest
      exact ⟨_, lvalsToGvals_cons_ok.mpr ⟨g', hv', gs', hrest', rfl⟩, .cons hg hgs⟩

theorem lentriesToGentries_congr : ∀ (entries entries' : List (String × LoroValue))
    (gs : List (String × GraphValue)), SameEntries entries entries' →
    lentriesToGentries entries = .ok gs →
    ∃ gs', lentriesToGentries entries' = .ok gs' ∧ SameGraphEntries gs gs'
  | [], _, gs, hsame, h => by
    cases hsame
    exact ⟨gs, h, .refl gs⟩
  | (k, v) :: rest, entries', gs, hsame, h => by
    obtain ⟨g, hv, gs₁, hrest, rfl⟩ := lentriesToGentries_cons_ok.mp h
    cases hsame with
    | @cons _ _ v' _ rest' _ hsamev hperm hsame =>
      obtain ⟨g', hv', hg⟩ := lvalToGval_congr v v' g hsamev hv
      obtain ⟨gs', hrest', hgs⟩ := lentriesToGentries_congr rest rest' gs₁ hsame hrest
      obtain ⟨gs'', hentries', hperm'⟩ := lentriesToGentries_perm hperm.symm _
        (lentriesToGentries_cons_ok.mpr ⟨g', hv', gs', hrest', rfl⟩)
      exact ⟨gs'', hentries', .cons hg hperm' hgs⟩

end

mutual

/-- The conversion keeps the keys of the maps. -/
theorem distinctGraph_of_distinctKeys : ∀ (v : LoroValue) (g : GraphValue), DistinctKeys v →
    lvalToGval v = .ok g → DistinctGraph g
  | .null, g, _, h | .bool _, g, _, h | .i64 _, g, _, h | .double _, g, _, h
  | .string _, g, _, h => by
    obtain rfl := Except.ok.inj h
    trivial
  | .binary _, _, _, h | .container _, _, _, h => by cases h
  | .list items, g, hkeys, h => by
    rw [lvalToGval, except_map_eq_ok] at h
    obtain ⟨gs, hitems, rfl⟩ := h
    exact distinctGraphItems_of_distinctKeys items gs hkeys hitems
  | .map entries, g, hkeys, h => by
    rw [lvalToGval, except_map_eq_ok] at h
    obtain ⟨gs, hentries, rfl⟩ := h
    obtain ⟨hdistinct, hsame⟩ :=
      distinctGraphEntries_of_distinctKeys entries gs hkeys.2 hentries
    exact ⟨hsame ▸ hkeys.1, hdistinct⟩

theorem distinctGraphItems_of_distinctKeys : ∀ (items : List LoroValue) (gs : List GraphValue),
    DistinctKeysItems items → lvalsToGvals items = .ok gs → DistinctGraphItems gs
  | [], gs, _, h => by
    obtain rfl := Except.ok.inj h
    trivial
  | v :: rest, gs, hkeys, h => by
    obtain ⟨g, hv, gs₁, hrest, rfl⟩ := lvalsToGvals_cons_ok.mp h
    exact ⟨distinctGraph_of_distinctKeys v g hkeys.1 hv,
      distinctGraphItems_of_distinctKeys rest gs₁ hkeys.2 hrest⟩

theorem distinctGraphEntries_of_distinctKeys : ∀ (entries : List (String × LoroValue))
    (gs : List (String × GraphValue)), DistinctKeysEntries entries →
    lentriesToGentries entries = .ok gs →
    DistinctGraphEntries gs ∧ gs.map Prod.fst = entries.map Prod.fst
  | [], gs, _, h => by
    obtain rfl := Except.ok.inj h
    exact ⟨trivial, rfl⟩
  | (k, v) :: rest, gs, hkeys, h => by
    obtain ⟨g, hv, gs₁, hrest, rfl⟩ := lentriesToGentries_cons_ok.mp h
    obtain ⟨hdistinct, hsame⟩ := distinctGraphEntries_of_distinctKeys rest gs₁ hkeys.2 hrest
    exact ⟨⟨distinctGraph_of_distinctKeys v g hkeys.1 hv, hdistinct⟩, congrArg (k :: ·) hsame⟩

end

/-! ### The round trip -/

mutual

/-- Every map in the value is in key order, as a `BTreeMap` is. -/
def KeyOrdered : Value → Prop
  | .list items => KeyOrderedItems items
  | .map entries => KeyOrder entries ∧ KeyOrderedEntries entries
  | _ => True

/-- The same for the items of a list. -/
def KeyOrderedItems : List Value → Prop
  | [] => True
  | v :: rest => KeyOrdered v ∧ KeyOrderedItems rest

/-- The same for the values of a map. -/
def KeyOrderedEntries : List (String × Value) → Prop
  | [] => True
  | (_, v) :: rest => KeyOrdered v ∧ KeyOrderedEntries rest

end

/-- The value is or contains a vector or an exotic value. -/
inductive Lossy : Value → Prop
  | vector (v : List UInt32) : Lossy (.vector v)
  | exotic (kind : String) : Lossy (.exotic kind)
  | item {items : List Value} {v : Value} (hmem : v ∈ items) (h : Lossy v) : Lossy (.list items)
  | entry {entries : List (String × Value)} {k : String} {v : Value} (hmem : (k, v) ∈ entries)
      (h : Lossy v) : Lossy (.map entries)

/-- A list of floats converts. -/
theorem lvalsToGvals_doubles (v : List UInt32) :
    ∃ gs, lvalsToGvals (v.map fun f => .double (widenFloat f)) = .ok gs := by
  induction v with
  | nil => exact ⟨[], rfl⟩
  | cons f rest ih =>
    obtain ⟨gs, hrest⟩ := ih
    exact ⟨_, lvalsToGvals_cons_ok.mpr ⟨_, rfl, gs, hrest, rfl⟩⟩

mutual

/-- The way back succeeds, and it gives the value when nothing in it is lossy. -/
theorem lvalToGval_grafeoValueToLval : ∀ v : Value, ∃ g, lvalToGval (grafeoValueToLval v) = .ok g ∧
    (KeyOrdered v → ¬ Lossy v → gvalToGrafeoValue g = v)
  | .null | .bool _ | .int64 _ | .float64 _ | .string _ => ⟨_, rfl, fun _ _ => rfl⟩
  | .exotic kind => ⟨_, rfl, fun _ h => absurd (.exotic kind) h⟩
  | .vector v => by
    obtain ⟨gs, hitems⟩ := lvalsToGvals_doubles v
    exact ⟨.list gs, except_map_eq_ok.mpr ⟨gs, hitems, rfl⟩, fun _ h => absurd (.vector v) h⟩
  | .list items => by
    obtain ⟨gs, hitems, hback⟩ := lvalsToGvals_grafeoValuesToLvals items
    refine ⟨.list gs, except_map_eq_ok.mpr ⟨gs, hitems, rfl⟩, fun hkeys hlossy => ?_⟩
    exact congrArg Value.list (hback hkeys fun v hmem h => hlossy (.item hmem h))
  | .map entries => by
    obtain ⟨gs, hentries, hback⟩ := lentriesToGentries_grafeoEntriesToLentries entries
    refine ⟨.map gs, except_map_eq_ok.mpr ⟨gs, hentries, rfl⟩, fun hkeys hlossy => ?_⟩
    have hsame := hback hkeys.2 fun k v hmem h => hlossy (.entry hmem h)
    have hnodup : (gs.map Prod.fst).Nodup := by
      have hfirst : gs.map Prod.fst = entries.map Prod.fst := by
        rw [← hsame, convertEntries, List.map_map]
        rfl
      rw [hfirst]
      exact hkeys.1.nodup
    have hperm := gentriesToGrafeoValues_perm gs [] hnodup (by simp)
    rw [List.append_nil, hsame] at hperm
    exact congrArg Value.map
      ((keyOrder_gentriesToGrafeoValues gs [] .nil).eq_of_perm hkeys.1 hperm)

theorem lvalsToGvals_grafeoValuesToLvals : ∀ items : List Value,
    ∃ gs, lvalsToGvals (grafeoValuesToLvals items) = .ok gs ∧
      (KeyOrderedItems items → (∀ v ∈ items, ¬ Lossy v) → gvalsToGrafeoValues gs = items)
  | [] => ⟨[], rfl, fun _ _ => rfl⟩
  | v :: rest => by
    obtain ⟨g, hv, hback⟩ := lvalToGval_grafeoValueToLval v
    obtain ⟨gs, hrest, hbacks⟩ := lvalsToGvals_grafeoValuesToLvals rest
    refine ⟨_, lvalsToGvals_cons_ok.mpr ⟨g, hv, gs, hrest, rfl⟩, fun hkeys hlossy => ?_⟩
    rw [gvalsToGrafeoValues, hback hkeys.1 (hlossy v List.mem_cons_self),
      hbacks hkeys.2 fun v' hmem => hlossy v' (List.mem_cons_of_mem _ hmem)]

theorem lentriesToGentries_grafeoEntriesToLentries : ∀ entries : List (String × Value),
    ∃ gs, lentriesToGentries (grafeoEntriesToLentries entries) = .ok gs ∧
      (KeyOrderedEntries entries → (∀ k v, (k, v) ∈ entries → ¬ Lossy v) →
        convertEntries gs = entries)
  | [] => ⟨[], rfl, fun _ _ => rfl⟩
  | (k, v) :: rest => by
    obtain ⟨g, hv, hback⟩ := lvalToGval_grafeoValueToLval v
    obtain ⟨gs, hrest, hbacks⟩ := lentriesToGentries_grafeoEntriesToLentries rest
    refine ⟨_, lentriesToGentries_cons_ok.mpr ⟨g, hv, gs, hrest, rfl⟩, fun hkeys hlossy => ?_⟩
    have htail : convertEntries gs = rest :=
      hbacks hkeys.2 fun k' v' hmem => hlossy k' v' (List.mem_cons_of_mem _ hmem)
    show (k, gvalToGrafeoValue g) :: convertEntries gs = (k, v) :: rest
    rw [hback hkeys.1 (hlossy k v List.mem_cons_self), htail]

end

mutual

/-- The outbound conversion keeps the keys of the maps. -/
theorem distinctKeys_grafeoValueToLval : ∀ v : Value, KeyOrdered v →
    DistinctKeys (grafeoValueToLval v)
  | .null, _ | .bool _, _ | .int64 _, _ | .float64 _, _ | .string _, _ | .exotic _, _ => trivial
  | .vector v, _ => by
    show DistinctKeysItems (v.map fun f => .double (widenFloat f))
    induction v with
    | nil => trivial
    | cons f rest ih => exact ⟨trivial, ih trivial⟩
  | .list items, h => distinctKeysItems_grafeoValuesToLvals items h
  | .map entries, h => by
    refine ⟨?_, distinctKeysEntries_grafeoEntriesToLentries entries h.2⟩
    rw [grafeoEntriesToLentries_eq, List.map_map]
    exact h.1.nodup

theorem distinctKeysItems_grafeoValuesToLvals : ∀ items : List Value, KeyOrderedItems items →
    DistinctKeysItems (grafeoValuesToLvals items)
  | [], _ => trivial
  | v :: rest, h =>
    ⟨distinctKeys_grafeoValueToLval v h.1, distinctKeysItems_grafeoValuesToLvals rest h.2⟩

theorem distinctKeysEntries_grafeoEntriesToLentries : ∀ entries : List (String × Value),
    KeyOrderedEntries entries → DistinctKeysEntries (grafeoEntriesToLentries entries)
  | [], _ => trivial
  | (_, v) :: rest, h =>
    ⟨distinctKeys_grafeoValueToLval v h.1, distinctKeysEntries_grafeoEntriesToLentries rest h.2⟩

end

/-- What the loop over the entries of a map puts into the `BTreeMap`. -/
theorem mem_gentriesToGrafeoValues {gs : List (String × GraphValue)} :
    ∀ {bt : List (String × Value)} {e : String × Value}, e ∈ gentriesToGrafeoValues gs bt →
      e ∈ bt ∨ ∃ k g, (k, g) ∈ gs ∧ e = (k, gvalToGrafeoValue g) := by
  induction gs with
  | nil => exact fun h => .inl h
  | cons first rest ih =>
    intro bt e h
    rcases ih h with h | ⟨k, g, hmem, rfl⟩
    · rcases mem_btreeInsert h with rfl | h
      · exact .inr ⟨first.1, first.2, List.mem_cons_self, rfl⟩
      · exact .inl h
    · exact .inr ⟨k, g, List.mem_cons_of_mem _ hmem, rfl⟩

mutual

/-- A Loro value never becomes a lossy one. -/
theorem not_lossy_of_lvalToGval : ∀ (w : LoroValue) (g : GraphValue), lvalToGval w = .ok g →
    ¬ Lossy (gvalToGrafeoValue g)
  | .null, g, h | .bool _, g, h | .i64 _, g, h | .double _, g, h | .string _, g, h => by
    obtain rfl := Except.ok.inj h
    exact fun hlossy => nomatch hlossy
  | .binary _, _, h | .container _, _, h => by cases h
  | .list items, g, h => by
    rw [lvalToGval, except_map_eq_ok] at h
    obtain ⟨gs, hitems, rfl⟩ := h
    intro hlossy
    cases hlossy with
    | item hmem hlossy => exact not_lossy_items items gs hitems _ hmem hlossy
  | .map entries, g, h => by
    rw [lvalToGval, except_map_eq_ok] at h
    obtain ⟨gs, hentries, rfl⟩ := h
    intro hlossy
    cases hlossy with
    | entry hmem hlossy =>
      rcases mem_gentriesToGrafeoValues hmem with hnil | ⟨k, g, hg, heq⟩
      · exact List.not_mem_nil hnil
      · obtain ⟨-, rfl⟩ := Prod.mk.inj heq
        exact not_lossy_entries entries gs hentries k g hg hlossy

theorem not_lossy_items : ∀ (items : List LoroValue) (gs : List GraphValue),
    lvalsToGvals items = .ok gs → ∀ v ∈ gvalsToGrafeoValues gs, ¬ Lossy v
  | [], gs, h, v, hmem => by
    obtain rfl := Except.ok.inj h
    cases hmem
  | w :: rest, gs, h, v, hmem => by
    obtain ⟨g, hw, gs₁, hrest, rfl⟩ := lvalsToGvals_cons_ok.mp h
    rcases List.mem_cons.mp hmem with rfl | hmem
    · exact not_lossy_of_lvalToGval w g hw
    · exact not_lossy_items rest gs₁ hrest v hmem

theorem not_lossy_entries : ∀ (entries : List (String × LoroValue))
    (gs : List (String × GraphValue)), lentriesToGentries entries = .ok gs →
    ∀ k g, (k, g) ∈ gs → ¬ Lossy (gvalToGrafeoValue g)
  | [], gs, h, k, g, hmem => by
    obtain rfl := Except.ok.inj h
    cases hmem
  | (k', w) :: rest, gs, h, k, g, hmem => by
    obtain ⟨g', hw, gs₁, hrest, rfl⟩ := lentriesToGentries_cons_ok.mp h
    rcases List.mem_cons.mp hmem with heq | hmem
    · obtain ⟨-, rfl⟩ := Prod.mk.inj heq
      exact not_lossy_of_lvalToGval w g hw
    · exact not_lossy_entries rest gs₁ hrest k g hmem

end

/-- A Grafeo value through Loro and back, whatever the orders of the hash maps in between. The way
back never fails, and it gives the value exactly when that contains neither a vector nor an exotic
value. -/
theorem grafeoValue_roundTrip (v : Value) (hkeys : KeyOrdered v) :
    (∀ w, SameValue (grafeoValueToLval v) w → ∃ g, lvalToGval w = .ok g) ∧
      ((∀ w g g', SameValue (grafeoValueToLval v) w → lvalToGval w = .ok g → SameGraph g g' →
          gvalToGrafeoValue g' = v) ↔ ¬ Lossy v) := by
  obtain ⟨g₀, hback, hvalue⟩ := lvalToGval_grafeoValueToLval v
  refine ⟨fun w hsame => ?_, fun hall => ?_, fun hlossy w g g' hsame hw hg => ?_⟩
  · obtain ⟨g, hw, -⟩ := lvalToGval_congr _ w g₀ hsame hback
    exact ⟨g, hw⟩
  · rw [← hall _ g₀ g₀ (.refl _) hback (.refl _)]
    exact not_lossy_of_lvalToGval _ g₀ hback
  · have hdistinct := distinctGraph_of_distinctKeys _ g₀ (distinctKeys_grafeoValueToLval v hkeys)
      hback
    obtain ⟨g₁, hw', hsame₁⟩ := lvalToGval_congr _ w g₀ hsame hback
    obtain rfl : g₁ = g := Except.ok.inj (hw'.symm.trans hw)
    obtain ⟨hdistinct₁, heq₁⟩ := gvalToGrafeoValue_congr g₀ g₁ hdistinct hsame₁
    rw [← (gvalToGrafeoValue_congr g₁ g' hdistinct₁ hg).2, ← heq₁]
    exact hvalue hkeys hlossy

/-- A map of two entries comes back in key order when Loro has them the other way round. -/
theorem grafeoValue_roundTrip_map :
    let v : Value := .map [("a", .int64 1), ("b", .null)]
    let w : LoroValue := .map [("b", .null), ("a", .i64 1)]
    SameValue (grafeoValueToLval v) w ∧ ∃ g, lvalToGval w = .ok g ∧ gvalToGrafeoValue g = v := by
  intro v w
  have hkeys : KeyOrdered v := by
    refine ⟨?_, trivial, trivial, trivial⟩
    unfold KeyOrder
    decide
  have hlossy : ¬ Lossy (.map [("a", .int64 1), ("b", .null)]) := by
    intro hlossy
    cases hlossy with
    | entry hmem h =>
      simp only [List.mem_cons, List.not_mem_nil, or_false, Prod.mk.injEq] at hmem
      rcases hmem with ⟨-, rfl⟩ | ⟨-, rfl⟩ <;> cases h
  have hsame : SameValue (grafeoValueToLval v) w :=
    .map (.cons (.refl _) (.swap _ _ _) (.cons (.refl _) (.refl _) .nil))
  obtain ⟨g, hw⟩ := (grafeoValue_roundTrip v hkeys).1 w hsame
  exact ⟨hsame, g, hw, (grafeoValue_roundTrip v hkeys).2.mpr hlossy w g g hsame hw (.refl g)⟩

end GrafeoLoro.Proofs
