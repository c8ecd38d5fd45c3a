import GrafeoLoro.Lib.Maps

/-!
# `GrafeoLoro.Lib.Inverse`: a finite map and its inverse kept side by side

A bijection between keys and ids is often stored as two maps, one for each direction.
`MutualInverse f g` says that the two agree: `f` sends `k` to `v` exactly when `g` sends
`v` to `k`. The two updates that keep it are the insert of a fresh pair and the erase of a
bound pair. `MutualInverse.ext` says that the forward map determines the inverse map, and
`MutualInverse.card_keys` that the two have one size.

An owner of the two maps edits them by such updates only: `Edits new` is an erase of a bound
pair, if any, and then an insert of an unbound key with a new value, if any.

The module names nothing of the bridge.
-/

set_option autoImplicit false

namespace GrafeoLoro.Lib

variable {K V : Type} [DecidableEq K] [DecidableEq V]

/-- The map `g` is the inverse of the map `f`. -/
def MutualInverse (f : Finmap fun _ : K => V) (g : Finmap fun _ : V => K) : Prop :=
  ∀ k v, f.lookup k = some v ↔ g.lookup v = some k

namespace MutualInverse

/-- Two empty maps are mutually inverse. -/
theorem empty : MutualInverse (∅ : Finmap fun _ : K => V) (∅ : Finmap fun _ : V => K) := by
  intro k v
  simp

/-- A bound value names its key, so two keys with one value are equal. -/
theorem key_unique {f : Finmap fun _ : K => V} {g : Finmap fun _ : V => K}
    (h : MutualInverse f g) {k k' : K} {v : V} (hk : f.lookup k = some v)
    (hk' : f.lookup k' = some v) : k = k' := by
  have h1 := (h k v).mp hk
  have h2 := (h k' v).mp hk'
  exact Option.some.inj (h1.symm.trans h2)

/-- The insert of a pair whose key and value are both unbound. -/
theorem insert {f : Finmap fun _ : K => V} {g : Finmap fun _ : V => K}
    (h : MutualInverse f g) {k : K} {v : V} (hk : f.lookup k = none)
    (hv : ∀ k', f.lookup k' ≠ some v) : MutualInverse (f.insert k v) (g.insert v k) := by
  intro k' v'
  rw [finmap_lookup_insert, finmap_lookup_insert]
  by_cases hkk : k' = k
  · subst hkk
    by_cases hvv : v' = v
    · simp [hvv]
    · rw [if_pos rfl, if_neg hvv, ← h k' v', hk]
      simp [Ne.symm hvv]
  · by_cases hvv : v' = v
    · subst hvv
      rw [if_neg hkk, if_pos rfl]
      simp [hv k', Ne.symm hkk]
    · rw [if_neg hkk, if_neg hvv]
      exact h k' v'

/-- The erase of a bound pair. -/
theorem erase {f : Finmap fun _ : K => V} {g : Finmap fun _ : V => K}
    (h : MutualInverse f g) {k : K} {v : V} (hk : f.lookup k = some v) :
    MutualInverse (f.erase k) (g.erase v) := by
  intro k' v'
  rw [finmap_lookup_erase, finmap_lookup_erase]
  by_cases hkk : k' = k
  · subst hkk
    by_cases hvv : v' = v
    · simp [hvv]
    · rw [if_pos rfl, if_neg hvv, ← h k' v', hk]
      simp [Ne.symm hvv]
  · by_cases hvv : v' = v
    · subst hvv
      rw [if_neg hkk, if_pos rfl]
      simp only [reduceCtorEq, iff_false]
      exact fun hk' => hkk (h.key_unique hk' hk)
    · rw [if_neg hkk, if_neg hvv]
      exact h k' v'

/-- The forward map determines the inverse map. -/
theorem ext {f : Finmap fun _ : K => V} {g g' : Finmap fun _ : V => K}
    (h : MutualInverse f g) (h' : MutualInverse f g') : g = g' := by
  refine Finmap.ext_lookup fun v => Option.ext fun k => ?_
  rw [← h k v, ← h' k v]

/-- The insert of an unbound key with a value that the inverse map does not have. -/
theorem insert_unbound {f : Finmap fun _ : K => V} {g : Finmap fun _ : V => K}
    (h : MutualInverse f g) {k : K} {v : V} (hk : f.lookup k = none)
    (hv : g.lookup v = none) : MutualInverse (f.insert k v) (g.insert v k) := by
  apply h.insert hk
  intro k' hk'
  rw [h k' v, hv] at hk'
  cases hk'

/-- The insert of a value that is unbound, or bound to the same key: the maps stay mutually
inverse exactly when the key is unbound, or bound to the same value. -/
theorem insert_iff {f : Finmap fun _ : K => V} {g : Finmap fun _ : V => K}
    (h : MutualInverse f g) {k : K} {v : V}
    (hv : g.lookup v = none ∨ g.lookup v = some k) :
    MutualInverse (f.insert k v) (g.insert v k) ↔
      f.lookup k = none ∨ f.lookup k = some v := by
  constructor
  · intro h'
    cases hk : f.lookup k with
    | none => exact .inl rfl
    | some v' =>
      right
      by_contra hne
      have hvv : v' ≠ v := fun heq => hne (congrArg some heq)
      -- the entry of the old value stays in the inverse map
      have hold := (h' k v').mpr (by
        rw [finmap_lookup_insert, if_neg hvv]
        exact (h k v').mp hk)
      rw [finmap_lookup_insert, if_pos rfl] at hold
      exact hvv (Option.some.inj hold).symm
  · intro hk
    cases hk with
    | inl hnone =>
      cases hv with
      | inl hfree => exact h.insert_unbound hnone hfree
      | inr hbound =>
        rw [← h k v, hnone] at hbound
        cases hbound
    | inr hsame =>
      -- the pair is there already
      have hf : f.insert k v = f := by
        apply Finmap.ext_lookup
        intro k'
        rw [finmap_lookup_insert]
        split
        · rename_i heq
          rw [heq, hsame]
        · rfl
      have hg : g.insert v k = g := by
        apply Finmap.ext_lookup
        intro v'
        rw [finmap_lookup_insert]
        split
        · rename_i heq
          rw [heq, (h k v).mp hsame]
        · rfl
      rw [hf, hg]
      exact h

/-- Mutually inverse maps have one size. -/
theorem card_keys {f : Finmap fun _ : K => V} {g : Finmap fun _ : V => K}
    (h : MutualInverse f g) : f.keys.card = g.keys.card := by
  have hval : ∀ k ∈ f.keys, ∃ v, f.lookup k = some v := by
    intro k hk
    exact Finmap.mem_iff.mp (Finmap.mem_keys.mp hk)
  choose val hlookup using hval
  apply Finset.card_bij val
  case hi =>
    intro k hk
    exact Finmap.mem_keys.mpr (Finmap.mem_iff.mpr ⟨k, (h k _).mp (hlookup k hk)⟩)
  case i_inj =>
    intro k hk k' hk' heq
    have hsame := hlookup k' hk'
    rw [← heq] at hsame
    exact h.key_unique (hlookup k hk) hsame
  case i_surj =>
    intro v hv
    obtain ⟨k, hk⟩ := Finmap.mem_iff.mp (Finmap.mem_keys.mp hv)
    have hfk := (h k v).mpr hk
    have hmem : k ∈ f.keys := Finmap.mem_keys.mpr (Finmap.mem_iff.mpr ⟨v, hfk⟩)
    exact ⟨k, hmem, Option.some.inj ((hlookup k hmem).symm.trans hfk)⟩

end MutualInverse

/-! ### Edits of the two maps -/

/-- Nothing, or the erase of a bound pair. -/
def Unbinds (f : Finmap fun _ : K => V) (g : Finmap fun _ : V => K)
    (f' : Finmap fun _ : K => V) (g' : Finmap fun _ : V => K) : Prop :=
  (f' = f ∧ g' = g) ∨ ∃ k v, f.lookup k = some v ∧ f' = f.erase k ∧ g' = g.erase v

/-- Nothing, or the insert of an unbound key with a new value. -/
def Binds (new : V → Prop) (f : Finmap fun _ : K => V) (g : Finmap fun _ : V => K)
    (f' : Finmap fun _ : K => V) (g' : Finmap fun _ : V => K) : Prop :=
  (f' = f ∧ g' = g) ∨
    ∃ k v, f.lookup k = none ∧ new v ∧ f' = f.insert k v ∧ g' = g.insert v k

/-- An erase of a bound pair, if any, and then an insert of an unbound key with a new value, if
any. -/
def Edits (new : V → Prop) (f : Finmap fun _ : K => V) (g : Finmap fun _ : V => K)
    (f' : Finmap fun _ : K => V) (g' : Finmap fun _ : V => K) : Prop :=
  ∃ f₁ g₁, Unbinds f g f₁ g₁ ∧ Binds new f₁ g₁ f' g'

section
variable {new : V → Prop} {f f' : Finmap fun _ : K => V} {g g' : Finmap fun _ : V => K}

/-- No edit. -/
theorem Edits.same (h : f' = f ∧ g' = g) : Edits new f g f' g' :=
  ⟨f, g, .inl ⟨rfl, rfl⟩, .inl h⟩

/-- One erase. -/
theorem Edits.unbind (h : Unbinds f g f' g') : Edits new f g f' g' :=
  ⟨f', g', h, .inl ⟨rfl, rfl⟩⟩

/-- One insert. -/
theorem Edits.bind (h : Binds new f g f' g') : Edits new f g f' g' :=
  ⟨f, g, .inl ⟨rfl, rfl⟩, h⟩

/-- An erase keeps the maps mutually inverse. -/
theorem MutualInverse.unbinds (h : MutualInverse f g) (hedit : Unbinds f g f' g') :
    MutualInverse f' g' := by
  cases hedit with
  | inl hsame =>
    obtain ⟨rfl, rfl⟩ := hsame
    exact h
  | inr herase =>
    obtain ⟨k, v, hk, rfl, rfl⟩ := herase
    exact h.erase hk

/-- An erase binds no value. -/
theorem Unbinds.lookup_none (hedit : Unbinds f g f' g') {v : V} (hv : g.lookup v = none) :
    g'.lookup v = none := by
  cases hedit with
  | inl hsame => rw [hsame.2, hv]
  | inr herase =>
    obtain ⟨k, v', -, -, rfl⟩ := herase
    rw [finmap_lookup_erase, hv, ite_self]

/-- Edits with unbound new values keep the maps mutually inverse. -/
theorem MutualInverse.edits (h : MutualInverse f g) (hedit : Edits new f g f' g')
    (hnew : ∀ v, new v → g.lookup v = none) : MutualInverse f' g' := by
  obtain ⟨f₁, g₁, hunbind, hbind⟩ := hedit
  have h₁ := h.unbinds hunbind
  cases hbind with
  | inl hsame =>
    obtain ⟨rfl, rfl⟩ := hsame
    exact h₁
  | inr hinsert =>
    obtain ⟨k, v, hk, hv, rfl, rfl⟩ := hinsert
    exact h₁.insert_unbound hk (hunbind.lookup_none (hnew v hv))

end

end GrafeoLoro.Lib
