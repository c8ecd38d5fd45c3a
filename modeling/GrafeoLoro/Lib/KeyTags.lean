import GrafeoLoro.Lib.Maps

/-!
# `GrafeoLoro.Lib.KeyTags`: did a map of fresh ids come back to where it started?

A map binds keys to ids. A key that is bound gets the next id of a counter, so an id is never
used twice. To know whether the map is the same after some updates as before, the ids are not
needed: it is enough to know for each key whether it is unbound, bound as at the start, or
bound anew. `KeyTag` is this knowledge, and `Tagged` says that the tags describe the map.

* `Tagged.start`, `Tagged.bind` and `Tagged.unbind` follow the updates.
* `Tagged.eq_iff`: the map is the same as at the start exactly when the tags are.

The module names nothing of the bridge.
-/

set_option autoImplicit false

namespace GrafeoLoro.Lib

/-- What is known of a key. -/
inductive KeyTag where
  | unbound
  /-- Bound to the id it had at the start. -/
  | old
  /-- Bound to an id that was handed out since the start. -/
  | new
  deriving DecidableEq, Repr

variable {K : Type} [DecidableEq K]

/-- The tags at the start. -/
def startTags (m : Finmap fun _ : K => Nat) (k : K) : KeyTag :=
  if (m.lookup k).isSome then .old else .unbound

/-- The tags after the key was bound, unless it is bound already. -/
def bindTag (tags : K → KeyTag) (key k : K) : KeyTag :=
  if k = key ∧ tags key = .unbound then .new else tags k

/-- The tags after the key was unbound. -/
def unbindTag (tags : K → KeyTag) (key k : K) : KeyTag :=
  if k = key then .unbound else tags k

/-- The tag of a key describes its binding. -/
def TagDescribes (start now : Option Nat) (next₀ : Nat) : KeyTag → Prop
  | .unbound => now = none
  | .old => now = start ∧ start.isSome
  | .new => ∃ id, now = some id ∧ next₀ ≤ id

/-- The tags describe the map `m`, which was `m₀` when the counter was at `next₀`. The counter
is at `next` now. -/
structure Tagged (m₀ : Finmap fun _ : K => Nat) (next₀ : Nat) (m : Finmap fun _ : K => Nat)
    (next : Nat) (tags : K → KeyTag) : Prop where
  next_le : next₀ ≤ next
  describes : ∀ k, TagDescribes (m₀.lookup k) (m.lookup k) next₀ (tags k)

namespace Tagged

variable {m₀ m : Finmap fun _ : K => Nat} {next₀ next : Nat} {tags : K → KeyTag}

/-- At the start. -/
theorem start (m₀ : Finmap fun _ : K => Nat) (next₀ : Nat) :
    Tagged m₀ next₀ m₀ next₀ (startTags m₀) where
  next_le := Nat.le_refl _
  describes := fun k => by
    unfold startTags
    cases hk : m₀.lookup k with
    | none => rfl
    | some id => exact ⟨rfl, rfl⟩

/-- The tag says whether the key is bound. -/
theorem unbound_iff (h : Tagged m₀ next₀ m next tags) (k : K) :
    tags k = .unbound ↔ m.lookup k = none := by
  have hk := h.describes k
  cases htag : tags k with
  | unbound =>
    rw [htag] at hk
    have hnone : m.lookup k = none := hk
    simp [hnone]
  | old =>
    rw [htag] at hk
    have hsome : (m.lookup k).isSome := by
      rw [hk.1]
      exact hk.2
    simp [Option.isSome_iff_ne_none.mp hsome]
  | new =>
    rw [htag] at hk
    obtain ⟨id, hid, -⟩ := hk
    simp [hid]

/-- A step of the counter alone. -/
theorem mono (h : Tagged m₀ next₀ m next tags) {next' : Nat} (hle : next ≤ next') :
    Tagged m₀ next₀ m next' tags :=
  ⟨Nat.le_trans h.next_le hle, h.describes⟩

/-- A bound key stays as it is. -/
theorem bind_bound (h : Tagged m₀ next₀ m next tags) {key : K} (hkey : m.lookup key ≠ none) :
    bindTag tags key = tags := by
  have hbound : tags key ≠ .unbound := fun hu => hkey ((h.unbound_iff key).mp hu)
  funext k
  exact if_neg fun hk => hbound hk.2

/-- An unbound key is bound to the next id. -/
theorem bind (h : Tagged m₀ next₀ m next tags) {key : K} (hkey : m.lookup key = none) :
    Tagged m₀ next₀ (m.insert key next) (next + 1) (bindTag tags key) where
  next_le := Nat.le_succ_of_le h.next_le
  describes := fun k => by
    have hunbound := (h.unbound_iff key).mpr hkey
    rw [finmap_lookup_insert, bindTag]
    by_cases hk : k = key
    · rw [if_pos hk, if_pos ⟨hk, hunbound⟩]
      exact ⟨next, rfl, h.next_le⟩
    · rw [if_neg hk, if_neg fun hand => hk hand.1]
      exact h.describes k

/-- A key is unbound. -/
theorem unbind (h : Tagged m₀ next₀ m next tags) (key : K) :
    Tagged m₀ next₀ (m.erase key) next (unbindTag tags key) where
  next_le := h.next_le
  describes := fun k => by
    rw [finmap_lookup_erase, unbindTag]
    by_cases hk : k = key
    · rw [if_pos hk, if_pos hk]
      rfl
    · rw [if_neg hk, if_neg hk]
      exact h.describes k

/-- An unbound key that is unbound once more. -/
theorem unbind_unbound (h : Tagged m₀ next₀ m next tags) {key : K} (hkey : m.lookup key = none) :
    unbindTag tags key = tags := by
  funext k
  unfold unbindTag
  by_cases hk : k = key
  · rw [if_pos hk, hk, (h.unbound_iff key).mpr hkey]
  · rw [if_neg hk]

/-- The map is the same as at the start exactly when the tags are. The ids at the start are
ones that the counter had handed out. -/
theorem eq_iff (h : Tagged m₀ next₀ m next tags)
    (hfresh : ∀ k id, m₀.lookup k = some id → id < next₀) :
    m = m₀ ↔ tags = startTags m₀ := by
  constructor
  · rintro rfl
    funext k
    have hk := h.describes k
    cases htag : tags k with
    | unbound =>
      rw [htag] at hk
      have hnone : m.lookup k = none := hk
      simp [startTags, hnone]
    | old =>
      rw [htag] at hk
      simp [startTags, hk.2]
    | new =>
      -- a new id is not below the counter at the start
      rw [htag] at hk
      obtain ⟨id, hid, hle⟩ := hk
      exact absurd (hfresh k id hid) (Nat.not_lt.mpr hle)
  · rintro rfl
    refine Finmap.ext_lookup fun k => ?_
    have hk := h.describes k
    cases hstart : m₀.lookup k with
    | none =>
      simp only [startTags, hstart, Option.isSome_none, Bool.false_eq_true, if_false] at hk
      exact hk
    | some id =>
      simp only [startTags, hstart, Option.isSome_some, if_true] at hk
      exact hk.1

end Tagged

end GrafeoLoro.Lib
