import Mathlib.Data.List.Nodup
import Mathlib.Logic.Equiv.Basic

/-!
# `GrafeoLoro.Lib.Keyed`: upserts by key into a store that hands out ids

A `Keyed` store binds keys to ids and ids to entries, and hands out the ids in order. A `Write`
changes the entry of its key, or makes a new one under the next id. So the order of the writes
decides which key gets which id, and nothing else.

* `writeAll_perm`: writes with distinct keys, in any two orders, leave the same store up to a
  renaming of the ids that they hand out.

The module names nothing of the bridge.
-/

set_option autoImplicit false

namespace GrafeoLoro.Lib

/-- A store with entries under ids, and keys that are bound to ids. -/
@[ext] structure Keyed (K V : Type) where
  idOf : K → Option Nat
  keyOf : Nat → Option K
  entry : Nat → Option V
  next : Nat

/-- A write of one key: the entry that is made, and the change of the entry that is there. -/
structure Write (K V : Type) where
  key : K
  new : V
  change : V → V

namespace Keyed

variable {K V : Type}

/-- The same store under other ids. -/
def rename (ρ : Equiv.Perm Nat) (s : Keyed K V) : Keyed K V where
  idOf := Option.map ρ ∘ s.idOf
  keyOf := s.keyOf ∘ ρ.symm
  entry := s.entry ∘ ρ.symm
  next := s.next

/-- The keys are bound to different ids, all of them handed out before. -/
structure Ok (s : Keyed K V) : Prop where
  injective : ∀ k k' id, s.idOf k = some id → s.idOf k' = some id → k = k'
  used : ∀ k id, s.idOf k = some id → id < s.next

theorem rename_refl (s : Keyed K V) : s.rename (Equiv.refl Nat) = s := by
  refine Keyed.ext ?_ rfl rfl rfl
  funext k
  simp [rename]

theorem rename_trans (ρ ρ' : Equiv.Perm Nat) (s : Keyed K V) :
    (s.rename ρ).rename ρ' = s.rename (ρ.trans ρ') := by
  refine Keyed.ext ?_ rfl rfl rfl
  funext k
  simp [rename, Function.comp_def]

theorem keyOf_of_rename {s s' : Keyed K V} {ρ : Equiv.Perm Nat} (h : s' = s.rename ρ) (id : Nat) :
    s'.keyOf (ρ id) = s.keyOf id := by
  rw [h]
  exact congrArg s.keyOf (Equiv.symm_apply_apply ρ id)

theorem entry_of_rename {s s' : Keyed K V} {ρ : Equiv.Perm Nat} (h : s' = s.rename ρ) (id : Nat) :
    s'.entry (ρ id) = s.entry id := by
  rw [h]
  exact congrArg s.entry (Equiv.symm_apply_apply ρ id)

variable [DecidableEq K]

/-- One write. -/
def write (s : Keyed K V) (w : Write K V) : Keyed K V :=
  match s.idOf w.key with
  | some id => { s with entry := Function.update s.entry id ((s.entry id).map w.change) }
  | none =>
    { idOf := Function.update s.idOf w.key (some s.next)
      keyOf := Function.update s.keyOf s.next (some w.key)
      entry := Function.update s.entry s.next (some w.new)
      next := s.next + 1 }

/-- The writes in their order. -/
def writeAll (s : Keyed K V) (ws : List (Write K V)) : Keyed K V := ws.foldl write s

section
variable {s : Keyed K V} {w w' : Write K V} {id id' : Nat}

theorem write_hit (h : s.idOf w.key = some id) :
    s.write w = { s with entry := Function.update s.entry id ((s.entry id).map w.change) } := by
  rw [write, h]

theorem write_miss (h : s.idOf w.key = none) :
    s.write w =
      { idOf := Function.update s.idOf w.key (some s.next)
        keyOf := Function.update s.keyOf s.next (some w.key)
        entry := Function.update s.entry s.next (some w.new)
        next := s.next + 1 } := by
  rw [write, h]

/-- No id is handed out twice. -/
theorem next_le_write (s : Keyed K V) (w : Write K V) : s.next ≤ (s.write w).next := by
  cases h : s.idOf w.key with
  | some id =>
    have hnext : (s.write w).next = s.next := by rw [write_hit h]
    exact Nat.le_of_eq hnext.symm
  | none =>
    have hnext : (s.write w).next = s.next + 1 := by rw [write_miss h]
    exact hnext ▸ Nat.le_succ _

/-- A write keeps the bindings. -/
theorem idOf_write_of_some {k : K} (h : s.idOf k = some id) : (s.write w).idOf k = some id := by
  cases hw : s.idOf w.key with
  | some id' =>
    rw [write_hit hw]
    exact h
  | none =>
    have hne : k ≠ w.key := fun heq => by
      rw [heq, hw] at h
      cases h
    rw [write_miss hw]
    exact (Function.update_of_ne hne _ _).trans h

/-- A write binds its own key only. -/
theorem idOf_write_of_ne {k : K} (hne : k ≠ w.key) : (s.write w).idOf k = s.idOf k := by
  cases hw : s.idOf w.key with
  | some id => rw [write_hit hw]
  | none =>
    rw [write_miss hw]
    exact Function.update_of_ne hne _ _

theorem idOf_writeAll_of_some (ws : List (Write K V)) {s : Keyed K V} {k : K}
    (h : s.idOf k = some id) : (s.writeAll ws).idOf k = some id := by
  induction ws generalizing s with
  | nil => exact h
  | cons w ws ih => exact ih (idOf_write_of_some h)

/-- The writes of a list of things that make at most one write each. -/
theorem writeAll_filterMap_cons {α : Type} (f : α → Option (Write K V)) (a : α) (l : List α) :
    s.writeAll ((a :: l).filterMap f) = (s.writeAll (f a).toList).writeAll (l.filterMap f) := by
  rw [List.filterMap_cons]
  cases f a <;> rfl

theorem Ok.write (h : s.Ok) (w : Write K V) : (s.write w).Ok := by
  cases hw : s.idOf w.key with
  | some id =>
    rw [write_hit hw]
    exact ⟨h.injective, h.used⟩
  | none =>
    rw [write_miss hw]
    -- the next id is bound to no key yet
    have hbound : ∀ k id, Function.update s.idOf w.key (some s.next) k = some id →
        k = w.key ∧ id = s.next ∨ k ≠ w.key ∧ s.idOf k = some id := by
      intro k id hk
      by_cases heq : k = w.key
      · rw [heq, Function.update_self] at hk
        exact .inl ⟨heq, (Option.some.inj hk).symm⟩
      · rw [Function.update_of_ne heq] at hk
        exact .inr ⟨heq, hk⟩
    constructor
    case injective =>
      intro k k' id hk hk'
      rcases hbound k id hk with ⟨rfl, rfl⟩ | ⟨_, hold⟩
      · rcases hbound k' _ hk' with ⟨rfl, _⟩ | ⟨_, hold'⟩
        · rfl
        · exact absurd (h.used _ _ hold') (Nat.lt_irrefl _)
      · rcases hbound k' _ hk' with ⟨rfl, rfl⟩ | ⟨_, hold'⟩
        · exact absurd (h.used _ _ hold) (Nat.lt_irrefl _)
        · exact h.injective k k' id hold hold'
    case used =>
      intro k id hk
      rcases hbound k id hk with ⟨_, rfl⟩ | ⟨_, hold⟩
      · exact Nat.lt_succ_self _
      · exact Nat.lt_succ_of_lt (h.used k id hold)

/-! ### Renaming -/

/-- A write after a renaming that keeps the next id. -/
theorem write_rename {ρ : Equiv.Perm Nat} (hnext : ρ s.next = s.next) :
    (s.rename ρ).write w = (s.write w).rename ρ := by
  cases hw : s.idOf w.key with
  | some id =>
    have hw' : (s.rename ρ).idOf w.key = some (ρ id) := by
      show (s.idOf w.key).map ρ = some (ρ id)
      rw [hw, Option.map_some]
    rw [write_hit hw, write_hit hw', entry_of_rename rfl]
    refine Keyed.ext rfl rfl ?_ rfl
    show Function.update (s.entry ∘ ρ.symm) (ρ id) _ = Function.update s.entry id _ ∘ ρ.symm
    rw [Function.update_comp_equiv, Equiv.symm_symm]
  | none =>
    have hw' : (s.rename ρ).idOf w.key = none := by
      show (s.idOf w.key).map ρ = none
      rw [hw, Option.map_none]
    rw [write_miss hw, write_miss hw']
    refine Keyed.ext ?_ ?_ ?_ rfl
    · show Function.update (Option.map ρ ∘ s.idOf) w.key (some s.next) =
        Option.map ρ ∘ Function.update s.idOf w.key (some s.next)
      rw [Function.comp_update, Option.map_some, hnext]
    · show Function.update (s.keyOf ∘ ρ.symm) s.next _ = Function.update s.keyOf s.next _ ∘ ρ.symm
      rw [Function.update_comp_equiv, Equiv.symm_symm, hnext]
    · show Function.update (s.entry ∘ ρ.symm) s.next _ = Function.update s.entry s.next _ ∘ ρ.symm
      rw [Function.update_comp_equiv, Equiv.symm_symm, hnext]

theorem next_le_writeAll (ws : List (Write K V)) (s : Keyed K V) :
    s.next ≤ (s.writeAll ws).next := by
  induction ws generalizing s with
  | nil => exact Nat.le_refl _
  | cons w ws ih => exact Nat.le_trans (next_le_write s w) (ih (s.write w))

/-- Writes after a renaming that keeps every id from the next one on. -/
theorem writeAll_rename {ρ : Equiv.Perm Nat} (ws : List (Write K V)) {s : Keyed K V}
    (hnext : ∀ id, s.next ≤ id → ρ id = id) :
    (s.rename ρ).writeAll ws = (s.writeAll ws).rename ρ := by
  induction ws generalizing s with
  | nil => rfl
  | cons w ws ih =>
    show ((s.rename ρ).write w).writeAll ws = ((s.write w).writeAll ws).rename ρ
    rw [write_rename (hnext s.next (Nat.le_refl _))]
    exact ih fun id hid => hnext id (Nat.le_trans (next_le_write s w) hid)

/-! ### Reordering -/

/-- A write of a bound key, before and after a write of another key. -/
theorem write_comm_of_hit (h : s.Ok) (hne : w.key ≠ w'.key) (hw : s.idOf w.key = some id) :
    (s.write w').write w = (s.write w).write w' := by
  have hw₂ : (s.write w').idOf w.key = some id := idOf_write_of_some hw
  cases hw' : s.idOf w'.key with
  | some id' =>
    have hw₁ : (s.write w).idOf w'.key = some id' := idOf_write_of_some hw'
    -- Two keys are never bound to one id, so the two changes are at different places.
    have hids : id ≠ id' := fun heq => hne (h.injective _ _ _ hw (heq ▸ hw'))
    rw [write_hit hw₁, write_hit hw₂, write_hit hw, write_hit hw']
    refine Keyed.ext rfl rfl ?_ rfl
    simp only [Function.update_of_ne hids, Function.update_of_ne hids.symm]
    exact Function.update_comm hids.symm _ _ _
  | none =>
    have hw₁ : (s.write w).idOf w'.key = none := (idOf_write_of_ne hne.symm).trans hw'
    have hids : id ≠ s.next := Nat.ne_of_lt (h.used _ _ hw)
    rw [write_miss hw₁, write_hit hw₂, write_hit hw, write_miss hw']
    refine Keyed.ext rfl rfl ?_ rfl
    simp only [Function.update_of_ne hids]
    exact Function.update_comm hids.symm _ _ _

/-- Two updates with their places swapped. -/
theorem update_swap {X : Type} (f : Nat → X) (n : Nat) (a b : X) :
    Function.update (Function.update f n b) (n + 1) a =
      Function.update (Function.update f n a) (n + 1) b ∘ (Equiv.swap n (n + 1)).symm := by
  funext id
  rw [Function.comp_apply, Equiv.symm_swap]
  by_cases hnext : id = n + 1
  · simp [hnext]
  · by_cases hid : id = n
    · simp [hid]
    · rw [Equiv.swap_apply_of_ne_of_ne hid hnext]
      simp [hid, hnext]

/-- Two writes of different keys, in both orders. When both make an entry, their ids are swapped. -/
theorem write_comm (h : s.Ok) (hne : w.key ≠ w'.key) :
    ∃ ρ : Equiv.Perm Nat, (∀ id, id < s.next ∨ ((s.write w).write w').next ≤ id → ρ id = id) ∧
      (s.write w').write w = ((s.write w).write w').rename ρ := by
  cases hw : s.idOf w.key with
  | some id =>
    exact ⟨Equiv.refl _, fun _ _ => rfl, by rw [rename_refl, write_comm_of_hit h hne hw]⟩
  | none =>
    cases hw' : s.idOf w'.key with
    | some id' =>
      refine ⟨Equiv.refl _, fun _ _ => rfl, ?_⟩
      rw [rename_refl, write_comm_of_hit h hne.symm hw']
    | none =>
      have hw₁ : (s.write w).idOf w'.key = none := (idOf_write_of_ne hne.symm).trans hw'
      have hw₂ : (s.write w').idOf w.key = none := (idOf_write_of_ne hne).trans hw
      -- Both are new, and each gets the id that the other one gets in the other order.
      have hold : Option.map (Equiv.swap s.next (s.next + 1)) ∘ s.idOf = s.idOf := by
        funext k
        cases hk : s.idOf k with
        | none => simp [hk]
        | some id =>
          have hlt := h.used k id hk
          rw [Function.comp_apply, hk, Option.map_some,
            Equiv.swap_apply_of_ne_of_ne (by omega) (by omega)]
      rw [write_miss hw₁, write_miss hw₂, write_miss hw, write_miss hw']
      refine ⟨Equiv.swap s.next (s.next + 1), fun id hid => ?_, ?_⟩
      · have hrange : id < s.next ∨ s.next + 1 + 1 ≤ id := hid
        exact Equiv.swap_apply_of_ne_of_ne (by omega) (by omega)
      · refine Keyed.ext ?_ (update_swap _ _ _ _) (update_swap _ _ _ _) rfl
        show Function.update (Function.update s.idOf w'.key (some s.next)) w.key
            (some (s.next + 1)) =
          Option.map _ ∘ Function.update (Function.update s.idOf w.key (some s.next)) w'.key
            (some (s.next + 1))
        rw [Function.comp_update, Function.comp_update, hold, Option.map_some, Option.map_some,
          Equiv.swap_apply_left, Equiv.swap_apply_right, Function.update_comm hne.symm]

/-- Writes of different keys, in any two orders. The ids from before stay. -/
theorem writeAll_perm {ws ws' : List (Write K V)} (hperm : ws.Perm ws') {s : Keyed K V} (h : s.Ok)
    (hnodup : (ws.map Write.key).Nodup) :
    ∃ ρ : Equiv.Perm Nat, (∀ id, id < s.next ∨ (s.writeAll ws).next ≤ id → ρ id = id) ∧
      s.writeAll ws' = (s.writeAll ws).rename ρ := by
  induction hperm generalizing s with
  | nil => exact ⟨Equiv.refl _, fun _ _ => rfl, (rename_refl _).symm⟩
  | cons w _ ih =>
    obtain ⟨ρ, hfix, hsame⟩ := ih (h.write w) (List.nodup_cons.mp hnodup).2
    exact ⟨ρ, fun id hid => hfix id (hid.imp_left fun hlt =>
      Nat.lt_of_lt_of_le hlt (next_le_write s w)), hsame⟩
  -- The rest of the writes goes on after the renaming.
  | swap w w' ws =>
    have hne : w'.key ≠ w.key := fun heq => (List.nodup_cons.mp hnodup).1 (by simp [heq])
    obtain ⟨ρ, hfix, hsame⟩ := write_comm h hne
    have hle := next_le_writeAll ws ((s.write w').write w)
    refine ⟨ρ, fun id hid => hfix id (hid.imp_right fun hge => Nat.le_trans hle hge), ?_⟩
    show ((s.write w).write w').writeAll ws = (((s.write w').write w).writeAll ws).rename ρ
    rw [hsame, writeAll_rename ws fun id hid => hfix id (.inr hid)]
  | @trans ws₁ ws₂ ws₃ hfirst _ ih ih' =>
    obtain ⟨ρ, hfix, hsame⟩ := ih h hnodup
    -- Both orders hand out the same ids, so the two renamings keep the same ones.
    obtain ⟨ρ', hfix', hsame'⟩ := ih' h ((hfirst.map _).nodup hnodup)
    have hnext : (s.writeAll ws₂).next = (s.writeAll ws₁).next := by
      rw [hsame]
      rfl
    refine ⟨ρ.trans ρ', fun id hid => ?_, ?_⟩
    · rw [Equiv.trans_apply, hfix id hid]
      exact hfix' id (hid.imp_right fun hge => hnext ▸ hge)
    · rw [hsame', hsame, rename_trans]

/-- What holds of every entry that is there or is made, and of an entry after each change, holds of
every entry after the writes. -/
theorem writeAll_entries {P : V → Prop} (ws : List (Write K V)) {s : Keyed K V}
    (hold : ∀ id v, s.entry id = some v → P v) (hnew : ∀ w ∈ ws, P w.new)
    (hchange : ∀ w ∈ ws, ∀ v, P v → P (w.change v)) :
    ∀ id v, (s.writeAll ws).entry id = some v → P v := by
  induction ws generalizing s with
  | nil => exact hold
  | cons w ws ih =>
    refine ih (fun id v hv => ?_) (fun w' hw' => hnew w' (List.mem_cons_of_mem _ hw'))
      fun w' hw' => hchange w' (List.mem_cons_of_mem _ hw')
    cases hw : s.idOf w.key with
    | some id' =>
      rw [write_hit hw] at hv
      change Function.update s.entry id' ((s.entry id').map w.change) id = some v at hv
      by_cases hid : id = id'
      · rw [hid, Function.update_self, Option.map_eq_some_iff] at hv
        obtain ⟨v', hv', rfl⟩ := hv
        exact hchange w List.mem_cons_self v' (hold id' v' hv')
      · rw [Function.update_of_ne hid] at hv
        exact hold id v hv
    | none =>
      rw [write_miss hw] at hv
      change Function.update s.entry s.next (some w.new) id = some v at hv
      by_cases hid : id = s.next
      · rw [hid, Function.update_self] at hv
        exact Option.some.inj hv ▸ hnew w List.mem_cons_self
      · rw [Function.update_of_ne hid] at hv
        exact hold id v hv

end

end Keyed

end GrafeoLoro.Lib
