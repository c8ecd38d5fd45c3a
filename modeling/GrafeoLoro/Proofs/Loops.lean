import GrafeoLoro.Hydration

/-!
# `GrafeoLoro.Proofs.Loops`: the loops and the transactions over a bridge

`applyEach` goes through the items of a transaction, and `hydrateChunks` and `takeChunks` go
through the chunks of a document. Each stops or goes on after an error in its own way. What every
turn does to the bridge, the loop does, wherever it stops.

* `inTransaction_cases`: how a transaction around such a loop ends.
* `applyEach_rel`, `hydrateChunks_rel`, `takeChunks_rel`: for a relation between the bridge before
  and the bridge after.
* `applyEach_invariant`, `hydrateChunks_invariant`, `takeChunks_invariant`: for a property that
  each turn keeps.
-/

set_option autoImplicit false

namespace GrafeoLoro.Proofs

open GrafeoLoro

variable {R : Bridge → Bridge → Prop} {I : Bridge → Prop} (fault : Nat → Bool)

/-! ### The items of a transaction -/

section
variable {α : Type} (toOp : α → Except GrafeoLoroError LoroOp)

/-- What every op does to the bridge, the loop does. -/
theorem applyEach_rel (hrefl : ∀ b, R b b) (htrans : ∀ b b' b'', R b b' → R b' b'' → R b b'')
    (hop : ∀ item op b, toOp item = .ok op → R b (applyLoroOp fault op b).2) (items : List α) :
    ∀ b, R b (applyEach fault toOp items b).2 := by
  induction items with
  | nil => exact hrefl
  | cons item rest ih =>
    intro b
    rw [applyEach]
    split
    · exact hrefl b
    · rename_i op hitem
      have hstep := hop item op b hitem
      split
      · rename_i b' heq
        rw [heq] at hstep
        exact htrans _ _ _ hstep (ih b')
      · rename_i e b' heq
        rw [heq] at hstep
        exact hstep

/-- What every op keeps, the loop keeps. -/
theorem applyEach_invariant
    (hop : ∀ item op b, toOp item = .ok op → I b → I (applyLoroOp fault op b).2)
    (items : List α) {b : Bridge} (h : I b) : I (applyEach fault toOp items b).2 :=
  applyEach_rel (R := fun b b' => I b → I b') fault toOp (fun _ h => h)
    (fun _ _ _ hfirst hrest h => hrest (hfirst h)) hop items b h

end

/-! ### A transaction -/

/-- The three ways a transaction ends. It does not begin. It is rolled back, and the maps are
those that its body left. Or its body succeeds, and it is committed. -/
theorem inTransaction_cases (body : Bridge → BridgeResult) (b : Bridge) :
    let after := (body { b with store := b.store.tick }).2
    (fault b.store.calls = true ∧ ∃ e,
      inTransaction fault body b = (.error e, { b with store := b.store.tick })) ∨
    (fault b.store.calls = false ∧ ∃ e store,
      inTransaction fault body b = (.error e, dropSession b.store { after with store })) ∨
    (fault b.store.calls = false ∧ (body { b with store := b.store.tick }).1 = .ok () ∧
      inTransaction fault body b
        = (.ok (), { after with store := after.store.tick.tick })) := by
  unfold inTransaction beginTransaction prepareCommit commit call
  cases hbegin : fault b.store.calls with
  | true => exact .inl ⟨rfl, .grafeo, rfl⟩
  | false =>
    right
    simp only [Bool.false_eq_true, if_false, id]
    cases hbody : body { b with store := b.store.tick } with
    | mk res after =>
      cases res with
      | error e => exact .inl ⟨trivial, e, after.store, rfl⟩
      | ok u =>
        simp only
        cases hprepare : fault after.store.calls with
        | true => exact .inl ⟨trivial, .grafeo, after.store.tick, rfl⟩
        | false =>
          simp only [Bool.false_eq_true, if_false]
          cases hcommit : fault after.store.tick.calls with
          | true => exact .inl ⟨trivial, .grafeo, after.store.tick.tick, rfl⟩
          | false => exact .inr ⟨trivial, trivial, rfl⟩

/-! ### The chunks of a document -/

section
variable (hydrateMap : ContainerID → Except GrafeoLoroError VertexEntity) (root : VertexRoot)

/-- After the chunks that the threads took, the bridge is that after the first chunk and the
others. -/
theorem takeChunks_cons_bridge (chunk : List String) (rest : List (List String)) (b : Bridge) :
    (takeChunks hydrateMap fault root (chunk :: rest) b).2
      = (takeChunks hydrateMap fault root rest
          (hydrateChunk hydrateMap fault root chunk b).2).2 := by
  rw [takeChunks]
  split
  · rename_i b' heq
    rw [heq]
  · rename_i e b' heq
    rw [heq]

/-- What every chunk does to the bridge, the serial loop does. -/
theorem hydrateChunks_rel (hrefl : ∀ b, R b b)
    (htrans : ∀ b b' b'', R b b' → R b' b'' → R b b'')
    (hchunk : ∀ chunk b, R b (hydrateChunk hydrateMap fault root chunk b).2)
    (cs : List (List String)) : ∀ b, R b (hydrateChunks hydrateMap fault root cs b).2 := by
  induction cs with
  | nil => exact hrefl
  | cons chunk rest ih =>
    intro b
    have hstep := hchunk chunk b
    rw [hydrateChunks]
    split
    · rename_i b' heq
      rw [heq] at hstep
      exact htrans _ _ _ hstep (ih b')
    · rename_i e b' heq
      rw [heq] at hstep
      exact hstep

/-- What every chunk does to the bridge, the threads do. -/
theorem takeChunks_rel (hrefl : ∀ b, R b b)
    (htrans : ∀ b b' b'', R b b' → R b' b'' → R b b'')
    (hchunk : ∀ chunk b, R b (hydrateChunk hydrateMap fault root chunk b).2)
    (cs : List (List String)) : ∀ b, R b (takeChunks hydrateMap fault root cs b).2 := by
  induction cs with
  | nil => exact hrefl
  | cons chunk rest ih =>
    intro b
    rw [takeChunks_cons_bridge]
    exact htrans _ _ _ (hchunk chunk b) (ih _)

/-- What every chunk keeps, the serial loop keeps. -/
theorem hydrateChunks_invariant
    (hchunk : ∀ chunk b, I b → I (hydrateChunk hydrateMap fault root chunk b).2)
    (cs : List (List String)) {b : Bridge} (h : I b) :
    I (hydrateChunks hydrateMap fault root cs b).2 :=
  hydrateChunks_rel (R := fun b b' => I b → I b') fault hydrateMap root (fun _ h => h)
    (fun _ _ _ hfirst hrest h => hrest (hfirst h)) hchunk cs b h

/-- What every chunk keeps, the threads keep. -/
theorem takeChunks_invariant
    (hchunk : ∀ chunk b, I b → I (hydrateChunk hydrateMap fault root chunk b).2)
    (cs : List (List String)) {b : Bridge} (h : I b) :
    I (takeChunks hydrateMap fault root cs b).2 :=
  takeChunks_rel (R := fun b b' => I b → I b') fault hydrateMap root (fun _ h => h)
    (fun _ _ _ hfirst hrest h => hrest (hfirst h)) hchunk cs b h

end

end GrafeoLoro.Proofs
