import GrafeoLoro.Ffi.NodeBatch
import GrafeoLoro.Proofs.SyncViews

/-!
# `GrafeoLoro.Proofs.NodeBatch`: a batch is applied up to its first failing op

`written items key v` is what a batch makes of the view `v` of a key, in closed form: of all
values that the ops of the key give a property, the last one in the batch stays, and the other
properties stay as they were.

* `upsertNode_cases`: an upsert under failing calls is a full one or a cut off one.
* `applyLoroOpBytes_eq`: a batch that comes as bytes does the same.
* `nodeBatch_stops`: whatever calls fail, the batch is split in two. The ops of the first part are
  written in full, and of the second part at most its first op is written, and that in part.
-/

set_option autoImplicit false

namespace GrafeoLoro.Proofs

open GrafeoLoro GrafeoLoro.Lib

/-! ### One upsert under failing calls -/

/-- The property loop writes all properties, or it stops at a failed call. -/
theorem setNodeProperties_cases (fault : Nat → Bool) (id : NodeId)
    (props : List (Σ _ : String, GraphValue)) : ∀ s : Store,
    setProperties (setNodeProperty fault id) props s
        = (.ok (), (setProperties (setNodeProperty noFault id) props s).2) ∨
      ∃ done rest, props = done ++ rest ∧
        setProperties (setNodeProperty fault id) props s
          = (.error .grafeo, (setProperties (setNodeProperty noFault id) done s).2.tick) := by
  induction props with
  | nil => exact fun s => .inl rfl
  | cons e rest ih =>
    intro s
    by_cases hfault : fault s.calls = true
    · refine .inr ⟨[], e :: rest, rfl, ?_⟩
      simp only [setProperties, setNodeProperty, call, if_pos hfault]
    · rcases ih (s.tick.putNodeProperty id e.1 (gvalToGrafeoValue e.2)) with
        hall | ⟨done, rest', rfl, hcut⟩
      · refine .inl ?_
        simp only [setProperties, setNodeProperty, call, if_neg hfault]
        exact hall
      · refine .inr ⟨e :: done, rest', rfl, ?_⟩
        simp only [setProperties, setNodeProperty, call, if_neg hfault]
        exact hcut

/-- Everything an upsert under failing calls can do: what it does when no call fails, stop in the
loop over the properties, or fail to create the node. -/
theorem upsertNode_cases (fault : Nat → Bool) (key : String) (labels : List String)
    (props : Table String GraphValue) (b : Bridge) :
    applyLoroOp fault (.upsertNode key labels props) b
        = applyLoroOp noFault (.upsertNode key labels props) b ∨
      (∃ id done rest, b.maps.nodeIdMap.lookup key = some id ∧ props.entries = done ++ rest ∧
        applyLoroOp fault (.upsertNode key labels props) b = (.error .grafeo,
          ⟨(setProperties (setNodeProperty noFault id) done b.store).2.tick, b.maps⟩)) ∨
      (b.maps.nodeIdMap.lookup key = none ∧
        applyLoroOp fault (.upsertNode key labels props) b
          = (.error .grafeo, ⟨b.store.tick, b.maps⟩)) := by
  cases hkey : b.maps.nodeIdMap.lookup key with
  | none =>
    by_cases hfault : fault b.store.calls = true
    · refine .inr (.inr ⟨rfl, ?_⟩)
      simp only [applyLoroOp, applyUpsertNode, hkey, createNodeWithProps, call, if_pos hfault]
    · refine .inl ?_
      rw [upsertNode_miss labels props hkey]
      simp only [applyLoroOp, applyUpsertNode, hkey, createNodeWithProps, call, if_neg hfault]
  | some id =>
    rcases setNodeProperties_cases fault id props.entries b.store with
      hall | ⟨done, rest, hsplit, hcut⟩
    · refine .inl ?_
      rw [upsertNode_hit labels props hkey]
      simp only [applyLoroOp, applyUpsertNode, hkey, hall]
    · refine .inr (.inl ⟨id, done, rest, rfl, hsplit, ?_⟩)
      simp only [applyLoroOp, applyUpsertNode, hkey, hcut]

/-! ### What a batch means -/

/-- All pairs that the ops of a key give, in the order of the batch. -/
def pairsOf (items : List BatchItem) (key : String) : List (Σ _ : String, GraphValue) :=
  (items.filter fun item => item.op.loroKey = key).flatMap fun item => item.op.pairs

/-- The value that the batch gives a property of a key: the last one. -/
def lastValue (items : List BatchItem) (key p : String) : Option GraphValue :=
  (pairsOf items key).reverse.dlookup p

/-- What a batch makes of the view of a key. -/
def written (items : List BatchItem) (key : String) (v : View) : View :=
  if ∃ item ∈ items, item.op.loroKey = key then
    some fun p => ((lastValue items key p).map gvalToGrafeoValue).or (v.prop p)
  else v

/-- Every property of a view is as it was or as it was to become, and no entry came or went. -/
def CutOff (old new now : View) : Prop :=
  now.isSome = old.isSome ∧ ∀ p, now.prop p = old.prop p ∨ now.prop p = new.prop p

/-- A lookup in the properties of an op gives the last value of its pairs. -/
theorem lookup_order (item : BatchItem) (p : String) :
    item.order.lookup p = item.op.pairs.reverse.dlookup p := by
  have hlook : item.order.toFinmap.lookup p = item.op.properties.lookup p := by rw [item.reads]
  rw [Finmap.lookup_toFinmap] at hlook
  rw [hlook, NodeOp.properties, lookup_insertAll_last, Finmap.lookup_empty, Option.or_none]

/-- A batch of one op does to the view what its op does. -/
theorem written_one (item : BatchItem) (key : String) (v : View) :
    written [item] key v = if item.op.loroKey = key then viewOp v item.toLoroOp else v := by
  by_cases hkey : item.op.loroKey = key
  · rw [written, if_pos ⟨item, List.mem_singleton_self item, hkey⟩, if_pos hkey]
    refine congrArg some (funext fun p => ?_)
    have hpairs : pairsOf [item] key = item.op.pairs := by simp [pairsOf, hkey]
    rw [lastValue, hpairs, ← lookup_order]
  · rw [if_neg hkey, written, if_neg]
    rintro ⟨item', hmem, hkey'⟩
    obtain rfl := List.mem_singleton.mp hmem
    exact hkey hkey'

/-- Ops that do not name the key give it no value. -/
theorem pairsOf_nil {items : List BatchItem} {key : String}
    (hnone : ¬ ∃ item ∈ items, item.op.loroKey = key) : pairsOf items key = [] := by
  have hfilter : (items.filter fun item => item.op.loroKey = key) = [] := by
    refine List.filter_eq_nil_iff.mpr fun item hmem hkey => hnone ⟨item, hmem, ?_⟩
    exact of_decide_eq_true hkey
  rw [pairsOf, hfilter]
  rfl

/-- An empty batch writes nothing. -/
theorem written_nil (key : String) (v : View) : written [] key v = v := by
  refine if_neg ?_
  rintro ⟨item, hmem, -⟩
  cases hmem

/-- Two batches in a row are one batch. -/
theorem written_append (xs ys : List BatchItem) (key : String) (v : View) :
    written (xs ++ ys) key v = written ys key (written xs key v) := by
  have hpairs : pairsOf (xs ++ ys) key = pairsOf xs key ++ pairsOf ys key := by
    rw [pairsOf, List.filter_append, List.flatMap_append]
    rfl
  by_cases hys : ∃ item ∈ ys, item.op.loroKey = key
  · obtain ⟨item, hmem, hkey⟩ := hys
    rw [written, if_pos ⟨item, List.mem_append_right xs hmem, hkey⟩, written,
      if_pos ⟨item, hmem, hkey⟩]
    refine congrArg some (funext fun p => ?_)
    rw [lastValue, hpairs, List.reverse_append, List.dlookup_append, written]
    split
    · show _ = Option.or ((lastValue ys key p).map _) (Option.or ((lastValue xs key p).map _) _)
      rw [lastValue, lastValue]
      cases (pairsOf ys key).reverse.dlookup p <;> rfl
    · rename_i hxs
      rw [pairsOf_nil hxs, List.reverse_nil, List.dlookup_nil, Option.or_none]
      rfl
  · -- the second batch leaves the key alone
    have hkeys : (∃ item ∈ xs ++ ys, item.op.loroKey = key) ↔
        ∃ item ∈ xs, item.op.loroKey = key := by
      constructor
      · rintro ⟨item, hmem, hkey⟩
        rcases List.mem_append.mp hmem with hmem | hmem
        · exact ⟨item, hmem, hkey⟩
        · exact absurd ⟨item, hmem, hkey⟩ hys
      · rintro ⟨item, hmem, hkey⟩
        exact ⟨item, List.mem_append_left ys hmem, hkey⟩
    rw [written, written, if_neg hys, written]
    simp only [hkeys, lastValue, hpairs, pairsOf_nil hys, List.append_nil]

/-! ### One op on the store -/

section
variable {b : Bridge}

/-- A consistent bridge is bound. -/
theorem bound_of_ok (h : BridgeOk b) : Bound b where
  inverse := h.nodeInverse
  nodeFresh := h.nodeFresh
  boundFresh := fun _ _ hkey => h.nodeBoundFresh hkey

/-- An op that does not fail writes its properties. -/
theorem storeView_ok (h : BridgeOk b) (fault : Nat → Bool) (item : BatchItem) {b' : Bridge}
    (hop : applyLoroOp fault item.toLoroOp b = (.ok (), b')) (key : String) :
    storeView b' key = written [item] key (storeView b key) := by
  obtain rfl : b' = (applyLoroOp noFault item.toLoroOp b).2 := by
    rcases upsertNode_cases fault item.op.loroKey item.op.labels item.order b with
      hfull | ⟨id, done, rest, -, -, hcut⟩ | ⟨-, hcut⟩
    · exact (congrArg Prod.snd (hfull.symm.trans hop)).symm
    · cases congrArg Prod.fst (hop.symm.trans hcut)
    · cases congrArg Prod.fst (hop.symm.trans hcut)
  have heffect : OpEffect item.toLoroOp item.op.loroKey b
      (applyLoroOp noFault item.toLoroOp b).2 :=
    opEffect (bound_of_ok h) rfl (h.nodeLive item.op.loroKey)
  rw [written_one]
  by_cases hkey : item.op.loroKey = key
  · rw [if_pos hkey, ← hkey]
    exact heffect.view
  · rw [if_neg hkey]
    exact heffect.views (bound_of_ok h) (Ne.symm hkey)

/-- A view is cut off from itself. -/
theorem CutOff.refl (v new : View) : CutOff v new v := ⟨rfl, fun _ => .inl rfl⟩

/-- The loop over the properties of a bound node stopped: the node has some of the writes. -/
theorem storeView_stopped (h : BridgeOk b) (item : BatchItem) {id : NodeId}
    {done rest : List (Σ _ : String, GraphValue)}
    (hid : b.maps.nodeIdMap.lookup item.op.loroKey = some id)
    (hsplit : item.order.entries = done ++ rest) (key : String) :
    let now := storeView ⟨(setProperties (setNodeProperty noFault id) done b.store).2.tick,
      b.maps⟩ key
    (item.op.loroKey ≠ key → now = storeView b key) ∧
      CutOff (storeView b key) (written [item] key (storeView b key)) now := by
  intro now
  have hlive := h.nodeLive item.op.loroKey id hid
  have hnodup : done.NodupKeys := by
    refine item.order.nodupKeys.sublist ?_
    rw [hsplit]
    exact List.sublist_append_left done rest
  -- what was written is an upsert of its own
  have heffect : OpEffect (.upsertNode item.op.loroKey item.op.labels ⟨done, hnodup⟩)
      item.op.loroKey b _ :=
    opEffect_upsert_hit item.op.labels ⟨done, hnodup⟩ (bound_of_ok h) hid hlive
  by_cases hkey : item.op.loroKey = key
  · subst hkey
    have hnow : now = some fun p =>
        ((done.dlookup p).map gvalToGrafeoValue).or ((storeView b item.op.loroKey).prop p) :=
      heffect.view
    obtain ⟨node, hnode⟩ := Option.isSome_iff_exists.mp (AList.lookup_isSome.mpr hlive)
    have hold : (storeView b item.op.loroKey).isSome = true := by
      rw [storeView_bound hid, hnode]
      rfl
    refine ⟨fun hne => absurd rfl hne, ?_, fun p => ?_⟩
    · rw [hnow, hold]
      rfl
    · rw [hnow, written_one, if_pos rfl]
      show Option.or _ _ = _ ∨ Option.or _ _
        = Option.or ((item.order.entries.dlookup p).map gvalToGrafeoValue) _
      rw [hsplit, List.dlookup_append]
      cases done.dlookup p with
      | none => exact .inl rfl
      | some g => exact .inr rfl
  · have hnow : now = storeView b key := heffect.views (bound_of_ok h) (Ne.symm hkey)
    rw [hnow]
    exact ⟨fun _ => rfl, CutOff.refl _ _⟩

/-- An op that fails leaves the other keys as they were, and its own key cut off. -/
theorem storeView_failed (h : BridgeOk b) (fault : Nat → Bool) (item : BatchItem) {b' : Bridge}
    {e : GrafeoLoroError} (hfail : applyLoroOp fault item.toLoroOp b = (.error e, b'))
    (key : String) :
    (item.op.loroKey ≠ key → storeView b' key = storeView b key) ∧
      CutOff (storeView b key) (written [item] key (storeView b key)) (storeView b' key) := by
  rcases upsertNode_cases fault item.op.loroKey item.op.labels item.order b with
    hok | ⟨id, done, rest, hid, hsplit, hcut⟩ | ⟨-, hcut⟩
  · have hres := upsertNode_ok item.op.loroKey item.op.labels item.order b
    rw [← hok] at hres
    cases (congrArg Prod.fst hfail).symm.trans hres
  · obtain rfl := congrArg Prod.snd (hfail.symm.trans hcut)
    exact storeView_stopped h item hid hsplit key
  · -- a node that was not created leaves no trace
    obtain rfl := congrArg Prod.snd (hfail.symm.trans hcut)
    exact ⟨fun _ => rfl, CutOff.refl _ _⟩

end

/-! ### The whole batch -/

/-- What the loop leaves of a key: the ops of `done` are written. The first op of `rest` failed, and
its key is cut off. -/
def Stopped (done rest : List BatchItem) (key : String) (old now : View) : Prop :=
  ((∀ item ∈ rest.head?, item.op.loroKey ≠ key) → now = written done key old) ∧
    CutOff (written done key old) (written (done ++ rest.take 1) key old) now

/-- An op that was written is one more before the loop stops. -/
theorem Stopped.cons {done rest : List BatchItem} {key : String} {old now : View}
    (item : BatchItem) (h : Stopped done rest key (written [item] key old) now) :
    Stopped (item :: done) rest key old now := by
  unfold Stopped at h ⊢
  rw [← written_append, ← written_append] at h
  exact h

section
variable {fault : Nat → Bool} {item : BatchItem} {b b' : Bridge}

/-- The loop goes on after an op that does not fail. -/
theorem applyNodeBatch_ok (hop : applyLoroOp fault item.toLoroOp b = (.ok (), b'))
    (items : List BatchItem) :
    applyNodeBatch fault (item :: items) b = applyNodeBatch fault items b' := by
  simp only [applyNodeBatch, applyEach, hop]

/-- The loop ends at an op that fails. -/
theorem applyNodeBatch_error {e : GrafeoLoroError}
    (hop : applyLoroOp fault item.toLoroOp b = (.error e, b')) (items : List BatchItem) :
    applyNodeBatch fault (item :: items) b = (.error e, b') := by
  simp only [applyNodeBatch, applyEach, hop]

end

/-- A batch that comes as bytes is the batch of its ops. -/
theorem applyLoroOpBytes_eq (fault : Nat → Bool)
    {deserialize : List UInt8 → Except String (List LoroOp)} {bytes : List UInt8}
    {items : List BatchItem} (hbytes : deserialize bytes = .ok (items.map BatchItem.toLoroOp))
    (b : Bridge) :
    applyLoroOpBytes fault deserialize bytes b = applyNodeBatch fault items b := by
  unfold applyLoroOpBytes
  rw [hbytes]
  show applyEach fault .ok (items.map BatchItem.toLoroOp) b = _
  clear hbytes
  induction items generalizing b with
  | nil => rfl
  | cons item items ih =>
    cases hop : applyLoroOp fault item.toLoroOp b with | mk res b' =>
    cases res with
    | ok _ =>
      rw [applyNodeBatch_ok hop, ← ih]
      simp only [List.map_cons, applyEach, hop]
    | error e =>
      rw [applyNodeBatch_error hop]
      simp only [List.map_cons, applyEach, hop]

/-- The loop from a consistent bridge on. -/
theorem applyNodeBatch_stops (fault : Nat → Bool) (items : List BatchItem) :
    ∀ b, BridgeOk b → ∃ done rest, items = done ++ rest ∧
      ((applyNodeBatch fault items b).1 = .ok () ↔ rest = []) ∧
      ∀ key, Stopped done rest key (storeView b key)
        (storeView (applyNodeBatch fault items b).2 key) := by
  induction items with
  | nil =>
    intro b _
    refine ⟨[], [], rfl, ⟨fun _ => rfl, fun _ => rfl⟩, fun key => ?_⟩
    rw [Stopped, written_nil]
    exact ⟨fun _ => rfl, CutOff.refl _ _⟩
  | cons item items ih =>
    intro b hb
    cases hop : applyLoroOp fault item.toLoroOp b with | mk res b' =>
    cases res with
    | ok _ =>
      have hb' : BridgeOk b' := by
        have hkeep := bridgeOk_applyLoroOp fault item.toLoroOp hb
        rwa [hop] at hkeep
      obtain ⟨done, rest, rfl, hres, hviews⟩ := ih b' hb'
      refine ⟨item :: done, rest, rfl, ?_, fun key => Stopped.cons item ?_⟩
      · rw [applyNodeBatch_ok hop]
        exact hres
      · rw [applyNodeBatch_ok hop, ← storeView_ok hb fault item hop]
        exact hviews key
    | error e =>
      refine ⟨[], item :: items, rfl, ?_, fun key => ?_⟩
      · rw [applyNodeBatch_error hop]
        constructor <;> exact fun h => by cases h
      · rw [applyNodeBatch_error hop]
        obtain ⟨hother, hcut⟩ := storeView_failed hb fault item hop key
        rw [Stopped, written_nil]
        exact ⟨fun hne => hother (hne item rfl), hcut⟩

/-- A batch is applied up to its first failing op. After any ops and whatever calls fail, the ops
before it are written in full, and it leaves each property of its key as it was or as it was to
become. -/
theorem nodeBatch_stops (fault : Nat → Bool) (before : List LoroOp) (items : List BatchItem) :
    let b := runOps fault before Bridge.empty
    let result := applyNodeBatch fault items b
    ∃ done rest, items = done ++ rest ∧ (result.1 = .ok () ↔ rest = []) ∧
      ∀ key, Stopped done rest key (storeView b key) (storeView result.2 key) :=
  applyNodeBatch_stops fault items _ (bridgeOk_runOps fault before _ bridgeOk_empty)

end GrafeoLoro.Proofs
