import GrafeoLoro.Ffi.BatcherRegistry
import Mathlib.Algebra.BigOperators.Group.List.Basic
import Mathlib.Algebra.Ring.Nat

/-!
# `GrafeoLoro.Proofs.BatcherRegistry`: the slots of the registry over all interleavings

`RegistryStep` lists what a step can do. Two invariants hold over every run. `HandlesOk` says that
the handles count up and that each of them has a slot or a `batcher_register` in progress.
`ledger_run` says of each handle that its enqueued ops are reported, drained or pending.

* `batcherRegistry_conserves`: the ledger, the distinct handles, and what a call leaves alone.
-/

set_option autoImplicit false

namespace GrafeoLoro.Proofs

open GrafeoLoro GrafeoLoro.Lib

variable {Cb : Type} {decode : List UInt8 → Except String LoroOp}

/-! ### One step -/

/-- What a step of the registry can do. -/
inductive RegistryStep (decode : List UInt8 → Except String LoroOp) :
    BatcherRegistry Cb → BatcherAction Cb → BatcherRegistry Cb → Prop where
  | registerFetch {s : BatcherRegistry Cb} (hroom : s.registering.length < isizeMax) :
      RegistryStep decode s .registerFetch
        { s with
          nextHandle := s.nextHandle + 1
          registering := s.registering ++ [s.nextHandle] }
  | registerInsert {s : BatcherRegistry Cb} {i : Nat} {id : UInt64}
      (hcall : s.registering[i]? = some id) (hroom : s.slots.keys.card < isizeMax) :
      RegistryStep decode s (.registerInsert i)
        { s.putSlot id [] with registering := s.registering.eraseIdx i }
  | enqueue {s : BatcherRegistry Cb} {handle : UInt64} {opBytes : List UInt8} {op : LoroOp}
      {pending : List LoroOp} (hdecode : decode opBytes = .ok op)
      (hslot : s.slots.lookup handle = some pending)
      (hroom : (pending ++ [op]).length ≤ isizeMax) :
      RegistryStep decode s (.enqueue handle opBytes) (s.putSlot handle (pending ++ [op]))
  | enqueueErr {s : BatcherRegistry Cb} {handle : UInt64} {opBytes : List UInt8} {e : String}
      (herror : s.batcherEnqueue decode handle opBytes = .error e) :
      RegistryStep decode s (.enqueue handle opBytes) s
  | flushDrain {s : BatcherRegistry Cb} {handle : UInt64} {pending : List LoroOp}
      (hslot : s.slots.lookup handle = some pending) :
      RegistryStep decode s (.flushDrain handle)
        { s.putSlot handle [] with flushing := s.flushing ++ [(handle, pending)] }
  | flushDrainErr {s : BatcherRegistry Cb} {handle : UInt64} {e : String}
      (herror : s.drainSlot handle = .error e) : RegistryStep decode s (.flushDrain handle) s
  | flushFire {s : BatcherRegistry Cb} {i : Nat} {handle : UInt64} {drained : List LoroOp}
      (hcall : s.flushing[i]? = some (handle, drained)) :
      RegistryStep decode s (.flushFire i)
        { s with
          flushing := s.flushing.eraseIdx i
          fired := s.fired ++ s.flushCallbacks.map fun cb =>
            (cb, flushPayload (UInt64.ofNat drained.length)) }
  | onFlush {s : BatcherRegistry Cb} {callback : Cb} :
      RegistryStep decode s (.onFlush callback)
        { s with flushCallbacks := s.flushCallbacks ++ [callback] }

/-- A slot is found exactly when it is registered. -/
theorem slot_eq_ok_iff (s : BatcherRegistry Cb) (handle : UInt64) (pending : List LoroOp) :
    s.slot handle = .ok pending ↔ s.slots.lookup handle = some pending := by
  unfold BatcherRegistry.slot BatcherRegistry.slots
  cases s.registry with
  | none => simp
  | some map =>
    cases hlookup : map.lookup handle with
    | none => simp [hlookup]
    | some found => simp [hlookup]

/-- The lookup of a slot returns `Ok` exactly when the slot is registered. -/
theorem slot_isOk (s : BatcherRegistry Cb) (handle : UInt64) :
    (s.slot handle).isOk = (s.slots.lookup handle).isSome := by
  unfold BatcherRegistry.slot BatcherRegistry.slots
  cases s.registry with
  | none => rfl
  | some map =>
    dsimp only [Option.getD_some]
    cases map.lookup handle with
    | none => rfl
    | some pending => rfl

@[simp] theorem slots_putSlot (s : BatcherRegistry Cb) (handle : UInt64) (pending : List LoroOp) :
    (s.putSlot handle pending).slots = s.slots.insert handle pending := rfl

/-- An enqueue that succeeds appends the op to its slot. -/
theorem batcherEnqueue_eq_ok {s t : BatcherRegistry Cb} {handle : UInt64} {opBytes : List UInt8}
    (h : s.batcherEnqueue decode handle opBytes = .ok t) :
    ∃ op pending, decode opBytes = .ok op ∧ s.slots.lookup handle = some pending ∧
      t = s.putSlot handle (pending ++ [op]) := by
  unfold BatcherRegistry.batcherEnqueue at h
  split at h
  · cases h
  · rename_i op hdecode
    cases hslot : s.slot handle with
    | error e =>
      rw [hslot] at h
      cases h
    | ok pending =>
      rw [hslot] at h
      exact ⟨op, pending, hdecode, (slot_eq_ok_iff s handle pending).mp hslot,
        (Except.ok.inj h).symm⟩

/-- A drain that succeeds takes the pending ops of its slot. -/
theorem drainSlot_eq_ok {s t : BatcherRegistry Cb} {handle : UInt64}
    (h : s.drainSlot handle = .ok t) :
    ∃ pending, s.slots.lookup handle = some pending ∧
      t = { s.putSlot handle [] with flushing := s.flushing ++ [(handle, pending)] } := by
  unfold BatcherRegistry.drainSlot at h
  cases hslot : s.slot handle with
  | error e =>
    rw [hslot] at h
    cases h
  | ok pending =>
    rw [hslot] at h
    exact ⟨pending, (slot_eq_ok_iff s handle pending).mp hslot, (Except.ok.inj h).symm⟩

/-- The step function does what `RegistryStep` lists. -/
theorem registry_next_cases {s u : BatcherRegistry Cb} {a : BatcherAction Cb}
    (h : s.next decode a = some u) : RegistryStep decode s a u := by
  cases a with
  | registerFetch =>
    simp only [BatcherRegistry.next] at h
    split at h
    · rename_i hroom
      cases h
      exact .registerFetch hroom
    · cases h
  | registerInsert i =>
    simp only [BatcherRegistry.next] at h
    split at h
    · rename_i id hcall
      split at h
      · rename_i hroom
        cases h
        exact .registerInsert hcall hroom
      · cases h
    · cases h
  | enqueue handle opBytes =>
    simp only [BatcherRegistry.next] at h
    split at h
    · rename_i t hok
      obtain ⟨op, pending, hdecode, hslot, rfl⟩ := batcherEnqueue_eq_ok hok
      split at h
      · rename_i hroom
        cases h
        rw [slots_putSlot, Finmap.lookup_insert] at hroom
        exact .enqueue hdecode hslot hroom
      · cases h
    · rename_i e herror
      cases h
      exact .enqueueErr herror
  | flushDrain handle =>
    simp only [BatcherRegistry.next] at h
    split at h
    · rename_i t hok
      cases h
      obtain ⟨pending, hslot, rfl⟩ := drainSlot_eq_ok hok
      exact .flushDrain hslot
    · rename_i e herror
      cases h
      exact .flushDrainErr herror
  | flushFire i =>
    simp only [BatcherRegistry.next] at h
    split at h
    · rename_i handle drained hcall
      cases h
      exact .flushFire hcall
    · cases h
  | onFlush callback =>
    cases h
    exact .onFlush

/-! ### The handles -/

/-- The handles that the `fetch_add`s of a run handed out, in order. -/
def handedOut (h : List (BatcherRegistry Cb × BatcherAction Cb)) : List UInt64 :=
  h.flatMap fun p =>
    match p.2 with
    | .registerFetch => [p.1.nextHandle]
    | _ => []

/-- A step that is not a `fetch_add` hands out nothing. -/
theorem handedOut_of_ne {s : BatcherRegistry Cb} {a : BatcherAction Cb} (ha : a ≠ .registerFetch) :
    handedOut [(s, a)] = [] := by
  cases a with
  | registerFetch => exact absurd rfl ha
  | _ => rfl

/-- An element of a list, and the others. -/
theorem cons_eraseIdx_perm {α : Type} {l : List α} {i : Nat} {x : α} (h : l[i]? = some x) :
    (x :: l.eraseIdx i).Perm l := by
  obtain ⟨hi, rfl⟩ := List.getElem?_eq_some_iff.mp h
  exact List.getElem_cons_eraseIdx_perm hi

/-- The handles count up from zero, and each of them has a slot or a call in progress. -/
structure HandlesOk (handed : List UInt64) (s : BatcherRegistry Cb) : Prop where
  counted : handed = (List.range handed.length).map UInt64.ofNat
  next : s.nextHandle = UInt64.ofNat handed.length
  places : (handed : Multiset UInt64) = s.slots.keys.val + (s.registering : Multiset UInt64)
  slots : s.slots.keys.card ≤ isizeMax
  calls : s.registering.length ≤ isizeMax

namespace HandlesOk

variable {handed : List UInt64} {s u : BatcherRegistry Cb}

/-- There are fewer handles than a `usize` can count. -/
theorem length_lt (h : HandlesOk handed s) : handed.length < 2 ^ 64 - 1 := by
  have hcard := congrArg Multiset.card h.places
  rw [Multiset.card_add, Multiset.coe_card, Multiset.coe_card, Finset.card_val] at hcard
  have hslots := h.slots
  have hcalls := h.calls
  unfold isizeMax at hslots hcalls
  omega

/-- No handle is handed out twice. -/
theorem nodup (h : HandlesOk handed s) : handed.Nodup := by
  have hlt := h.length_lt
  rw [h.counted]
  apply List.Nodup.map_on
  · intro i hi j hj heq
    rw [List.mem_range] at hi hj
    -- both numbers fit, so the counter has not wrapped around between them
    have hi' : i < 2 ^ 64 := by omega
    have hj' : j < 2 ^ 64 := by omega
    have hnat := congrArg UInt64.toNat heq
    rw [UInt64.toNat_ofNat_of_lt' hi', UInt64.toNat_ofNat_of_lt' hj'] at hnat
    exact hnat
  · exact List.nodup_range

/-- A handle whose call is in progress has no slot yet. -/
theorem lookup_none (h : HandlesOk handed s) {id : UInt64} (hid : id ∈ s.registering) :
    s.slots.lookup id = none := by
  have hnodup : (s.slots.keys.val + (s.registering : Multiset UInt64)).Nodup := by
    rw [← h.places]
    exact h.nodup
  rw [Finmap.lookup_eq_none, ← Finmap.mem_keys]
  intro hkey
  exact Multiset.disjoint_left.mp (Multiset.nodup_add.mp hnodup).2.2 hkey hid

/-- A step that hands out nothing and moves no call keeps the handles. -/
theorem congr (h : HandlesOk handed s) (hnext : u.nextHandle = s.nextHandle)
    (hkeys : u.slots.keys = s.slots.keys) (hcalls : u.registering = s.registering) :
    HandlesOk handed u := by
  constructor
  case counted => exact h.counted
  case next => rw [hnext, h.next]
  case places => rw [hkeys, hcalls, h.places]
  case slots => rw [hkeys]; exact h.slots
  case calls => rw [hcalls]; exact h.calls

/-- No handle is handed out at the start. -/
theorem init : HandlesOk [] (BatcherRegistry.init : BatcherRegistry Cb) := by
  constructor
  case counted => rfl
  case next => rfl
  case places => rfl
  case slots => exact Nat.zero_le _
  case calls => exact Nat.zero_le _

/-- A `fetch_add` hands out the next number, to a call that has no slot yet. -/
theorem fetch (h : HandlesOk handed s) (hroom : s.registering.length < isizeMax) :
    HandlesOk (handed ++ [s.nextHandle])
      { s with
        nextHandle := s.nextHandle + 1
        registering := s.registering ++ [s.nextHandle] } := by
  have hlength : (handed ++ [s.nextHandle]).length = handed.length + 1 := by
    rw [List.length_append, List.length_singleton]
  constructor
  case counted =>
    rw [hlength, List.range_succ, List.map_append, ← h.counted, h.next, List.map_singleton]
  case next =>
    show s.nextHandle + 1 = UInt64.ofNat (handed ++ [s.nextHandle]).length
    rw [hlength, h.next, UInt64.ofNat_add]
    rfl
  case places =>
    show ((handed ++ [s.nextHandle] : List UInt64) : Multiset UInt64)
      = s.slots.keys.val + ((s.registering ++ [s.nextHandle] : List UInt64) : Multiset UInt64)
    rw [← Multiset.coe_add, ← Multiset.coe_add, h.places, add_assoc]
  case slots => exact h.slots
  case calls =>
    show (s.registering ++ [s.nextHandle]).length ≤ isizeMax
    rw [List.length_append, List.length_singleton]
    exact hroom

/-- An insert moves the id of a call in progress to the slots. -/
theorem insert (h : HandlesOk handed s) {i : Nat} {id : UInt64}
    (hcall : s.registering[i]? = some id) (hroom : s.slots.keys.card < isizeMax) :
    HandlesOk handed { s.putSlot id [] with registering := s.registering.eraseIdx i } := by
  have hnone := h.lookup_none (List.mem_of_getElem? hcall)
  have hkeys : (s.slots.insert id ([] : List LoroOp)).keys = Insert.insert id s.slots.keys :=
    finmap_keys_insert s.slots id []
  have hnew : id ∉ s.slots.keys := by
    rw [Finmap.mem_keys, ← Finmap.lookup_eq_none]
    exact hnone
  constructor
  case counted => exact h.counted
  case next => exact h.next
  case places =>
    have hperm := Multiset.coe_eq_coe.mpr (cons_eraseIdx_perm hcall)
    show (handed : Multiset UInt64) = (s.slots.insert id []).keys.val
      + ((s.registering.eraseIdx i : List UInt64) : Multiset UInt64)
    rw [h.places, ← hperm, hkeys, Finset.insert_val_of_notMem hnew, ← Multiset.cons_coe,
      Multiset.add_cons, Multiset.cons_add]
  case slots =>
    show (s.slots.insert id []).keys.card ≤ isizeMax
    rw [hkeys, Finset.card_insert_of_notMem hnew]
    exact hroom
  case calls => exact (List.length_eraseIdx_le _ _).trans h.calls

/-- One step keeps the handles. -/
theorem step (h : HandlesOk handed s) {a : BatcherAction Cb} (hstep : s.next decode a = some u) :
    HandlesOk (handed ++ handedOut [(s, a)]) u := by
  cases registry_next_cases hstep with
  | registerFetch hroom => exact h.fetch hroom
  | registerInsert hcall hroom =>
    rw [handedOut_of_ne (by simp), List.append_nil]
    exact h.insert hcall hroom
  | enqueue hdecode hslot hroom =>
    rw [handedOut_of_ne (by simp), List.append_nil]
    exact h.congr rfl (finmap_keys_insert_of_some hslot _) rfl
  | flushDrain hslot =>
    rw [handedOut_of_ne (by simp), List.append_nil]
    exact h.congr rfl (finmap_keys_insert_of_some hslot _) rfl
  | enqueueErr | flushDrainErr | flushFire | onFlush =>
    rw [handedOut_of_ne (by simp), List.append_nil]
    exact h.congr rfl rfl rfl

end HandlesOk

/-! ### The ledger of a handle -/

/-- The number of ops in a payload, as a callback reads it. -/
def payloadOpCount (payload : List UInt8) : UInt64 := u64FromBe (payload.drop 8)

/-- Whether a step is an enqueue to the handle that returns `Ok`. -/
def enqueuesTo (decode : List UInt8 → Except String LoroOp) (handle : UInt64)
    (p : BatcherRegistry Cb × BatcherAction Cb) : Bool :=
  match p.2 with
  | .enqueue target opBytes =>
    target == handle && (p.1.batcherEnqueue decode target opBytes).isOk
  | _ => false

/-- Number of the successful enqueues to the handle in a run. -/
def enqueuedOps (decode : List UInt8 → Except String LoroOp) (handle : UInt64)
    (h : List (BatcherRegistry Cb × BatcherAction Cb)) : Nat :=
  h.countP (enqueuesTo decode handle)

/-- The op count that a step reports for the handle: the one in the payload of its flush. -/
def reportOf (handle : UInt64) (p : BatcherRegistry Cb × BatcherAction Cb) : Nat :=
  match p.2 with
  | .flushFire i =>
    match p.1.flushing[i]? with
    | some (target, drained) =>
      if target = handle then
        (payloadOpCount (flushPayload (UInt64.ofNat drained.length))).toNat
      else 0
    | none => 0
  | _ => 0

/-- The op counts that the flushes of a run reported for the handle. -/
def reportedOps (handle : UInt64) (h : List (BatcherRegistry Cb × BatcherAction Cb)) : Nat :=
  (h.map (reportOf handle)).sum

/-- The ops of the handle in flushes that have not fired their callbacks. -/
def drainedOps (handle : UInt64) (s : BatcherRegistry Cb) : Nat :=
  (s.flushing.map fun f => if f.1 = handle then f.2.length else 0).sum

/-- The pending ops of the handle. -/
def pendingOps (handle : UInt64) (s : BatcherRegistry Cb) : Nat :=
  ((s.slots.lookup handle).getD []).length

/-- The callbacks read the number that the flush wrote. -/
theorem payloadOpCount_flushPayload (opCount : UInt64) :
    payloadOpCount (flushPayload opCount) = opCount := by
  have hdrop : (flushPayload opCount).drop 8 = u64ToBe opCount := by
    unfold flushPayload
    exact List.drop_left' (length_beBytes 8 _)
  rw [payloadOpCount, hdrop, u64FromBe_toBe]

/-- An enqueue returns `Ok` exactly when the bytes decode and the slot is registered. -/
theorem batcherEnqueue_isOk (s : BatcherRegistry Cb) (handle : UInt64) (opBytes : List UInt8) :
    (s.batcherEnqueue decode handle opBytes).isOk
      = ((decode opBytes).isOk && (s.slots.lookup handle).isSome) := by
  rw [← slot_isOk]
  unfold BatcherRegistry.batcherEnqueue
  cases decode opBytes with
  | error e => rfl
  | ok op =>
    cases s.slot handle with
    | error e => rfl
    | ok pending => rfl

/-- A flush returns `Ok` exactly when the slot is registered. -/
theorem drainSlot_isOk (s : BatcherRegistry Cb) (handle : UInt64) :
    (s.drainSlot handle).isOk = (s.slots.lookup handle).isSome := by
  rw [← slot_isOk]
  unfold BatcherRegistry.drainSlot
  cases s.slot handle with
  | error e => rfl
  | ok pending => rfl

/-- No slot and no flush in progress has more ops than a `Vec` can hold. -/
structure RoomOk (s : BatcherRegistry Cb) : Prop where
  pending : ∀ handle, pendingOps handle s ≤ isizeMax
  drained : ∀ f ∈ s.flushing, f.2.length ≤ isizeMax

section
variable {s u : BatcherRegistry Cb} {a : BatcherAction Cb}

/-- The pending ops after a write to a slot. -/
theorem pendingOps_putSlot (s : BatcherRegistry Cb) (target handle : UInt64)
    (pending : List LoroOp) :
    pendingOps handle (s.putSlot target pending)
      = if handle = target then pending.length else pendingOps handle s := by
  unfold pendingOps
  rw [slots_putSlot, finmap_lookup_insert]
  split <;> rfl

/-- The pending ops of a registered slot. -/
theorem pendingOps_of_lookup {handle : UInt64} {pending : List LoroOp}
    (h : s.slots.lookup handle = some pending) : pendingOps handle s = pending.length := by
  unfold pendingOps
  rw [h]
  rfl

/-- One step keeps the bounds. -/
theorem roomOk_step (hstep : s.next decode a = some u) (hroom : RoomOk s) : RoomOk u := by
  cases registry_next_cases hstep with
  | registerFetch | onFlush => exact ⟨hroom.pending, hroom.drained⟩
  | enqueueErr | flushDrainErr => exact hroom
  | @registerInsert i id hcall _ =>
    refine ⟨fun handle => ?_, hroom.drained⟩
    have hput := pendingOps_putSlot s id handle []
    show pendingOps handle (s.putSlot id []) ≤ isizeMax
    rw [hput]
    split
    · exact Nat.zero_le _
    · exact hroom.pending handle
  | @enqueue target opBytes op pending hdecode hslot hfits =>
    refine ⟨fun handle => ?_, hroom.drained⟩
    rw [pendingOps_putSlot]
    split
    · exact hfits
    · exact hroom.pending handle
  | @flushDrain target pending hslot =>
    constructor
    case pending =>
      intro handle
      show pendingOps handle (s.putSlot target []) ≤ isizeMax
      rw [pendingOps_putSlot]
      split
      · exact Nat.zero_le _
      · exact hroom.pending handle
    case drained =>
      intro f hf
      cases List.mem_append.mp hf with
      | inl hold => exact hroom.drained f hold
      | inr hnew =>
        -- the drained ops were the pending ones
        rw [List.mem_singleton.mp hnew, ← pendingOps_of_lookup hslot]
        exact hroom.pending target
  | flushFire _ =>
    exact ⟨hroom.pending, fun f hf => hroom.drained f (List.mem_of_mem_eraseIdx hf)⟩

/-- A new slot is empty, and there was none. -/
theorem pendingOps_register {handed : List UInt64} (hhandles : HandlesOk handed s) {i : Nat}
    {id : UInt64} (hcall : s.registering[i]? = some id) (handle : UInt64) :
    pendingOps handle (s.putSlot id []) = pendingOps handle s := by
  rw [pendingOps_putSlot]
  split
  · rename_i heq
    rw [heq, pendingOps, hhandles.lookup_none (List.mem_of_getElem? hcall)]
    rfl
  · rfl

/-- A drain adds the pending ops of its slot to the drained ones. -/
theorem drainedOps_drain (s : BatcherRegistry Cb) (target handle : UInt64)
    (pending : List LoroOp) :
    drainedOps handle
        { s.putSlot target [] with flushing := s.flushing ++ [(target, pending)] }
      = drainedOps handle s + if target = handle then pending.length else 0 := by
  unfold drainedOps
  rw [List.map_append, List.sum_append, List.map_singleton, List.sum_singleton]

/-- A flush that fires its callbacks takes its ops off the drained ones. -/
theorem drainedOps_fire {i : Nat} {target : UInt64} {drained : List LoroOp}
    (hcall : s.flushing[i]? = some (target, drained)) (handle : UInt64)
    (fired : List (Cb × List UInt8)) :
    (if target = handle then drained.length else 0)
        + drainedOps handle { s with flushing := s.flushing.eraseIdx i, fired := fired }
      = drainedOps handle s := by
  have hsum := ((cons_eraseIdx_perm hcall).map fun f : UInt64 × List LoroOp =>
    if f.1 = handle then f.2.length else 0).sum_eq
  rw [List.map_cons, List.sum_cons] at hsum
  exact hsum

/-- A flush reports the number of its drained ops: they fit in the payload. -/
theorem reportOf_fire (hroom : RoomOk s) {i : Nat} {target : UInt64} {drained : List LoroOp}
    (hcall : s.flushing[i]? = some (target, drained)) (handle : UInt64) :
    reportOf handle (s, .flushFire i) = if target = handle then drained.length else 0 := by
  have hfits : drained.length ≤ isizeMax :=
    hroom.drained (target, drained) (List.mem_of_getElem? hcall)
  have hlt : drained.length < 2 ^ 64 := by
    unfold isizeMax at hfits
    omega
  simp only [reportOf, hcall]
  rw [payloadOpCount_flushPayload, UInt64.toNat_ofNat_of_lt' hlt]

/-- One step, for one handle: what the step reports, and what is drained and pending after it, are
what was drained and pending before it and what the step enqueues. -/
theorem ledger_step {handed : List UInt64} (hstep : s.next decode a = some u)
    (hhandles : HandlesOk handed s) (hroom : RoomOk s) (handle : UInt64) :
    reportOf handle (s, a) + drainedOps handle u + pendingOps handle u
      = drainedOps handle s + pendingOps handle s
        + (if enqueuesTo decode handle (s, a) then 1 else 0) := by
  -- a step that reports nothing and enqueues nothing
  have hnothing : ∀ u : BatcherRegistry Cb, drainedOps handle u = drainedOps handle s →
      pendingOps handle u = pendingOps handle s →
      0 + drainedOps handle u + pendingOps handle u
        = drainedOps handle s + pendingOps handle s + 0 := by
    intro u hdrained hpending
    omega
  cases registry_next_cases hstep with
  | registerFetch | onFlush | flushDrainErr _ => exact hnothing _ rfl rfl
  | registerInsert hcall _ => exact hnothing _ rfl (pendingOps_register hhandles hcall handle)
  | @enqueue target opBytes op pending hdecode hslot _ =>
    have hok : (s.batcherEnqueue decode target opBytes).isOk = true := by
      rw [batcherEnqueue_isOk, hdecode, hslot]
      rfl
    have hdrained : drainedOps handle (s.putSlot target (pending ++ [op])) = drainedOps handle s :=
      rfl
    simp only [reportOf, enqueuesTo, hok, Bool.and_true, beq_iff_eq]
    rw [hdrained, pendingOps_putSlot]
    by_cases heq : handle = target
    · rw [if_pos heq, if_pos heq.symm, heq, pendingOps_of_lookup hslot, List.length_append,
        List.length_singleton]
      omega
    · rw [if_neg heq, if_neg (Ne.symm heq)]
      omega
  | @enqueueErr target opBytes e herror =>
    have hfails : enqueuesTo decode handle (s, .enqueue target opBytes) = false := by
      simp only [enqueuesTo, herror]
      exact Bool.and_false _
    rw [hfails]
    exact hnothing _ rfl rfl
  | @flushDrain target pending hslot =>
    -- the pending ops of the slot become drained ones
    have hpending := pendingOps_putSlot s target handle []
    rw [drainedOps_drain]
    show 0 + _ + pendingOps handle (s.putSlot target []) = _ + _ + 0
    rw [hpending, List.length_nil]
    by_cases heq : handle = target
    · rw [if_pos heq, if_pos heq.symm, heq, pendingOps_of_lookup hslot]
      omega
    · rw [if_neg heq, if_neg (Ne.symm heq)]
      omega
  | @flushFire i target drained hcall =>
    -- the drained ops of this call are reported
    rw [reportOf_fire hroom hcall, drainedOps_fire hcall]
    rfl

end

/-! ### Runs -/

section
variable {h : List (BatcherRegistry Cb × BatcherAction Cb)} {t : BatcherRegistry Cb}

/-- The handles and the bounds hold after every run. -/
theorem registry_run (hexec : Exec (BatcherRegistry.next decode) .init h t) :
    HandlesOk (handedOut h) t ∧ RoomOk t := by
  induction hexec with
  | nil =>
    have hroom : RoomOk (BatcherRegistry.init : BatcherRegistry Cb) :=
      ⟨fun _ => Nat.zero_le _, fun _ hf => absurd hf List.not_mem_nil⟩
    exact ⟨.init, hroom⟩
  | @snoc h t u a prev hstep ih =>
    have hsnoc : handedOut (h ++ [(t, a)]) = handedOut h ++ handedOut [(t, a)] :=
      List.flatMap_append
    rw [hsnoc]
    exact ⟨ih.1.step hstep, roomOk_step hstep ih.2⟩

/-- The ledger of one handle after every run. -/
theorem ledger_run (hexec : Exec (BatcherRegistry.next decode) .init h t) (handle : UInt64) :
    reportedOps handle h + drainedOps handle t + pendingOps handle t
      = enqueuedOps decode handle h := by
  induction hexec with
  | nil => rfl
  | @snoc h t u a prev hstep ih =>
    have hstart := registry_run prev
    have hone := ledger_step hstep hstart.1 hstart.2 handle
    have hreported : reportedOps handle (h ++ [(t, a)])
        = reportedOps handle h + reportOf handle (t, a) := by
      rw [reportedOps, List.map_append, List.sum_append, List.map_singleton, List.sum_singleton]
      rfl
    have henqueued : enqueuedOps decode handle (h ++ [(t, a)])
        = enqueuedOps decode handle h + (if enqueuesTo decode handle (t, a) then 1 else 0) := by
      rw [enqueuedOps, List.countP_append, List.countP_singleton]
      rfl
    rw [hreported, henqueued]
    omega

/-- A handle without a flush in progress has no drained ops. -/
theorem drainedOps_eq_zero {handle : UInt64} (h : ∀ f ∈ t.flushing, f.1 ≠ handle) :
    drainedOps handle t = 0 := by
  unfold drainedOps
  rw [List.sum_eq_zero]
  intro n hn
  obtain ⟨f, hf, rfl⟩ := List.mem_map.mp hn
  exact if_neg (h f hf)

end

/-! ### One handle and the others -/

/-- The handle whose slot a step may write. -/
def target (s : BatcherRegistry Cb) : BatcherAction Cb → Option UInt64
  | .registerInsert i => s.registering[i]?
  | .enqueue handle _ => some handle
  | .flushDrain handle => some handle
  | .registerFetch | .flushFire _ | .onFlush _ => none

/-- A write to another slot is not seen. -/
theorem lookup_putSlot_of_ne {s : BatcherRegistry Cb} {written handle : UInt64}
    (hne : some written ≠ some handle) (pending : List LoroOp) :
    (s.putSlot written pending).slots.lookup handle = s.slots.lookup handle := by
  rw [slots_putSlot, Finmap.lookup_insert_of_ne]
  exact fun heq => hne (congrArg some heq.symm)

/-- A step leaves every slot but its own as it is. -/
theorem slot_frame {s u : BatcherRegistry Cb} {a : BatcherAction Cb} {handle : UInt64}
    (hstep : s.next decode a = some u) (hother : target s a ≠ some handle) :
    u.slots.lookup handle = s.slots.lookup handle := by
  cases registry_next_cases hstep with
  | registerFetch | enqueueErr | flushDrainErr | flushFire | onFlush => rfl
  | @registerInsert i id hcall _ =>
    have hne : some id ≠ some handle := hcall ▸ hother
    exact lookup_putSlot_of_ne hne []
  | enqueue _ _ _ => exact lookup_putSlot_of_ne hother _
  | flushDrain _ => exact lookup_putSlot_of_ne hother []

/-- An enqueue that returns an error changes nothing and fires nothing. -/
theorem next_enqueue_of_error {s : BatcherRegistry Cb} {handle : UInt64} {opBytes : List UInt8}
    (hfails : (s.batcherEnqueue decode handle opBytes).isOk = false) :
    s.next decode (.enqueue handle opBytes) = some s := by
  rw [BatcherRegistry.next]
  cases hcall : s.batcherEnqueue decode handle opBytes with
  | error e => rfl
  | ok t =>
    rw [hcall] at hfails
    cases hfails

/-- A flush that returns an error changes nothing and fires nothing. -/
theorem next_flushDrain_of_error {s : BatcherRegistry Cb} {handle : UInt64}
    (hfails : (s.drainSlot handle).isOk = false) :
    s.next decode (.flushDrain handle) = some s := by
  rw [BatcherRegistry.next]
  cases hcall : s.drainSlot handle with
  | error e => rfl
  | ok t =>
    rw [hcall] at hfails
    cases hfails

/-- For every interleaving of the calls and for each handle, the op counts that its flushes
reported, the ops of its flushes in progress and its pending ops add up to the number of its
successful enqueues. The handles are distinct, a new slot replaces no other, and no call changes
the slot of another handle. An enqueue fails on bytes that do not decode and on a handle that has
no slot, a flush on the latter, and a call that fails changes nothing and fires no callback. -/
theorem batcherRegistry_conserves (decode : List UInt8 → Except String LoroOp)
    {h : List (BatcherRegistry Cb × BatcherAction Cb)} {t : BatcherRegistry Cb}
    (hexec : Exec (BatcherRegistry.next decode) .init h t) :
    (∀ handle,
      reportedOps handle h + drainedOps handle t + pendingOps handle t
        = enqueuedOps decode handle h ∧
      ((∀ f ∈ t.flushing, f.1 ≠ handle) →
        reportedOps handle h + pendingOps handle t = enqueuedOps decode handle h)) ∧
    (handedOut h).Nodup ∧
    (∀ id ∈ t.registering, t.slots.lookup id = none) ∧
    (∀ a u, t.next decode a = some u → ∀ handle, target t a ≠ some handle →
      u.slots.lookup handle = t.slots.lookup handle) ∧
    (∀ handle opBytes,
      (t.batcherEnqueue decode handle opBytes).isOk
        = ((decode opBytes).isOk && (t.slots.lookup handle).isSome) ∧
      ((t.batcherEnqueue decode handle opBytes).isOk = false →
        t.next decode (.enqueue handle opBytes) = some t)) ∧
    (∀ handle,
      (t.drainSlot handle).isOk = (t.slots.lookup handle).isSome ∧
      ((t.drainSlot handle).isOk = false → t.next decode (.flushDrain handle) = some t)) := by
  have hrun := registry_run hexec
  refine ⟨?ledger, hrun.1.nodup, fun id hid => hrun.1.lookup_none hid, ?frame, ?enqueue, ?flush⟩
  case ledger =>
    intro handle
    have hledger := ledger_run hexec handle
    refine ⟨hledger, fun hidle => ?_⟩
    rw [drainedOps_eq_zero hidle] at hledger
    exact hledger
  case frame => exact fun a u hstep handle hother => slot_frame hstep hother
  case enqueue =>
    exact fun handle opBytes =>
      ⟨batcherEnqueue_isOk t handle opBytes, next_enqueue_of_error⟩
  case flush => exact fun handle => ⟨drainSlot_isOk t handle, next_flushDrain_of_error⟩

/-- `bincode` on the two inputs of `batcherRegistry_conserves_two`. -/
def decodeDeleteNode (opBytes : List UInt8) : Except String LoroOp :=
  -- the variant index, the length of the key, and the key
  if opBytes = [2, 0, 0, 0, 1, 0, 0, 0, 0, 0, 0, 0, 97] then .ok (.deleteNode "a")
  else .error "io error: unexpected end of file"

/-- Two handles. The second one is enqueued to between the drain and the callbacks of its flush. -/
theorem batcherRegistry_conserves_two :
    ∃ (h : List (BatcherRegistry Nat × BatcherAction Nat)) (t : BatcherRegistry Nat),
      Exec (BatcherRegistry.next decodeDeleteNode) .init h t ∧
      handedOut h = [0, 1] ∧ t.fired = [(5, [0, 0, 0, 0, 0, 0, 0, 0, 0, 0, 0, 0, 0, 0, 0, 2])] ∧
      reportedOps 1 h = 2 ∧ pendingOps 1 t = 1 ∧
      reportedOps 1 h + pendingOps 1 t = enqueuedOps decodeDeleteNode 1 h := by
  have hrun : Exec (BatcherRegistry.next decodeDeleteNode) (.init : BatcherRegistry Nat) _ _ :=
    Exec.nil
      |>.snoc (a := .onFlush 5) rfl
      |>.snoc (a := .registerFetch) rfl
      |>.snoc (a := .registerFetch) rfl
      |>.snoc (a := .registerInsert 1) rfl
      |>.snoc (a := .registerInsert 0) rfl
      |>.snoc (a := .enqueue 1 [2, 0, 0, 0, 1, 0, 0, 0, 0, 0, 0, 0, 97]) rfl
      |>.snoc (a := .enqueue 1 [2, 0, 0, 0, 1, 0, 0, 0, 0, 0, 0, 0, 97]) rfl
      |>.snoc (a := .enqueue 0 []) rfl
      |>.snoc (a := .flushDrain 1) rfl
      |>.snoc (a := .enqueue 1 [2, 0, 0, 0, 1, 0, 0, 0, 0, 0, 0, 0, 97]) rfl
      |>.snoc (a := .flushFire 0) rfl
  have hledger := ((batcherRegistry_conserves decodeDeleteNode hrun).1 1).2
  exact ⟨_, _, hrun, rfl, rfl, rfl, rfl, hledger fun f hf => absurd hf List.not_mem_nil⟩

end GrafeoLoro.Proofs
