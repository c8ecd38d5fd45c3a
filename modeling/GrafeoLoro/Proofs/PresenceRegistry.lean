import GrafeoLoro.Lib.LastWrite
import GrafeoLoro.Presence.Registry

/-!
# `GrafeoLoro.Proofs.PresenceRegistry`: which presences a node has

Each key of the registry is a cell, and each call is an effect on it (`cellEffect`). So the rules of
`GrafeoLoro.Lib.Effect` say which entries are there after a row of calls.

* `fresh_iff`: a collection keeps an entry exactly when its timeout has not passed, with no overflow
  and no underflow.
* `presence_forNode`: after any calls, a node has the presences that were sent last for it, not
  removed since, and not too old for any collection since. It has at most one of each peer.
-/

set_option autoImplicit false

namespace GrafeoLoro.Proofs

open GrafeoLoro GrafeoLoro.Lib NodePresenceRegistry

variable {Callback : Type}

/-! ### One call -/

/-- A collection keeps an entry exactly when its timeout has not passed. -/
theorem fresh_iff (staleTimeoutMs nowMs : UInt64) (presence : NodePresence) :
    fresh staleTimeoutMs nowMs presence = true ↔
      nowMs.toNat ≤ presence.lastSeenMs.toNat + staleTimeoutMs.toNat := by
  unfold fresh saturatingSub
  rw [decide_eq_true_eq]
  by_cases hle : staleTimeoutMs ≤ nowMs
  · rw [if_pos hle, UInt64.le_iff_toNat_le, UInt64.toNat_sub_of_le _ _ hle]
    omega
  · rw [UInt64.le_iff_toNat_le] at hle
    rw [if_neg (by rwa [UInt64.le_iff_toNat_le]), UInt64.le_iff_toNat_le, UInt64.toNat_zero]
    omega

/-- What a call does to the entry under a key. -/
def cellEffect (staleTimeoutMs : UInt64) (key : String × String) :
    PresenceAction Callback → Effect NodePresence
  | .upsert presence => if presence.key = key then .write presence else .keep fun _ => true
  | .remove peerId vertexId => .keep fun _ => (peerId, vertexId) ≠ key
  | .gcStale nowMs => .keep (fresh staleTimeoutMs nowMs)
  | .onChange _ => .keep fun _ => true

/-- No call changes the timeout. -/
theorem next_staleTimeoutMs (r : NodePresenceRegistry Callback) (a : PresenceAction Callback) :
    (r.next a).staleTimeoutMs = r.staleTimeoutMs := by
  cases a <;> rfl

/-- A test that all values pass keeps every cell. -/
theorem filter_const_true {V : Type} (cell : Option V) : cell.filter (fun _ => true) = cell := by
  cases cell <;> rfl

/-- The entry under a key after a call. -/
theorem lookup_next (r : NodePresenceRegistry Callback) (a : PresenceAction Callback)
    (key : String × String) :
    (r.next a).states.lookup key
      = (cellEffect r.staleTimeoutMs key a).apply (r.states.lookup key) := by
  cases a with
  | upsert presence =>
    show (r.states.insert presence.key presence).lookup key = _
    rw [alist_lookup_insert, cellEffect]
    by_cases hkey : presence.key = key
    · rw [if_pos hkey, if_pos hkey.symm]
      rfl
    · rw [if_neg hkey, if_neg (Ne.symm hkey)]
      exact (filter_const_true _).symm
  | remove peerId vertexId =>
    show (r.states.erase (peerId, vertexId)).lookup key = _
    rw [alist_lookup_erase, cellEffect]
    by_cases hkey : key = (peerId, vertexId)
    · simp [hkey, Effect.apply]
    · have hall : (fun _ : NodePresence => decide ((peerId, vertexId) ≠ key)) = fun _ => true := by
        funext _
        exact decide_eq_true (Ne.symm hkey)
      rw [if_neg hkey, hall]
      exact (filter_const_true _).symm
  | gcStale nowMs => exact lookup_filterEntries _ _ _
  | onChange callback => exact (filter_const_true _).symm

/-! ### A row of calls -/

/-- The entry under a key after a row of calls. -/
theorem lookup_run (actions : List (PresenceAction Callback)) (key : String × String) :
    ∀ r : NodePresenceRegistry Callback, (r.run actions).states.lookup key
      = (actions.map (cellEffect r.staleTimeoutMs key)).foldl (fun cell e => e.apply cell)
          (r.states.lookup key) := by
  induction actions with
  | nil => exact fun r => rfl
  | cons a rest ih =>
    intro r
    have hnext := ih (r.next a)
    rw [next_staleTimeoutMs, lookup_next] at hnext
    exact hnext

/-- The call leaves the presence in its place. -/
def KeptBy (staleTimeoutMs : UInt64) (presence : NodePresence) : PresenceAction Callback → Prop
  | .upsert other => other.key ≠ presence.key
  | .remove peerId vertexId => (peerId, vertexId) ≠ presence.key
  | .gcStale nowMs => nowMs.toNat ≤ presence.lastSeenMs.toNat + staleTimeoutMs.toNat
  | .onChange _ => True

/-- The two forms of keeping a presence. -/
theorem keeps_cellEffect (staleTimeoutMs : UInt64) (presence : NodePresence)
    (a : PresenceAction Callback) :
    (cellEffect staleTimeoutMs presence.key a).Keeps presence ↔
      KeptBy staleTimeoutMs presence a := by
  cases a with
  | upsert other =>
    unfold cellEffect KeptBy
    by_cases hkey : other.key = presence.key
    · simp [hkey, Effect.Keeps]
    · simp [hkey, Effect.Keeps]
  | remove peerId vertexId => simp [cellEffect, KeptBy, Effect.Keeps]
  | gcStale nowMs => exact fresh_iff staleTimeoutMs nowMs presence
  | onChange callback => simp [cellEffect, KeptBy, Effect.Keeps]

/-- A call writes an entry under its key exactly when it is the upsert of it. -/
theorem cellEffect_eq_write (staleTimeoutMs : UInt64) (presence : NodePresence)
    (a : PresenceAction Callback) :
    cellEffect staleTimeoutMs presence.key a = .write presence ↔ a = .upsert presence := by
  cases a with
  | upsert other =>
    unfold cellEffect
    by_cases hkey : other.key = presence.key
    · simp [hkey]
    · have hne : other ≠ presence := fun h => hkey (h ▸ rfl)
      simp [hkey, hne]
  | _ => simp [cellEffect]

/-- After any calls, a presence is there exactly when it was sent and every later call keeps it. -/
theorem lookup_run_iff (staleTimeoutMs : UInt64) (actions : List (PresenceAction Callback))
    (presence : NodePresence) :
    ((new staleTimeoutMs).run actions).states.lookup presence.key = some presence ↔
      ∃ before after, actions = before ++ .upsert presence :: after ∧
        ∀ a ∈ after, KeptBy staleTimeoutMs presence a := by
  rw [lookup_run]
  show (actions.map (cellEffect staleTimeoutMs presence.key)).foldl _ none = _ ↔ _
  rw [Effect.foldl_apply_eq_some_iff]
  constructor
  · rintro ⟨before, after, hsplit, hafter⟩
    obtain ⟨actsBefore, rest, rfl, -, hrest⟩ := List.map_eq_append_iff.mp hsplit
    obtain ⟨a, actsAfter, rfl, ha, rfl⟩ := List.map_eq_cons_iff.mp hrest
    obtain rfl := (cellEffect_eq_write staleTimeoutMs presence a).mp ha
    exact ⟨actsBefore, actsAfter, rfl, fun a' ha' =>
      (keeps_cellEffect staleTimeoutMs presence a').mp (hafter _ (List.mem_map_of_mem ha'))⟩
  · rintro ⟨before, after, rfl, hafter⟩
    refine ⟨before.map (cellEffect staleTimeoutMs presence.key),
      after.map (cellEffect staleTimeoutMs presence.key), ?_, fun e he => ?_⟩
    · rw [List.map_append, List.map_cons]
      rw [(cellEffect_eq_write staleTimeoutMs presence (.upsert presence)).mpr rfl]
    · obtain ⟨a, ha, rfl⟩ := List.mem_map.mp he
      exact (keeps_cellEffect staleTimeoutMs presence a).mpr (hafter a ha)

/-- The presences of a node are the entries of its vertex. -/
theorem mem_forNode (r : NodePresenceRegistry Callback) (vertexId : String)
    (presence : NodePresence) :
    presence ∈ r.forNode vertexId ↔
      presence.vertexId = vertexId ∧ r.states.lookup presence.key = some presence := by
  unfold forNode
  rw [List.mem_filter, beq_iff_eq, and_comm]
  refine and_congr_right fun _ => ?_
  constructor
  · intro hmem
    obtain ⟨⟨key, found⟩, hentry, rfl⟩ := List.mem_map.mp hmem
    have hlook : r.states.lookup key = some found := AList.mem_lookup_iff.mpr hentry
    show r.states.lookup found.key = some found
    rw [r.keyed key found hlook]
    exact hlook
  · intro hlook
    exact List.mem_map.mpr ⟨⟨presence.key, presence⟩, AList.mem_lookup_iff.mp hlook, rfl⟩

/-- A node has at most one presence of each peer. -/
theorem nodup_forNode (r : NodePresenceRegistry Callback) (vertexId : String) :
    ((r.forNode vertexId).map fun presence => presence.peerId).Nodup := by
  have hkeys := List.nodupKeys_iff_pairwise.mp r.states.nodupKeys
  have hstates : (r.states.entries.map fun e => e.2).Pairwise fun p q => p.key ≠ q.key := by
    rw [List.pairwise_map]
    refine hkeys.imp_of_mem fun {e e'} he he' hne heq => hne ?_
    -- each entry has the key that it is under
    have h := r.keyed e.1 e.2 (AList.mem_lookup_iff.mpr he)
    have h' := r.keyed e'.1 e'.2 (AList.mem_lookup_iff.mpr he')
    rw [← h, ← h', heq]
  unfold forNode
  rw [List.Nodup, List.pairwise_map]
  refine (hstates.filter _).imp_of_mem fun {p q} hp hq hne heq => hne ?_
  have hpv := beq_iff_eq.mp (List.mem_filter.mp hp).2
  have hqv := beq_iff_eq.mp (List.mem_filter.mp hq).2
  show (p.peerId, p.vertexId) = (q.peerId, q.vertexId)
  rw [heq, hpv, hqv]

/-- After any calls, a node has exactly the presences that were sent for it and kept by every later
call, and at most one of each peer. -/
theorem presence_forNode (staleTimeoutMs : UInt64) (actions : List (PresenceAction Callback))
    (vertexId : String) :
    (∀ presence, presence ∈ ((new staleTimeoutMs).run actions).forNode vertexId ↔
      presence.vertexId = vertexId ∧ ∃ before after,
        actions = before ++ .upsert presence :: after ∧
          ∀ a ∈ after, KeptBy staleTimeoutMs presence a) ∧
      ((((new staleTimeoutMs).run actions).forNode vertexId).map
        fun presence => presence.peerId).Nodup := by
  refine ⟨fun presence => ?_, nodup_forNode _ vertexId⟩
  rw [mem_forNode, lookup_run_iff]

end GrafeoLoro.Proofs
