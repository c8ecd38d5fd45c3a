import GrafeoLoro.Bridge.NodeLocks

/-!
# `GrafeoLoro.Proofs.NodeLocks`: an insert and a remove of one key at once

Between the two locks of `insert_node`, the key is in the forward map and the id is not yet in
the inverse map. A `remove_node` of the key finds the id, and its own second lock can come
first: then it removes nothing from the inverse map, and the insert adds an entry that no key
has.

`LocksAgree` is the invariant of the other runs. It counts a half-done insert to the inverse map
and a half-done remove to the forward map, and then the two maps agree in every state.
`Orphan` is what is left behind otherwise.

* `insertNode_alone`, `removeNode_alone`: without interleaving, the steps are the methods of
  `BridgeMaps`.
* `nodeLocks_inverse_iff`: if no remove overtakes an insert of its id, the maps are mutually
  inverse whenever no call is in progress. In a run that ends without a call in progress, this
  is an equivalence.
* `nodeLocks_orphan`: a run of one insert and one remove that leaves an entry behind.
-/

set_option autoImplicit false

namespace GrafeoLoro.Proofs

open GrafeoLoro GrafeoLoro.Lib

/-! ### One call alone -/

/-- The state with these node maps and no call in progress. -/
def idleWith (maps : BridgeMaps) (created : List NodeId) : NodeLocks :=
  ⟨maps.nodeIdMap, maps.nodeKeyMap, none, none, created⟩

/-- The two steps of an insert, with nothing between them, are `insertNode`. -/
theorem insertNode_alone (maps : BridgeMaps) (created : List NodeId) (key : String)
    (id : NodeId) (hkey : maps.nodeIdMap.lookup key = none) (hid : id ∉ created) :
    runActions NodeLocks.next (idleWith maps created) [.insertForward key id, .insertInverse]
      = some (idleWith (maps.insertNode key id) (id :: created)) := by
  have hguard : (idleWith maps created).inserting = none ∧
      (idleWith maps created).nodeIdMap.lookup key = none ∧
      id ∉ (idleWith maps created).created := ⟨rfl, hkey, hid⟩
  rw [runActions, NodeLocks.next, if_pos hguard]
  rfl

/-- The two steps of a remove of a bound key, with nothing between them, are `removeNode`. -/
theorem removeNode_alone (maps : BridgeMaps) (created : List NodeId) (key : String)
    (id : NodeId) (hkey : maps.nodeIdMap.lookup key = some id) :
    runActions NodeLocks.next (idleWith maps created) [.removeForward key, .removeInverse]
      = some (idleWith (maps.removeNode key).2 created) := by
  have hforward : (idleWith maps created).nodeIdMap.lookup key = some id := hkey
  rw [runActions, NodeLocks.next, if_pos (show (idleWith maps created).removing = none from rfl),
    hforward]
  unfold BridgeMaps.removeNode
  rw [hkey]
  rfl

/-! ### The invariant -/

/-- The forward entries, with that of a remove in progress. -/
def ForwardEntry (s : NodeLocks) (key : String) (id : NodeId) : Prop :=
  s.nodeIdMap.lookup key = some id ∨ s.removing = some (key, id)

/-- The inverse entries, with that of an insert in progress. -/
def InverseEntry (s : NodeLocks) (key : String) (id : NodeId) : Prop :=
  s.nodeKeyMap.lookup id = some key ∨ s.inserting = some (key, id)

/-- The two maps agree up to the calls in progress. -/
structure LocksAgree (s : NodeLocks) : Prop where
  entries : ∀ key id, ForwardEntry s key id ↔ InverseEntry s key id
  created : ∀ key id, InverseEntry s key id → id ∈ s.created
  inserting : ∀ key id, s.inserting = some (key, id) → s.nodeKeyMap.lookup id = none
  removing : ∀ key id, s.removing = some (key, id) → ∀ key', s.nodeIdMap.lookup key' ≠ some id

/-- An inverse entry, or one to come, of an id that no key has. -/
def Orphan (s : NodeLocks) : Prop :=
  ∃ key id, id ∈ s.created ∧ InverseEntry s key id ∧ ∀ key', ¬ ForwardEntry s key' id

/-- The remove that is about to take its second lock is of the id of an insert that has not
taken its second lock. -/
def Overtakes (s : NodeLocks) : LockStep → Prop
  | .removeInverse => ∃ key key' id, s.removing = some (key, id) ∧ s.inserting = some (key', id)
  | _ => False

theorem locksAgree_init : LocksAgree NodeLocks.init where
  entries key id := by simp [ForwardEntry, InverseEntry, NodeLocks.init]
  created key id h := by simp [InverseEntry, NodeLocks.init] at h
  inserting key id h := by cases h
  removing key id h := by cases h

/-- Two keys with one id are equal. -/
theorem LocksAgree.key_unique {s : NodeLocks} (h : LocksAgree s) {key key' : String} {id : NodeId}
    (hkey : ForwardEntry s key id) (hkey' : ForwardEntry s key' id) : key = key' := by
  have hin := (h.entries key id).mp hkey
  have hin' := (h.entries key' id).mp hkey'
  cases hin with
  | inl hbound =>
    cases hin' with
    | inl hbound' => exact Option.some.inj (hbound.symm.trans hbound')
    | inr hins' =>
      rw [h.inserting key' id hins'] at hbound
      cases hbound
  | inr hins =>
    cases hin' with
    | inl hbound' =>
      rw [h.inserting key id hins] at hbound'
      cases hbound'
    | inr hins' =>
      have hpair := Option.some.inj (hins.symm.trans hins')
      exact congrArg Prod.fst hpair

/-- Without a call in progress, maps that agree are mutually inverse. -/
theorem LocksAgree.mutualInverse {s : NodeLocks} (h : LocksAgree s) (hidle : s.Idle) :
    MutualInverse s.nodeIdMap s.nodeKeyMap := by
  intro key id
  have hentries := h.entries key id
  unfold ForwardEntry InverseEntry at hentries
  rw [hidle.1, hidle.2] at hentries
  simpa using hentries

/-- Without a call in progress, maps with an orphan are not mutually inverse. -/
theorem Orphan.not_mutualInverse {s : NodeLocks} (h : Orphan s) (hidle : s.Idle) :
    ¬ MutualInverse s.nodeIdMap s.nodeKeyMap := by
  intro hinverse
  obtain ⟨key, id, -, hin, hnone⟩ := h
  cases hin with
  | inl hbound => exact hnone key (.inl ((hinverse key id).mpr hbound))
  | inr hins =>
    rw [hidle.1] at hins
    cases hins

/-! ### The steps -/

/-- The four steps, with the guard of each. A remove of an unbound key does nothing. -/
theorem lockStep_cases {s t : NodeLocks} {a : LockStep} (hstep : s.next a = some t) :
    (∃ key id, a = .insertForward key id ∧ s.inserting = none ∧
      s.nodeIdMap.lookup key = none ∧ id ∉ s.created ∧
      t = { s with
        nodeIdMap := s.nodeIdMap.insert key id
        inserting := some (key, id)
        created := id :: s.created }) ∨
    (∃ key id, a = .insertInverse ∧ s.inserting = some (key, id) ∧
      t = { s with nodeKeyMap := s.nodeKeyMap.insert id key, inserting := none }) ∨
    (∃ key id, a = .removeForward key ∧ s.removing = none ∧
      s.nodeIdMap.lookup key = some id ∧
      t = { s with nodeIdMap := s.nodeIdMap.erase key, removing := some (key, id) }) ∨
    (∃ key, a = .removeForward key ∧ t = s) ∨
    (∃ key id, a = .removeInverse ∧ s.removing = some (key, id) ∧
      t = { s with nodeKeyMap := s.nodeKeyMap.erase id, removing := none }) := by
  cases a with
  | insertForward key id =>
    rw [NodeLocks.next] at hstep
    split at hstep
    · rename_i hguard
      obtain rfl := Option.some.inj hstep
      exact .inl ⟨key, id, rfl, hguard.1, hguard.2.1, hguard.2.2, rfl⟩
    · cases hstep
  | insertInverse =>
    rw [NodeLocks.next] at hstep
    split at hstep
    · rename_i key id hins
      obtain rfl := Option.some.inj hstep
      exact .inr (.inl ⟨key, id, rfl, hins, rfl⟩)
    · cases hstep
  | removeForward key =>
    rw [NodeLocks.next] at hstep
    split at hstep
    · rename_i hidle
      split at hstep
      · rename_i id hkey
        obtain rfl := Option.some.inj hstep
        exact .inr (.inr (.inl ⟨key, id, rfl, hidle, hkey, rfl⟩))
      · exact .inr (.inr (.inr (.inl ⟨key, rfl, (Option.some.inj hstep).symm⟩)))
    · cases hstep
  | removeInverse =>
    rw [NodeLocks.next] at hstep
    split at hstep
    · rename_i key id hrem
      obtain rfl := Option.some.inj hstep
      exact .inr (.inr (.inr (.inr ⟨key, id, rfl, hrem, rfl⟩)))
    · cases hstep

/-- The first lock of an insert adds one forward entry, and the same entry is the insert in
progress. -/
theorem LocksAgree.insertForward {s : NodeLocks} (h : LocksAgree s) {key : String} {id : NodeId}
    (hidle : s.inserting = none) (hkey : s.nodeIdMap.lookup key = none)
    (hid : id ∉ s.created) :
    LocksAgree { s with
      nodeIdMap := s.nodeIdMap.insert key id
      inserting := some (key, id)
      created := id :: s.created } := by
  -- Grafeo has not handed out the id before
  have hfresh : ∀ key', ¬ InverseEntry s key' id := fun key' hin => hid (h.created key' id hin)
  constructor
  case entries =>
    intro key' id'
    have hold := h.entries key' id'
    unfold ForwardEntry InverseEntry at hold ⊢
    rw [hidle] at hold
    simp only [finmap_lookup_insert, Option.some.injEq, Prod.mk.injEq]
    by_cases hkk : key' = key
    · -- the key had no entry, so the new one is its only entry on both sides
      subst hkk
      rw [hkey] at hold
      simp only [if_true, Option.some.injEq, true_and]
      simp only [reduceCtorEq, false_or, or_false] at hold
      rw [hold]
      exact or_comm
    · simp only [hkk, Ne.symm hkk, if_false, false_and, or_false]
      simpa using hold
  case created =>
    intro key' id' hin
    cases hin with
    | inl hbound => exact List.mem_cons_of_mem id (h.created key' id' (.inl hbound))
    | inr hins =>
      obtain rfl : id = id' := congrArg Prod.snd (Option.some.inj hins)
      exact List.mem_cons_self
  case inserting =>
    intro key' id' hins
    obtain rfl : id = id' := congrArg Prod.snd (Option.some.inj hins)
    cases hbound : s.nodeKeyMap.lookup id with
    | none => rfl
    | some key'' => exact absurd (.inl hbound) (hfresh key'')
  case removing =>
    intro key' id' hrem key''
    rw [finmap_lookup_insert]
    split
    · intro heq
      obtain rfl := Option.some.inj heq
      exact hfresh key' ((h.entries key' id).mp (.inr hrem))
    · exact h.removing key' id' hrem key''

/-- The second lock of an insert moves the insert in progress into the inverse map. -/
theorem LocksAgree.insertInverse {s : NodeLocks} (h : LocksAgree s) {key : String} {id : NodeId}
    (hins : s.inserting = some (key, id)) :
    LocksAgree { s with nodeKeyMap := s.nodeKeyMap.insert id key, inserting := none } := by
  have hfree := h.inserting key id hins
  -- the insert leaves no inverse entry behind and adds no other
  have hsame : ∀ key' id', InverseEntry
      { s with nodeKeyMap := s.nodeKeyMap.insert id key, inserting := none } key' id' ↔
        InverseEntry s key' id' := by
    intro key' id'
    unfold InverseEntry
    simp only [finmap_lookup_insert, hins, Option.some.injEq, Prod.mk.injEq, reduceCtorEq,
      or_false]
    by_cases hii : id' = id
    · subst hii
      simp [hfree]
    · simp [hii, Ne.symm hii]
  constructor
  case entries =>
    intro key' id'
    rw [hsame]
    exact h.entries key' id'
  case created => exact fun key' id' hin => h.created key' id' ((hsame key' id').mp hin)
  case inserting => exact fun key' id' hins' => by cases hins'
  case removing => exact h.removing

/-- The first lock of a remove moves a forward entry into the remove in progress. -/
theorem LocksAgree.removeForward {s : NodeLocks} (h : LocksAgree s) {key : String} {id : NodeId}
    (hidle : s.removing = none) (hkey : s.nodeIdMap.lookup key = some id) :
    LocksAgree { s with nodeIdMap := s.nodeIdMap.erase key, removing := some (key, id) } := by
  constructor
  case entries =>
    intro key' id'
    have hold := h.entries key' id'
    unfold ForwardEntry InverseEntry at hold ⊢
    rw [hidle] at hold
    rw [← hold]
    simp only [finmap_lookup_erase, Option.some.injEq, Prod.mk.injEq, reduceCtorEq, or_false]
    by_cases hkk : key' = key
    · subst hkk
      simp [hkey]
    · simp [hkk, Ne.symm hkk]
  case created => exact h.created
  case inserting => exact h.inserting
  case removing =>
    intro key' id' hrem key'' hbound
    obtain ⟨rfl, rfl⟩ := Prod.mk.inj (Option.some.inj hrem)
    rw [finmap_lookup_erase] at hbound
    split at hbound
    · cases hbound
    · -- another key with the id would be a second one
      rename_i hne
      exact hne (h.key_unique (.inl hbound) (.inl hkey))

/-- The second lock of a remove takes the same entry off both sides, unless the insert of its
id is still in progress. -/
theorem LocksAgree.removeInverse {s : NodeLocks} (h : LocksAgree s) {key : String} {id : NodeId}
    (hrem : s.removing = some (key, id)) (hins : ∀ key', s.inserting ≠ some (key', id)) :
    LocksAgree { s with nodeKeyMap := s.nodeKeyMap.erase id, removing := none } := by
  -- the id has no insert in progress, so the erase takes its only inverse entry
  have hgone : ∀ key' id', InverseEntry
      { s with nodeKeyMap := s.nodeKeyMap.erase id, removing := none } key' id' ↔
        InverseEntry s key' id' ∧ id' ≠ id := by
    intro key' id'
    unfold InverseEntry
    rw [finmap_lookup_erase]
    by_cases hii : id' = id
    · subst hii
      simp [hins key']
    · simp [hii]
  constructor
  case entries =>
    intro key' id'
    rw [hgone, ← h.entries key' id']
    unfold ForwardEntry
    rw [hrem]
    constructor
    · intro hbound
      cases hbound with
      | inl hbound =>
        have hne : id' ≠ id := fun heq => h.removing key id hrem key' (heq ▸ hbound)
        exact ⟨.inl hbound, hne⟩
      | inr hnone => cases hnone
    · rintro ⟨hbound, hne⟩
      cases hbound with
      | inl hbound => exact .inl hbound
      | inr hsame => exact absurd (congrArg Prod.snd (Option.some.inj hsame)).symm hne
  case created => exact fun key' id' hin => h.created key' id' ((hgone key' id').mp hin).1
  case inserting =>
    intro key' id' hins'
    rw [finmap_lookup_erase, h.inserting key' id' hins', ite_self]
  case removing => exact fun key' id' hrem' => by cases hrem'

/-- A step that overtakes no insert keeps the agreement. -/
theorem LocksAgree.next {s t : NodeLocks} {a : LockStep} (h : LocksAgree s) (hstep : s.next a = some t)
    (hno : ¬ Overtakes s a) : LocksAgree t := by
  rcases lockStep_cases hstep with ⟨key, id, rfl, hidle, hkey, hid, rfl⟩ | ⟨key, id, rfl, hins, rfl⟩ |
    ⟨key, id, rfl, hidle, hkey, rfl⟩ | ⟨key, rfl, rfl⟩ | ⟨key, id, rfl, hrem, rfl⟩
  · exact h.insertForward hidle hkey hid
  · exact h.insertInverse hins
  · exact h.removeForward hidle hkey
  · exact h
  · exact h.removeInverse hrem fun key' hins => hno ⟨key, key', id, hrem, hins⟩

/-! ### What a remove leaves behind -/

/-- A remove that overtakes an insert leaves an orphan. -/
theorem LocksAgree.overtaken {s t : NodeLocks} {a : LockStep} (h : LocksAgree s)
    (hstep : s.next a = some t) (hover : Overtakes s a) : Orphan t := by
  rcases lockStep_cases hstep with ⟨key, id, rfl, -⟩ | ⟨key, id, rfl, -⟩ | ⟨key, id, rfl, -⟩ |
    ⟨key, rfl, -⟩ | ⟨key, id, rfl, hrem, rfl⟩
  · exact False.elim hover
  · exact False.elim hover
  · exact False.elim hover
  · exact False.elim hover
  · obtain ⟨key₁, key', id', hrem', hins⟩ := hover
    obtain ⟨rfl, rfl⟩ := Prod.mk.inj (Option.some.inj (hrem.symm.trans hrem'))
    refine ⟨key', id, h.created key' id (.inr hins), .inr hins, fun key'' hbound => ?_⟩
    cases hbound with
    | inl hbound => exact h.removing key id hrem key'' hbound
    | inr hnone => cases hnone

/-- An orphan stays: its id is never created again, and only a remove that has found the id in
the forward map takes an entry off the inverse map. -/
theorem Orphan.next {s t : NodeLocks} {a : LockStep} (h : Orphan s)
    (hstep : s.next a = some t) : Orphan t := by
  obtain ⟨key, id, hid, hin, hnone⟩ := h
  rcases lockStep_cases hstep with ⟨key', id', rfl, hidle, hkey, hid', rfl⟩ |
    ⟨key', id', rfl, hins, rfl⟩ | ⟨key', id', rfl, hidle, hkey, rfl⟩ | ⟨key', rfl, rfl⟩ |
    ⟨key', id', rfl, hrem, rfl⟩
  · -- a new insert is of a new id
    have hne : id ≠ id' := fun heq => hid' (heq ▸ hid)
    refine ⟨key, id, List.mem_cons_of_mem id' hid, ?_, fun key'' hbound => ?_⟩
    · cases hin with
      | inl hbound => exact .inl hbound
      | inr hins =>
        rw [hidle] at hins
        cases hins
    · cases hbound with
      | inl hbound =>
        rw [finmap_lookup_insert] at hbound
        split at hbound
        · exact hne (Option.some.inj hbound).symm
        · exact hnone key'' (.inl hbound)
      | inr hrem => exact hnone key'' (.inr hrem)
  · -- an insert of the id itself may change its key
    refine ⟨if id = id' then key' else key, id, hid, .inl ?_, hnone⟩
    rw [finmap_lookup_insert]
    split
    · rfl
    · rename_i hne
      cases hin with
      | inl hbound => exact hbound
      | inr hins' =>
        have hpair := Option.some.inj (hins.symm.trans hins')
        exact absurd (congrArg Prod.snd hpair).symm hne
  · -- a remove that starts has found another id in the forward map
    refine ⟨key, id, hid, hin, fun key'' hbound => ?_⟩
    cases hbound with
    | inl hbound =>
      rw [finmap_lookup_erase] at hbound
      split at hbound
      · cases hbound
      · exact hnone key'' (.inl hbound)
    | inr hrem =>
      obtain ⟨rfl, rfl⟩ := Prod.mk.inj (Option.some.inj hrem)
      exact hnone key' (.inl hkey)
  · exact ⟨key, id, hid, hin, hnone⟩
  · -- the remove in progress is of another id
    have hne : id ≠ id' := fun heq => hnone key' (.inr (heq ▸ hrem))
    refine ⟨key, id, hid, ?_, fun key'' hbound => ?_⟩
    · cases hin with
      | inl hbound =>
        left
        rw [finmap_lookup_erase, if_neg hne]
        exact hbound
      | inr hins => exact .inr hins
    · cases hbound with
      | inl hbound => exact hnone key'' (.inl hbound)
      | inr hrem' => cases hrem'

/-! ### Runs -/

/-- The maps are mutually inverse, if no call is in progress. -/
def InverseWhenIdle (s : NodeLocks) : Prop :=
  s.Idle → MutualInverse s.nodeIdMap s.nodeKeyMap

/-- The maps agree in every state of a run, or a remove overtook an insert and there is an orphan at its
end. -/
theorem agree_or_orphan {h : List (NodeLocks × LockStep)} {t : NodeLocks}
    (hrun : Exec NodeLocks.next NodeLocks.init h t) :
    (Steps (fun s a => ¬ Overtakes s a) h ∧ LocksAgree t) ∨
      (¬ Steps (fun s a => ¬ Overtakes s a) h ∧ Orphan t) := by
  -- the first step that overtakes an insert leads from the first case to the second
  induction hrun with
  | nil => exact .inl ⟨steps_nil, locksAgree_init⟩
  | @snoc h s t a _ hstep ih =>
    rw [steps_snoc]
    cases ih with
    | inl hagree =>
      by_cases hover : Overtakes s a
      · exact .inr ⟨fun hall => hall.2 hover, hagree.2.overtaken hstep hover⟩
      · exact .inl ⟨⟨hagree.1, hover⟩, hagree.2.next hstep hover⟩
    | inr horphan =>
      exact .inr ⟨fun hall => horphan.1 hall.1, horphan.2.next hstep⟩

/-- If no remove overtakes an insert of its id, the node maps are mutually inverse in every
state without a call in progress. In a run that ends without a call in progress, this is an
equivalence. -/
theorem nodeLocks_inverse_iff (h : List (NodeLocks × LockStep)) (t : NodeLocks)
    (hrun : Exec NodeLocks.next NodeLocks.init h t) :
    (Steps (fun s a => ¬ Overtakes s a) h → Always InverseWhenIdle h t) ∧
      (t.Idle →
        (Always InverseWhenIdle h t ↔ Steps (fun s a => ¬ Overtakes s a) h)) := by
  have hforward : Steps (fun s a => ¬ Overtakes s a) h → Always InverseWhenIdle h t := by
    intro hno
    have hagree := hrun.invariant_of_steps (I := LocksAgree)
      (fun s a s' hstep hC hI => hI.next hstep hC) locksAgree_init hno
    exact ⟨fun p hp hidle => (hagree.1 p hp).mutualInverse hidle, hagree.2.mutualInverse⟩
  refine ⟨hforward, fun hidle => ⟨fun halways => ?_, hforward⟩⟩
  cases agree_or_orphan hrun with
  | inl hagree => exact hagree.1
  | inr horphan => exact absurd (halways.2 hidle) (horphan.2.not_mutualInverse hidle)

/-- A remove of one key and an insert of another one overlap: each takes its first lock before
the other one takes its second. -/
theorem nodeLocks_overlapping :
    ∃ h t, Exec NodeLocks.next NodeLocks.init h t ∧
      h.map Prod.snd = [.insertForward "a" 0, .insertInverse, .removeForward "a",
        .insertForward "b" 1, .removeInverse, .insertInverse] ∧
      t.Idle ∧ Always InverseWhenIdle h t := by
  have hrun : Exec NodeLocks.next NodeLocks.init _ _ :=
    Exec.snoc (Exec.snoc (Exec.snoc (Exec.snoc (Exec.snoc (Exec.snoc .nil
      (a := .insertForward "a" 0) rfl) (a := .insertInverse) rfl) (a := .removeForward "a") rfl)
      (a := .insertForward "b" 1) rfl) (a := .removeInverse) rfl) (a := .insertInverse) rfl
  refine ⟨_, _, hrun, rfl, ⟨rfl, rfl⟩, (nodeLocks_inverse_iff _ _ hrun).1 ?_⟩
  refine steps_snoc.mpr ⟨steps_snoc.mpr ⟨steps_snoc.mpr ⟨steps_snoc.mpr ⟨steps_snoc.mpr
    ⟨steps_snoc.mpr ⟨steps_nil, id⟩, id⟩, id⟩, id⟩, ?_⟩, id⟩
  -- the remove is of the id 0, and the insert in progress of the id 1
  rintro ⟨key, key', id, hremoving, hinserting⟩
  cases hremoving
  cases hinserting

/-- A remove between the two locks of an insert of the same key: the inverse map keeps an entry
that the forward map does not have. -/
theorem nodeLocks_orphan :
    ∃ h t, Exec NodeLocks.next NodeLocks.init h t ∧
      h.map Prod.snd = [.insertForward "a" 0, .removeForward "a", .removeInverse,
        .insertInverse] ∧ t.Idle ∧ t.nodeIdMap.lookup "a" = none ∧
      t.nodeKeyMap.lookup 0 = some "a" ∧ ¬ MutualInverse t.nodeIdMap t.nodeKeyMap := by
  have hrun : Exec NodeLocks.next NodeLocks.init _ _ :=
    Exec.snoc (Exec.snoc (Exec.snoc (Exec.snoc .nil (a := .insertForward "a" 0) rfl)
      (a := .removeForward "a") rfl) (a := .removeInverse) rfl) (a := .insertInverse) rfl
  refine ⟨_, _, hrun, rfl, ⟨rfl, rfl⟩, by decide, by decide, fun hinverse => ?_⟩
  have hforward := (hinverse "a" 0).mpr (by decide)
  exact absurd hforward (by decide)

end GrafeoLoro.Proofs
