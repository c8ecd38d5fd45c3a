import GrafeoLoro.Bridge.Queue

/-!
# `GrafeoLoro.Proofs.EpochTracker`: which handshakes recover

A wipe moves the local epoch up by one. So the client gets to a remote epoch above its own,
and it gets to one below its own only around the end of `u64`.

* `reconnect_ok_of_distance`: the number of rounds is the distance from the local epoch up to
  the remote one, modulo `2 ^ 64`.
* `reconnect_fails_above`: in a build with overflow checks, a client whose epoch is above the
  remote one never gets there, because the wipe at `u64::MAX` panics.
* `reconnects_iff`: so the handshake recovers exactly when the remote epoch is above the local
  one or the build has no overflow checks.
-/

set_option autoImplicit false

namespace GrafeoLoro.Proofs

open GrafeoLoro

variable {overflowChecks : Bool} {remote : LineageEpoch}

/-- After some number of rounds the check succeeds. -/
def Reconnects (overflowChecks : Bool) (remote : LineageEpoch) (t : EpochTracker) : Prop :=
  ∃ rounds, reconnect overflowChecks remote rounds t = some (.ok ())

theorem checkMatch_ok_iff (t : EpochTracker) :
    t.checkMatch remote = .ok () ↔ t.epoch = remote := by
  unfold EpochTracker.checkMatch
  split <;> simp [*]

/-- A round that starts with a match. -/
theorem reconnect_of_eq {t : EpochTracker} (h : t.epoch = remote) (rounds : Nat) :
    reconnect overflowChecks remote rounds t = some (.ok ()) := by
  have hmatch : t.checkMatch remote = .ok () := (checkMatch_ok_iff t).mpr h
  cases rounds with
  | zero => rw [reconnect, hmatch]
  | succ rounds => rw [reconnect, hmatch]

/-- A round that starts with a mismatch and whose wipe does not panic. -/
theorem reconnect_step {t : EpochTracker} (hne : t.epoch ≠ remote)
    (hpanic : ¬ (overflowChecks = true ∧ t.epoch = EpochTracker.maxEpoch)) (rounds : Nat) :
    reconnect overflowChecks remote (rounds + 1) t
      = reconnect overflowChecks remote rounds ⟨t.epoch + 1⟩ := by
  rw [reconnect, EpochTracker.checkMatch, if_neg hne]
  simp only [EpochTracker.wipe, EpochTracker.bump, if_neg hpanic]

/-- Two epochs at distance 0 are equal. -/
theorem epoch_eq_of_distance_zero {a b : LineageEpoch} (h : (a - b).toNat = 0) : b = a := by
  have hsub := UInt64.toNat_sub a b
  have ha := UInt64.toNat_lt a
  have hb := UInt64.toNat_lt b
  apply UInt64.toNat_inj.mp
  omega

/-- One step up makes a positive distance smaller by one. -/
theorem epoch_distance_step {a b : LineageEpoch} {n : Nat} (h : (a - b).toNat = n + 1) :
    (a - (b + 1)).toNat = n := by
  have hsub := UInt64.toNat_sub a b
  have hsub' := UInt64.toNat_sub a (b + 1)
  have hadd := UInt64.toNat_add b 1
  have ha := UInt64.toNat_lt a
  have hb := UInt64.toNat_lt b
  have hone : (1 : UInt64).toNat = 1 := rfl
  omega

/-- Below the last epoch a step up does not wrap around. -/
theorem epoch_toNat_succ {a : LineageEpoch} (h : a ≠ EpochTracker.maxEpoch) :
    (a + 1).toNat = a.toNat + 1 := by
  have hne : a.toNat ≠ EpochTracker.maxEpoch.toNat := fun heq => h (UInt64.toNat_inj.mp heq)
  have hadd := UInt64.toNat_add a 1
  have ha := UInt64.toNat_lt a
  have hone : (1 : UInt64).toNat = 1 := rfl
  have hmax : EpochTracker.maxEpoch.toNat = 2 ^ 64 - 1 := rfl
  omega

/-- The handshake succeeds after as many rounds as the remote epoch is away. In a build with
overflow checks, the remote epoch must not be below the local one. -/
theorem reconnect_ok_of_distance (n : Nat) :
    ∀ t : EpochTracker, (remote - t.epoch).toNat = n →
      (overflowChecks = true → t.epoch ≤ remote) →
      reconnect overflowChecks remote n t = some (.ok ()) := by
  -- every round that does not match takes the epoch one step up
  induction n with
  | zero =>
    intro t hdist _
    exact reconnect_of_eq (epoch_eq_of_distance_zero hdist) 0
  | succ n ih =>
    intro t hdist hle
    have hne : t.epoch ≠ remote := by
      intro heq
      rw [heq, UInt64.sub_self] at hdist
      cases hdist
    -- an epoch below the remote one is not the last one, so the wipe does not panic
    have hbelow : overflowChecks = true → t.epoch.toNat < remote.toNat := by
      intro hchecks
      have hnat : t.epoch.toNat ≤ remote.toNat := UInt64.le_iff_toNat_le.mp (hle hchecks)
      have hnat' : t.epoch.toNat ≠ remote.toNat := fun h => hne (UInt64.toNat_inj.mp h)
      omega
    have hpanic : ¬ (overflowChecks = true ∧ t.epoch = EpochTracker.maxEpoch) := by
      rintro ⟨hchecks, hmax⟩
      have hlt := hbelow hchecks
      have hremote := UInt64.toNat_lt remote
      rw [hmax] at hlt
      have hval : EpochTracker.maxEpoch.toNat = 2 ^ 64 - 1 := rfl
      omega
    rw [reconnect_step hne hpanic]
    refine ih ⟨t.epoch + 1⟩ (epoch_distance_step hdist) fun hchecks => ?_
    have hlt := hbelow hchecks
    have hsucc : (t.epoch + 1).toNat = t.epoch.toNat + 1 :=
      epoch_toNat_succ fun hmax => hpanic ⟨hchecks, hmax⟩
    apply UInt64.le_iff_toNat_le.mpr
    show (t.epoch + 1).toNat ≤ remote.toNat
    omega

/-- In a build with overflow checks, a client above the remote epoch never gets there: every
wipe takes it further up, until one panics. -/
theorem reconnect_fails_above (rounds : Nat) :
    ∀ t : EpochTracker, remote < t.epoch →
      reconnect true remote rounds t ≠ some (.ok ()) := by
  induction rounds with
  | zero =>
    -- no round is left, so the check itself would have to succeed
    intro t hlt h
    have hmatch : t.epoch = remote := (checkMatch_ok_iff t).mp (Option.some.inj h)
    rw [hmatch] at hlt
    exact absurd hlt (UInt64.lt_irrefl remote)
  | succ rounds ih =>
    intro t hlt
    have hne : t.epoch ≠ remote := fun heq => UInt64.lt_irrefl remote (heq ▸ hlt)
    by_cases hmax : t.epoch = EpochTracker.maxEpoch
    · -- the wipe panics
      rw [reconnect, EpochTracker.checkMatch, if_neg hne]
      simp [EpochTracker.wipe, EpochTracker.bump, hmax]
    · rw [reconnect_step hne fun h => hmax h.2]
      refine ih ⟨t.epoch + 1⟩ ?_
      have hnat := UInt64.lt_iff_toNat_lt.mp hlt
      have hsucc := epoch_toNat_succ hmax
      apply UInt64.lt_iff_toNat_lt.mpr
      show remote.toNat < (t.epoch + 1).toNat
      omega

/-- After a mismatch, wiping and trying again leads to a match exactly when the remote epoch is
above the local one or the build has no overflow checks. -/
theorem reconnects_iff (overflowChecks : Bool) (t : EpochTracker) (remote : LineageEpoch)
    (hmismatch : t.checkMatch remote ≠ .ok ()) :
    Reconnects overflowChecks remote t ↔ t.epoch < remote ∨ overflowChecks = false := by
  have hne : t.epoch ≠ remote := fun heq => hmismatch ((checkMatch_ok_iff t).mpr heq)
  constructor
  · rintro ⟨rounds, hrounds⟩
    cases overflowChecks with
    | false => exact .inr rfl
    | true =>
      by_cases hlt : t.epoch < remote
      · exact .inl hlt
      · -- a remote epoch that is not above is below
        have hnat : ¬ t.epoch.toNat < remote.toNat := fun h => hlt (UInt64.lt_iff_toNat_lt.mpr h)
        have hnat' : t.epoch.toNat ≠ remote.toNat := fun h => hne (UInt64.toNat_inj.mp h)
        have habove : remote < t.epoch := by
          apply UInt64.lt_iff_toNat_lt.mpr
          omega
        exact absurd hrounds (reconnect_fails_above rounds t habove)
  · intro h
    refine ⟨(remote - t.epoch).toNat, reconnect_ok_of_distance _ t rfl fun hchecks => ?_⟩
    cases h with
    | inl hlt => exact UInt64.le_of_lt hlt
    | inr hfalse =>
      rw [hchecks] at hfalse
      cases hfalse

/-- A client one epoch behind recovers. -/
theorem reconnects_behind : Reconnects true 1 ⟨0⟩ := by
  have hmismatch : (EpochTracker.mk 0).checkMatch 1 ≠ .ok () :=
    fun h => absurd ((checkMatch_ok_iff _).mp h) (by decide)
  exact (reconnects_iff true ⟨0⟩ 1 hmismatch).mpr (.inl (by decide))

/-- In a build with overflow checks, a client one epoch ahead never recovers. -/
theorem never_reconnects_ahead :
    (EpochTracker.mk 1).checkMatch 0 = .error ⟨1, 0⟩ ∧ ¬ Reconnects true 0 ⟨1⟩ := by
  refine ⟨rfl, ?_⟩
  rintro ⟨rounds, hrounds⟩
  exact reconnect_fails_above rounds ⟨1⟩ (by decide) hrounds

end GrafeoLoro.Proofs
