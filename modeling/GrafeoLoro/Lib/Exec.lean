import Mathlib.Data.List.Basic

/-!
# `GrafeoLoro.Lib.Exec`: finite runs of a step function

A system is a step function `next : S → A → Option S`: the state after an action, or `none`
where the action is not enabled. `Exec next s h t` is a run from `s` to `t`. Its history `h`
lists every step as the state before it with the action taken, so a condition on the steps of
a run is a condition on the members of `h`.

* `Exec.invariant` and `Exec.invariant_of_steps` are the induction over a run.
* `Exec.always_iff` turns a step lemma "the property survives the step exactly when the step
  meets the condition" into the same statement about runs.
* `exec_of_run` builds a run from a list of actions that can be evaluated.

The module names nothing of the bridge.
-/

set_option autoImplicit false

namespace GrafeoLoro.Lib

variable {S A : Type} {next : S → A → Option S}

/-- A run from `s`, with its history and its last state. -/
inductive Exec (next : S → A → Option S) (s : S) : List (S × A) → S → Prop where
  | nil : Exec next s [] s
  | snoc {h : List (S × A)} {t u : S} {a : A} (prev : Exec next s h t)
      (step : next t a = some u) : Exec next s (h ++ [(t, a)]) u

/-- The property holds in every state of the run. -/
def Always (P : S → Prop) (h : List (S × A)) (t : S) : Prop := (∀ p ∈ h, P p.1) ∧ P t

/-- Every step of the run meets the condition. -/
def Steps (C : S → A → Prop) (h : List (S × A)) : Prop := ∀ p ∈ h, C p.1 p.2

theorem always_snoc {P : S → Prop} {h : List (S × A)} {t u : S} {a : A} :
    Always P (h ++ [(t, a)]) u ↔ Always P h t ∧ P u := by
  unfold Always
  constructor
  · rintro ⟨hh, hu⟩
    exact ⟨⟨fun p hp => hh p (List.mem_append_left _ hp),
      hh (t, a) (List.mem_append_right _ (List.mem_singleton.mpr rfl))⟩, hu⟩
  · rintro ⟨⟨hh, ht⟩, hu⟩
    refine ⟨fun p hp => ?_, hu⟩
    rcases List.mem_append.mp hp with hp | hp
    · exact hh p hp
    · rw [List.mem_singleton.mp hp]
      exact ht

theorem steps_nil {C : S → A → Prop} : Steps C [] := fun _ hp => absurd hp List.not_mem_nil

theorem steps_snoc {C : S → A → Prop} {h : List (S × A)} {t : S} {a : A} :
    Steps C (h ++ [(t, a)]) ↔ Steps C h ∧ C t a := by
  unfold Steps
  constructor
  · intro hh
    exact ⟨fun p hp => hh p (List.mem_append_left _ hp),
      hh (t, a) (List.mem_append_right _ (List.mem_singleton.mpr rfl))⟩
  · rintro ⟨hh, ht⟩ p hp
    rcases List.mem_append.mp hp with hp | hp
    · exact hh p hp
    · rw [List.mem_singleton.mp hp]
      exact ht

/-- A condition on the actions alone is checked on their list. -/
theorem steps_of_actions {C : S → A → Prop} {h : List (S × A)} {acts : List A}
    (hacts : h.map Prod.snd = acts) (hall : ∀ a ∈ acts, ∀ s, C s a) : Steps C h := by
  intro p hp
  have hmem : p.2 ∈ h.map Prod.snd := List.mem_map_of_mem hp
  rw [hacts] at hmem
  exact hall p.2 hmem p.1

/-- Every step of the run meets a condition that may look at the steps before it. -/
def StepsAfter (C : List (S × A) → S → A → Prop) (h : List (S × A)) : Prop :=
  ∀ before p after, h = before ++ p :: after → C before p.1 p.2

theorem stepsAfter_nil {C : List (S × A) → S → A → Prop} : StepsAfter C [] :=
  fun before _ after hh => by cases before <;> cases hh

theorem stepsAfter_snoc {C : List (S × A) → S → A → Prop} {h : List (S × A)} {t : S} {a : A} :
    StepsAfter C (h ++ [(t, a)]) ↔ StepsAfter C h ∧ C h t a := by
  constructor
  · intro hall
    refine ⟨fun before p after hh => ?_, hall h (t, a) [] rfl⟩
    rw [hh] at hall
    exact hall before p (after ++ [(t, a)]) (by simp)
  · rintro ⟨hh, hlast⟩ before p after heq
    rcases List.eq_nil_or_concat' after with rfl | ⟨init, last, rfl⟩
    · obtain ⟨rfl, rfl⟩ := List.append_singleton_inj.mp heq
      exact hlast
    · rw [← List.cons_append, ← List.append_assoc] at heq
      obtain ⟨rfl, -⟩ := List.append_singleton_inj.mp heq
      exact hh before p init rfl

namespace Exec

variable {s t : S} {h : List (S × A)}

/-- What every step keeps, every run keeps. -/
theorem invariant {I : S → Prop} (hrun : Exec next s h t)
    (hstep : ∀ t a u, next t a = some u → I t → I u) (hs : I s) : I t := by
  induction hrun with
  | nil => exact hs
  | snoc _ step ih => exact hstep _ _ _ step ih

/-- What every step that meets the condition keeps, every run of such steps keeps. -/
theorem invariant_of_steps {I : S → Prop} {C : S → A → Prop} (hrun : Exec next s h t)
    (hstep : ∀ t a u, next t a = some u → C t a → I t → I u)
    (hs : I s) (hC : Steps C h) : Always I h t := by
  induction hrun with
  | nil => exact ⟨fun p hp => absurd hp List.not_mem_nil, hs⟩
  | snoc prev step ih =>
    obtain ⟨hh, hlast⟩ := steps_snoc.mp hC
    have hprev := ih hh
    exact always_snoc.mpr ⟨hprev, hstep _ _ _ step hlast hprev.2⟩

/-- If a property survives a step exactly when the step meets the condition `C`, it holds in
every state of a run exactly when every step meets it. `G` is a condition that all steps of
the run meet, and `I` an invariant of such runs. -/
theorem always_iff {I P : S → Prop} {G C : S → A → Prop} (hrun : Exec next s h t)
    (hI : ∀ t a u, next t a = some u → G t a → I t → I u) (hIs : I s) (hPs : P s)
    (hstep : ∀ t a u, next t a = some u → G t a → I t → P t → (P u ↔ C t a))
    (hG : Steps G h) : Always P h t ↔ Steps C h := by
  induction hrun with
  | nil => exact ⟨fun _ p hp => absurd hp List.not_mem_nil,
      fun _ => ⟨fun p hp => absurd hp List.not_mem_nil, hPs⟩⟩
  | snoc prev step ih =>
    obtain ⟨hGprev, hGlast⟩ := steps_snoc.mp hG
    have hIprev := (prev.invariant_of_steps hI hIs hGprev).2
    rw [always_snoc, steps_snoc, ← ih hGprev]
    exact and_congr_right fun hprev => hstep _ _ _ step hGlast hIprev hprev.2

/-- Two runs in a row. -/
theorem append {u : S} {h' : List (S × A)} (hrun : Exec next s h t)
    (hrun' : Exec next t h' u) : Exec next s (h ++ h') u := by
  induction hrun' with
  | nil => rw [List.append_nil]; exact hrun
  | snoc _ step ih =>
    rw [← List.append_assoc]
    exact ih.snoc step

/-- A run cut at one place of its history. -/
theorem cut {p : S × A} {before after : List (S × A)}
    (hrun : Exec next s (before ++ p :: after) t) :
    ∃ u, Exec next s before p.1 ∧ next p.1 p.2 = some u ∧ Exec next u after t := by
  generalize hh : before ++ p :: after = h at hrun
  induction hrun generalizing after with
  | nil => cases (List.append_eq_nil_iff.mp hh).2
  | @snoc h t v a prev step ih =>
    cases List.eq_nil_or_concat' after with
    | inl hnil =>
      -- the cut is at the last step
      rw [hnil] at hh ⊢
      obtain ⟨rfl, rfl⟩ := List.append_singleton_inj.mp hh
      exact ⟨v, prev, step, .nil⟩
    | inr hconcat =>
      obtain ⟨init, last, hafter⟩ := hconcat
      rw [hafter, ← List.cons_append, ← List.append_assoc] at hh
      obtain ⟨hinit, rfl⟩ := List.append_singleton_inj.mp hh
      obtain ⟨u, hbefore, hu, hrest⟩ := ih hinit
      rw [hafter]
      exact ⟨u, hbefore, hu, hrest.snoc step⟩

/-- A run can be cut at any of its steps. -/
theorem split {p : S × A} (hrun : Exec next s h t) (hp : p ∈ h) :
    ∃ before after u, h = before ++ p :: after ∧ Exec next s before p.1 ∧
      next p.1 p.2 = some u ∧ Exec next u after t := by
  obtain ⟨before, after, rfl⟩ := List.append_of_mem hp
  obtain ⟨u, hbefore, hu, hafter⟩ := hrun.cut
  exact ⟨before, after, u, rfl, hbefore, hu, hafter⟩

end Exec

/-- Take the actions in order. -/
def runActions (next : S → A → Option S) : S → List A → Option S
  | s, [] => some s
  | s, a :: rest => (next s a).bind fun t => runActions next t rest

/-- Two lists of actions in a row. -/
theorem runActions_append {acts acts' : List A} {u : S} :
    ∀ {s t : S}, runActions next s acts = some t → runActions next t acts' = some u →
      runActions next s (acts ++ acts') = some u := by
  induction acts with
  | nil =>
    intro s t hrun hrun'
    obtain rfl := Option.some.inj hrun
    exact hrun'
  | cons a rest ih =>
    intro s t hrun hrun'
    obtain ⟨v, hv, hrest⟩ := Option.bind_eq_some_iff.mp hrun
    exact Option.bind_eq_some_iff.mpr ⟨v, hv, ih hrest hrun'⟩

/-- Actions that can be taken in order are a run. -/
theorem exec_of_run {acts : List A} :
    ∀ {s t : S}, runActions next s acts = some t →
      ∃ h, Exec next s h t ∧ h.map Prod.snd = acts := by
  induction acts with
  | nil =>
    intro s t hrun
    obtain rfl := Option.some.inj hrun
    exact ⟨[], .nil, rfl⟩
  | cons a rest ih =>
    intro s t hrun
    obtain ⟨u, hu, hrest⟩ := Option.bind_eq_some_iff.mp hrun
    obtain ⟨h, hexec, hmap⟩ := ih hrest
    exact ⟨(s, a) :: h, (Exec.snoc .nil hu).append hexec, by simp [hmap]⟩

end GrafeoLoro.Lib
