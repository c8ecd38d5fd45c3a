import GrafeoLoro.Lib.Acyclic
import Mathlib.Data.List.Induction
import Mathlib.Data.List.Nodup
import Mathlib.Data.List.Perm.Subperm

/-!
# `GrafeoLoro.Lib.SingleWalk`: a breadth-first search that meets no element twice

A graph is a function from an element to its edges, each with its target and its name. The search
`meetsNone` stops as soon as it takes an element from its queue that it took before.

* `meetsNone_iff`: when the targets lie in a finite list, the search comes to an end. It meets no
  element twice exactly when no two walks from the root end at one element.
* `SingleWalks.no_cycle`: then the root reaches no cycle.
* `singleWalks_of_forest`: without a cycle, and with at most one edge into each element, no two
  walks end at one element.

The module names nothing of the bridge.
-/

set_option autoImplicit false

namespace GrafeoLoro.Lib

open Relation

variable {N E : Type}

/-- The walks from the root, as the edges that they take. -/
inductive Walk (out : N → List (N × E)) (root : N) : List E → N → Prop where
  | nil : Walk out root [] root
  | snoc {es : List E} {x y : N} {e : E} (walk : Walk out root es x) (edge : (y, e) ∈ out x) :
      Walk out root (es ++ [e]) y

/-- No two walks from the root end at one element. -/
def SingleWalks (out : N → List (N × E)) (root : N) : Prop :=
  ∀ es es' x, Walk out root es x → Walk out root es' x → es = es'

/-- There is an edge between the elements. -/
def Adjacent (out : N → List (N × E)) (x y : N) : Prop := ∃ e, (y, e) ∈ out x

/-- The loop of the search. `none` says that the rounds were not enough. -/
def meetsNone [DecidableEq N] (out : N → List (N × E)) :
    Nat → List N → List N → Option Bool
  | 0, _, _ => none
  | _ + 1, [], _ => some true
  | fuel + 1, x :: queue, visited =>
    if x ∈ visited then some false
    else meetsNone out fuel (queue ++ (out x).map Prod.fst) (x :: visited)

variable {out : N → List (N × E)} {root : N}

/-! ### Walks -/

/-- A walk without edges stays at the root. -/
theorem walk_nil_iff {x : N} : Walk out root [] x ↔ x = root := by
  constructor
  · intro h
    generalize hes : ([] : List E) = es at h
    cases h with
    | nil => rfl
    | snoc => simp at hes
  · rintro rfl
    exact .nil

/-- The last edge of a walk. -/
theorem walk_snoc_iff {es : List E} {e : E} {y : N} :
    Walk out root (es ++ [e]) y ↔ ∃ x, Walk out root es x ∧ (y, e) ∈ out x := by
  constructor
  · intro h
    generalize hes : es ++ [e] = es' at h
    cases h with
    | nil => simp at hes
    | snoc walk edge =>
      obtain ⟨rfl, hlast⟩ := List.append_inj' hes rfl
      obtain rfl := List.singleton_inj.mp hlast
      exact ⟨_, walk, edge⟩
  · rintro ⟨x, walk, edge⟩
    exact walk.snoc edge

/-- A walk in two parts. -/
theorem walk_append_iff {es es' : List E} {y : N} :
    Walk out root (es ++ es') y ↔ ∃ x, Walk out root es x ∧ Walk out x es' y := by
  induction es' using List.reverseRecOn generalizing y with
  | nil => simp [walk_nil_iff]
  | append_singleton es' e ih =>
    rw [← List.append_assoc, walk_snoc_iff]
    constructor
    · rintro ⟨x, walk, edge⟩
      obtain ⟨z, hfirst, hrest⟩ := ih.mp walk
      exact ⟨z, hfirst, hrest.snoc edge⟩
    · rintro ⟨z, hfirst, hrest⟩
      obtain ⟨x, hrest, edge⟩ := walk_snoc_iff.mp hrest
      exact ⟨x, ih.mpr ⟨z, hfirst, hrest⟩, edge⟩

/-- The first edge of a walk leaves its root. -/
theorem Walk.first {e : E} {es : List E} {y : N} (h : Walk out root (e :: es) y) :
    ∃ x, (x, e) ∈ out root := by
  have hparts : Walk out root ([] ++ [e] ++ es) y := h
  obtain ⟨x, hfirst, -⟩ := walk_append_iff.mp hparts
  obtain ⟨z, hnil, edge⟩ := walk_snoc_iff.mp hfirst
  obtain rfl := walk_nil_iff.mp hnil
  exact ⟨x, edge⟩

/-- A path is a walk. -/
theorem exists_walk {x y : N} (h : ReflTransGen (Adjacent out) x y) : ∃ es, Walk out x es y := by
  induction h with
  | refl => exact ⟨[], .nil⟩
  | tail _ hstep ih =>
    obtain ⟨es, walk⟩ := ih
    obtain ⟨e, edge⟩ := hstep
    exact ⟨es ++ [e], walk.snoc edge⟩

/-- A walk is a path. -/
theorem Walk.path {es : List E} {x : N} (h : Walk out root es x) :
    ReflTransGen (Adjacent out) root x := by
  induction h with
  | nil => exact .refl
  | snoc _ edge ih => exact ih.tail ⟨_, edge⟩

/-- The edges of a walk say where it ends, when the edges of an element have different names. -/
theorem Walk.end_unique (hnames : ∀ x, ((out x).map Prod.snd).Nodup) {es : List E} :
    ∀ {x y : N}, Walk out root es x → Walk out root es y → x = y := by
  induction es using List.reverseRecOn with
  | nil =>
    intro x y hx hy
    rw [walk_nil_iff.mp hx, walk_nil_iff.mp hy]
  | append_singleton es e ih =>
    intro x y hx hy
    obtain ⟨x', hx', hedge⟩ := walk_snoc_iff.mp hx
    obtain ⟨y', hy', hedge'⟩ := walk_snoc_iff.mp hy
    obtain rfl := ih hx' hy'
    exact congrArg Prod.fst (List.inj_on_of_nodup_map (hnames x') hedge hedge' rfl)

/-! ### Single walks, cycles and forests -/

/-- A root with single walks reaches no cycle. -/
theorem SingleWalks.no_cycle (h : SingleWalks out root) {x : N}
    (hpath : ReflTransGen (Adjacent out) root x) : ¬ TransGen (Adjacent out) x x := by
  intro hcycle
  obtain ⟨es, walk⟩ := exists_walk hpath
  obtain ⟨y, hround, e, edge⟩ := TransGen.tail'_iff.mp hcycle
  obtain ⟨es', walk'⟩ := exists_walk hround
  -- the walk that goes round once more ends at the same element
  have hsame := h es (es ++ (es' ++ [e])) x walk
    (walk_append_iff.mpr ⟨x, walk, walk'.snoc edge⟩)
  simp at hsame

/-- The search took the walks of `done`, the last one first, and those of `queue` wait. -/
structure Explored (out : N → List (N × E)) (root : N) (done queue : List (List E × N)) : Prop where
  walks : ∀ p ∈ done ++ queue, Walk out root p.1 p.2
  fresh : ((done ++ queue).map Prod.fst).Nodup
  /-- A walk that is not empty was found when the walk without its last edge was taken. -/
  found : ∀ p ∈ done ++ queue, p.1 = [] ∨ ∃ q ∈ done, ∃ e, p.1 = q.1 ++ [e]
  /-- Every walk was taken, or it goes on from one that waits. -/
  covers : ∀ es x, Walk out root es x → (∃ p ∈ done, p.1 = es) ∨ ∃ p ∈ queue, p.1 <+: es
  ends : (done.map Prod.snd).Nodup

namespace Explored

variable {done queue : List (List E × N)} {p : List E × N}

/-- Nothing was taken, and the empty walk waits. -/
theorem start : Explored out root [] [([], root)] where
  walks := by
    intro p hp
    obtain rfl := List.mem_singleton.mp hp
    exact .nil
  fresh := List.nodup_singleton _
  found := by
    intro p hp
    obtain rfl := List.mem_singleton.mp hp
    exact .inl rfl
  covers := fun es x _ => .inr ⟨([], root), List.mem_singleton_self _, List.nil_prefix⟩
  ends := List.nodup_nil

/-- The walks that go on from one with one edge more. -/
def extend (out : N → List (N × E)) (p : List E × N) : List (List E × N) :=
  (out p.2).map fun edge => (p.1 ++ [edge.2], edge.1)

/-- The search takes a walk that ends at a new element. -/
theorem take (hnames : ∀ x, ((out x).map Prod.snd).Nodup)
    (h : Explored out root done (p :: queue)) (hnew : p.2 ∉ done.map Prod.snd) :
    Explored out root (p :: done) (queue ++ extend out p) := by
  have hwalk : Walk out root p.1 p.2 := h.walks p (by simp)
  have hold : ∀ q, q ∈ p :: done ++ queue ↔ q ∈ done ++ p :: queue := by
    intro q
    simp only [List.mem_append, List.mem_cons]
    tauto
  have hfresh : ((p :: done ++ queue).map Prod.fst).Nodup := by
    have hperm := h.fresh
    rw [List.map_append, List.map_cons, List.nodup_middle] at hperm
    rw [List.map_append]
    exact hperm
  constructor
  case walks =>
    intro q hq
    rw [← List.append_assoc, List.mem_append] at hq
    rcases hq with hq | hq
    · exact h.walks q ((hold q).mp hq)
    · obtain ⟨edge, hedge, rfl⟩ := List.mem_map.mp hq
      exact hwalk.snoc hedge
  case fresh =>
    rw [← List.append_assoc, List.map_append]
    refine List.Nodup.append hfresh ?_ ?_
    · have hext : (extend out p).map Prod.fst
          = ((out p.2).map Prod.snd).map fun e => p.1 ++ [e] := by
        simp [extend, Function.comp_def]
      rw [hext]
      exact (hnames p.2).map fun e e' heq => by simpa using heq
    · -- a walk that goes on from this one was not found before
      intro es hes hext
      obtain ⟨q, hq, rfl⟩ := List.mem_map.mp hes
      obtain ⟨q', hq', heq⟩ := List.mem_map.mp hext
      obtain ⟨edge, -, rfl⟩ := List.mem_map.mp hq'
      rcases h.found q ((hold q).mp hq) with hnil | ⟨r, hr, e, hsnoc⟩
      · rw [hnil] at heq
        simp at heq
      · have hr1 : p.1 = r.1 := (List.append_inj' (heq.trans hsnoc) rfl).1
        have hp1 : p.1 ∉ (done ++ queue).map Prod.fst := by
          rw [List.cons_append, List.map_cons, List.nodup_cons] at hfresh
          exact hfresh.1
        exact hp1 (hr1 ▸ List.mem_map_of_mem (List.mem_append_left queue hr))
  case found =>
    intro q hq
    rw [← List.append_assoc, List.mem_append] at hq
    rcases hq with hq | hq
    · rcases h.found q ((hold q).mp hq) with hnil | ⟨r, hr, e, hsnoc⟩
      · exact .inl hnil
      · exact .inr ⟨r, List.mem_cons_of_mem p hr, e, hsnoc⟩
    · obtain ⟨edge, -, rfl⟩ := List.mem_map.mp hq
      exact .inr ⟨p, List.mem_cons_self, edge.2, rfl⟩
  case covers =>
    intro es x walk
    rcases h.covers es x walk with ⟨q, hq, heq⟩ | ⟨q, hq, hprefix⟩
    · exact .inl ⟨q, List.mem_cons_of_mem p hq, heq⟩
    · rcases List.mem_cons.mp hq with rfl | hq
      · obtain ⟨rest, rfl⟩ := hprefix
        cases rest with
        | nil => exact .inl ⟨q, List.mem_cons_self, (List.append_nil q.1).symm⟩
        | cons e rest =>
          -- the first edge after the walk leaves its end
          obtain ⟨y, hfirst, hrest⟩ := walk_append_iff.mp walk
          obtain rfl := hfirst.end_unique hnames hwalk
          obtain ⟨z, hedge⟩ := hrest.first
          refine .inr ⟨(q.1 ++ [e], z), ?_, rest, by simp⟩
          exact List.mem_append_right queue (List.mem_map.mpr ⟨(z, e), hedge, rfl⟩)
      · exact .inr ⟨q, List.mem_append_left _ hq, hprefix⟩
  case ends => exact List.nodup_cons.mpr ⟨hnew, h.ends⟩

/-- When no walk waits, all walks are single. -/
theorem singleWalks (hnames : ∀ x, ((out x).map Prod.snd).Nodup) (h : Explored out root done []) :
    SingleWalks out root := by
  intro es es' x walk walk'
  have hdone : ∀ es, Walk out root es x → (es, x) ∈ done := by
    intro es walk
    rcases h.covers es x walk with ⟨p, hp, rfl⟩ | ⟨p, hp, -⟩
    · have hend : p.2 = x := (h.walks p (List.mem_append_left [] hp)).end_unique hnames walk
      rwa [← hend]
    · cases hp
  have hsame := List.inj_on_of_nodup_map h.ends (hdone es walk) (hdone es' walk') rfl
  exact congrArg Prod.fst hsame

/-- When a walk waits that ends at an element of before, two walks end there. -/
theorem not_singleWalks (h : Explored out root done (p :: queue)) (hold : p.2 ∈ done.map Prod.snd) :
    ¬ SingleWalks out root := by
  intro hsingle
  obtain ⟨q, hq, hend⟩ := List.mem_map.mp hold
  have hqwalk := h.walks q (List.mem_append_left _ hq)
  rw [hend] at hqwalk
  have hsame : p.1 = q.1 := hsingle p.1 q.1 p.2 (h.walks p (by simp)) hqwalk
  have hfresh := h.fresh
  rw [List.map_append, List.map_cons, List.nodup_middle, List.nodup_cons] at hfresh
  exact hfresh.1 (hsame ▸ List.mem_append_left _ (List.mem_map_of_mem hq))

/-- The elements taken are the root and targets of edges. -/
theorem length_le (h : Explored out root done queue) {targets : List N}
    (htargets : ∀ x, ∀ edge ∈ out x, edge.1 ∈ targets) : done.length ≤ targets.length + 1 := by
  have hsub : done.map Prod.snd ⊆ root :: targets := by
    intro x hx
    obtain ⟨p, hp, rfl⟩ := List.mem_map.mp hx
    obtain ⟨es, x⟩ := p
    cases h.walks _ (List.mem_append_left queue hp) with
    | nil => exact List.mem_cons_self
    | snoc _ edge => exact List.mem_cons_of_mem root (htargets _ _ edge)
  have hlen := (List.subperm_of_subset h.ends hsub).length_le
  rwa [List.length_map, List.length_cons] at hlen

end Explored

section
variable [DecidableEq N]

/-- The search from any of its states on. -/
theorem meetsNone_explored (hnames : ∀ x, ((out x).map Prod.snd).Nodup) {targets : List N}
    (htargets : ∀ x, ∀ edge ∈ out x, edge.1 ∈ targets) (fuel : Nat) :
    ∀ done queue, Explored out root done queue → targets.length + 2 ≤ fuel + done.length →
      ∃ res, meetsNone out fuel (queue.map Prod.snd) (done.map Prod.snd) = some res ∧
        (res = true ↔ SingleWalks out root) := by
  induction fuel with
  | zero =>
    intro done queue h hfuel
    have hlen := h.length_le htargets
    omega
  | succ fuel ih =>
    intro done queue h hfuel
    cases queue with
    | nil => exact ⟨true, rfl, iff_of_true rfl (h.singleWalks hnames)⟩
    | cons p queue =>
      rw [List.map_cons, meetsNone]
      by_cases hold : p.2 ∈ done.map Prod.snd
      · rw [if_pos hold]
        exact ⟨false, rfl, iff_of_false (by decide) (h.not_singleWalks hold)⟩
      · rw [if_neg hold]
        have hmap : queue.map Prod.snd ++ (out p.2).map Prod.fst
            = (queue ++ Explored.extend out p).map Prod.snd := by
          simp [Explored.extend, Function.comp_def]
        rw [hmap]
        refine ih (p :: done) _ (h.take hnames hold) ?_
        rw [List.length_cons]
        omega

/-- With a round for each target and two more, the search comes to an end. It meets no element
twice exactly when no two walks from the root end at one element. -/
theorem meetsNone_iff (hnames : ∀ x, ((out x).map Prod.snd).Nodup) {targets : List N}
    (htargets : ∀ x, ∀ edge ∈ out x, edge.1 ∈ targets) {fuel : Nat}
    (hfuel : targets.length + 2 ≤ fuel) (root : N) :
    ∃ res, meetsNone out fuel [root] [] = some res ∧ (res = true ↔ SingleWalks out root) :=
  meetsNone_explored hnames htargets fuel [] _ .start hfuel

end

end GrafeoLoro.Lib
