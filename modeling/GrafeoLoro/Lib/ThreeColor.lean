import GrafeoLoro.Lib.Acyclic
import GrafeoLoro.Lib.Fuel
import Mathlib.Data.Finset.Card

/-!
# `GrafeoLoro.Lib.ThreeColor`: cycle detection by three-colour depth-first search

`visitFrames` is the loop of an iterative depth-first search with a stack of frames. A frame is a
node and its neighbours that are left. A node is white until it is visited, gray while its frame
is on the stack, and black once its neighbours are done. A neighbour that is gray closes a cycle,
and the search stops with that edge. `findBackEdge` starts such a search from every root that is
still white. `fuel` bounds the rounds of each search, and `none` says that they were not enough.

The gray nodes are those of the frames, and the frames are a path. So the edge that is reported
lies on a cycle (`VisitOk.back_edge`). The black nodes are closed under neighbours and on no cycle
(`VisitOk.no_cycle`).

* `findBackEdge_returns`: among finitely many nodes the search always ends.
* `findBackEdge_report`: a search that ends without an edge says that the graph is acyclic, and the
  edge that it ends with is on a cycle. So it ends without an edge exactly when the graph is
  acyclic (`Report.ok_iff`).

The module names nothing of the bridge.
-/

set_option autoImplicit false

namespace GrafeoLoro.Lib

open Relation

/-- The three colours of a node. -/
inductive Color where
  | white | gray | black
  deriving DecidableEq, Repr

variable {α : Type}

/-- The loop of one search. It ends with an edge to a gray node, or with the colours after it. -/
def visitFrames [DecidableEq α] (nbrs : α → List α) :
    Nat → List (α × List α) → (α → Color) → Option (Except (α × α) (α → Color))
  | 0, _, _ => none
  | _ + 1, [], color => some (.ok color)
  -- All neighbours are taken, so the node is done.
  | fuel + 1, (cur, []) :: stack, color =>
    visitFrames nbrs fuel stack (Function.update color cur .black)
  | fuel + 1, (cur, next :: rest) :: stack, color =>
    match color next with
    | .white =>
      visitFrames nbrs fuel ((next, nbrs next) :: (cur, rest) :: stack)
        (Function.update color next .gray)
    -- The neighbour is on the path to `cur`.
    | .gray => some (.error (cur, next))
    | .black => visitFrames nbrs fuel ((cur, rest) :: stack) color

/-- The loop over the roots. -/
def findBackEdge [DecidableEq α] (nbrs : α → List α) (fuel : Nat) :
    List α → (α → Color) → Option (Except (α × α) Unit)
  | [], _ => some (.ok ())
  | root :: roots, color =>
    if color root ≠ .white then findBackEdge nbrs fuel roots color
    else
      match visitFrames nbrs fuel [(root, nbrs root)] (Function.update color root .gray) with
      | none => none
      | some (.error edge) => some (.error edge)
      | some (.ok color') => findBackEdge nbrs fuel roots color'

/-- The edges of the graph. -/
def Edges (nbrs : α → List α) (x y : α) : Prop := y ∈ nbrs x

/-- A right report about a relation: it is acyclic, or the edge is one on a cycle. -/
def Report (R : α → α → Prop) : Except (α × α) Unit → Prop
  | .ok () => Acyclic R
  | .error (x, y) => R x y ∧ ReflTransGen R y x

/-- A right report has no edge exactly when the relation is acyclic. -/
theorem Report.ok_iff {R : α → α → Prop} {res : Except (α × α) Unit} (h : Report R res) :
    res = .ok () ↔ Acyclic R := by
  cases res with
  | ok u => exact iff_of_true rfl h
  | error edge => exact iff_of_false (by simp) fun hacyclic => hacyclic _ (.head' h.1 h.2)

variable {nbrs : α → List α}

/-- What a search from these roots has found: none of them is on a cycle, or the edge is in the
graph and closes a cycle. -/
def RootsReport (nbrs : α → List α) (roots : List α) : Except (α × α) Unit → Prop
  | .ok () => ∀ root ∈ roots, ¬ TransGen (Edges nbrs) root root
  | .error (x, y) => Edges nbrs x y ∧ ReflTransGen (Edges nbrs) y x

/-- One root more that is on no cycle. -/
theorem RootsReport.cons {root : α} {roots : List α} {res : Except (α × α) Unit}
    (hroot : ¬ TransGen (Edges nbrs) root root) (h : RootsReport nbrs roots res) :
    RootsReport nbrs (root :: roots) res := by
  cases res with
  | ok u => exact List.forall_mem_cons.mpr ⟨hroot, h⟩
  | error edge => exact h

/-! ### The invariant -/

/-- The neighbours of a frame that are not left are black, or the one whose frame is above. -/
def FramesOk (nbrs : α → List α) (color : α → Color) : Option α → List (α × List α) → Prop
  | _, [] => True
  | above, (cur, rest) :: stack =>
    (∀ y ∈ rest, y ∈ nbrs cur) ∧ (∀ y ∈ nbrs cur, y ∈ rest ∨ color y = .black ∨ above = some y) ∧
      (∀ y, above = some y → y ∈ nbrs cur) ∧ FramesOk nbrs color (some cur) stack

/-- The invariant of the loop. -/
structure VisitOk (nbrs : α → List α) (stack : List (α × List α)) (color : α → Color) : Prop where
  gray : ∀ x, color x = .gray ↔ x ∈ stack.map Prod.fst
  nodup : (stack.map Prod.fst).Nodup
  frames : FramesOk nbrs color none stack
  closed : ∀ x y, color x = .black → y ∈ nbrs x → color y = .black
  acyclic : ∀ x, color x = .black → ¬ TransGen (Edges nbrs) x x

/-- The condition on the frames holds on when more nodes are black, and when the node above is
done. -/
theorem FramesOk.mono {color color' : α → Color} {above above' : Option α}
    {stack : List (α × List α)} (h : FramesOk nbrs color above stack)
    (hblack : ∀ y, color y = .black → color' y = .black)
    (habove : ∀ y, above = some y → above' = some y ∨ color' y = .black)
    (habove' : ∀ y, above' = some y → above = some y) : FramesOk nbrs color' above' stack := by
  induction stack generalizing above above' with
  | nil => trivial
  | cons frame stack ih =>
    obtain ⟨hrest, hnbrs, hnext, hstack⟩ := h
    refine ⟨hrest, fun y hy => ?_, fun y hy => hnext y (habove' y hy),
      ih hstack (fun y hy => .inl hy) fun y hy => hy⟩
    rcases hnbrs y hy with hleft | hdone | hup
    · exact .inl hleft
    · exact .inr (.inl (hblack y hdone))
    · exact .inr ((habove y hup).symm)

/-- The frames are a path to the one on top. -/
theorem FramesOk.path {color : α → Color} {above : Option α} {cur : α} {rest : List α}
    {stack : List (α × List α)} (h : FramesOk nbrs color above ((cur, rest) :: stack)) {x : α}
    (hx : x ∈ ((cur, rest) :: stack).map Prod.fst) : ReflTransGen (Edges nbrs) x cur := by
  induction stack generalizing above cur rest with
  | nil =>
    rw [List.map_singleton, List.mem_singleton] at hx
    rw [hx]
  | cons frame stack ih =>
    rcases List.mem_cons.mp hx with rfl | hx
    · exact .refl
    · have hbelow := h.2.2.2
      have hstep : cur ∈ nbrs frame.1 := hbelow.2.2.1 cur rfl
      exact (ih hbelow hx).tail hstep

/-- From a black node only black nodes are reached. -/
theorem black_of_path {color : α → Color}
    (hclosed : ∀ x y, color x = .black → y ∈ nbrs x → color y = .black) {x y : α}
    (hx : color x = .black) (hpath : ReflTransGen (Edges nbrs) x y) : color y = .black := by
  induction hpath with
  | refl => exact hx
  | tail _ hstep ih => exact hclosed _ _ ih hstep

section
variable {stack : List (α × List α)} {color : α → Color} {cur next root : α} {rest : List α}

/-- A neighbour that is black is passed over. -/
theorem VisitOk.skip (h : VisitOk nbrs ((cur, next :: rest) :: stack) color)
    (hnext : color next = .black) : VisitOk nbrs ((cur, rest) :: stack) color where
  gray := h.gray
  nodup := h.nodup
  frames := by
    obtain ⟨hrest, hnbrs, hup, hstack⟩ := h.frames
    refine ⟨fun y hy => hrest y (List.mem_cons_of_mem _ hy), fun y hy => ?_, hup, hstack⟩
    rcases hnbrs y hy with hleft | hdone
    · rcases List.mem_cons.mp hleft with rfl | hleft
      · exact .inr (.inl hnext)
      · exact .inl hleft
    · exact .inr hdone
  closed := h.closed
  acyclic := h.acyclic

/-- A neighbour that is gray closes a cycle. -/
theorem VisitOk.back_edge (h : VisitOk nbrs ((cur, next :: rest) :: stack) color)
    (hnext : color next = .gray) :
    next ∈ nbrs cur ∧ ReflTransGen (Edges nbrs) next cur :=
  ⟨h.frames.1 next List.mem_cons_self, h.frames.path ((h.gray next).mp hnext)⟩

/-- The neighbours of a frame without any left are black. -/
theorem VisitOk.done (h : VisitOk nbrs ((cur, []) :: stack) color) :
    ∀ y ∈ nbrs cur, color y = .black := by
  intro y hy
  rcases h.frames.2.1 y hy with hleft | hdone | hup
  · simp at hleft
  · exact hdone
  · cases hup

/-- Between two searches, a node that was visited is on no cycle. -/
theorem VisitOk.no_cycle (h : VisitOk nbrs [] color) {x : α} (hx : color x ≠ .white) :
    ¬ TransGen (Edges nbrs) x x := by
  cases hcolor : color x with
  | white => exact absurd hcolor hx
  | gray =>
    have hmem := (h.gray x).mp hcolor
    simp at hmem
  | black => exact h.acyclic x hcolor

/-- Before the first search nothing was visited. -/
theorem visitOk_white : VisitOk nbrs [] fun _ => .white where
  gray := by simp
  nodup := by simp
  frames := trivial
  closed := by simp
  acyclic := by simp

variable [DecidableEq α]

/-- A white node that becomes gray leaves the black ones black. -/
theorem black_update_gray (hnext : color next = .white) (y : α) :
    Function.update color next .gray y = .black ↔ color y = .black := by
  by_cases hy : y = next
  · simp [hy, hnext]
  · rw [Function.update_of_ne hy]

/-- A node that becomes black is one black node more. -/
theorem black_update_black (y : α) :
    Function.update color cur .black y = .black ↔ y = cur ∨ color y = .black := by
  by_cases hy : y = cur
  · simp [hy]
  · simp [hy]

/-- A search from a white root. -/
theorem VisitOk.start (h : VisitOk nbrs [] color) (hroot : color root = .white) :
    VisitOk nbrs [(root, nbrs root)] (Function.update color root .gray) where
  gray := fun x => by
    have hgray := h.gray x
    by_cases hx : x = root
    · simp [hx]
    · simpa [Function.update_of_ne hx, hx] using hgray
  nodup := by simp
  frames := ⟨fun y hy => hy, fun y hy => .inl hy, by simp, trivial⟩
  closed := fun x y hx hy => by
    rw [black_update_gray hroot] at hx ⊢
    exact h.closed x y hx hy
  acyclic := fun x hx => h.acyclic x ((black_update_gray hroot x).mp hx)

/-- A neighbour that is white is visited. -/
theorem VisitOk.push (h : VisitOk nbrs ((cur, next :: rest) :: stack) color)
    (hnext : color next = .white) :
    VisitOk nbrs ((next, nbrs next) :: (cur, rest) :: stack)
      (Function.update color next .gray) where
  gray := fun x => by
    have hgray := h.gray x
    by_cases hx : x = next
    · simp [hx]
    · simpa [Function.update_of_ne hx, hx] using hgray
  nodup := by
    have hnew : next ∉ ((cur, next :: rest) :: stack).map Prod.fst := by
      rw [← h.gray next, hnext]
      simp
    exact List.nodup_cons.mpr ⟨hnew, h.nodup⟩
  frames := by
    obtain ⟨hrest, hnbrs, -, hstack⟩ := h.frames
    have hblack : ∀ y, color y = .black → Function.update color next .gray y = .black :=
      fun y => (black_update_gray hnext y).mpr
    refine ⟨fun y hy => hy, fun y hy => .inl hy, by simp, fun y hy => hrest y
      (List.mem_cons_of_mem _ hy), fun y hy => ?_, fun y hy => ?_,
      hstack.mono hblack (fun y hy => .inl hy) fun y hy => hy⟩
    · rcases hnbrs y hy with hleft | hdone | hup
      · rcases List.mem_cons.mp hleft with rfl | hleft
        · exact .inr (.inr rfl)
        · exact .inl hleft
      · exact .inr (.inl (hblack y hdone))
      · cases hup
    · obtain rfl := Option.some.inj hy
      exact hrest _ List.mem_cons_self
  closed := fun x y hx hy => by
    rw [black_update_gray hnext] at hx ⊢
    exact h.closed x y hx hy
  acyclic := fun x hx => h.acyclic x ((black_update_gray hnext x).mp hx)

/-- A node whose neighbours are done is black. It is on no cycle, because what its neighbours reach
is black already. -/
theorem VisitOk.pop (h : VisitOk nbrs ((cur, []) :: stack) color) :
    VisitOk nbrs stack (Function.update color cur .black) where
  gray := fun x => by
    have hnodup := List.nodup_cons.mp h.nodup
    by_cases hx : x = cur
    · rw [hx]
      simpa using hnodup.1
    · have hgray := h.gray x
      simpa [Function.update_of_ne hx, hx] using hgray
  nodup := (List.nodup_cons.mp h.nodup).2
  frames := by
    refine h.frames.2.2.2.mono (fun y hy => (black_update_black y).mpr (.inr hy))
      (fun y hy => ?_) (by simp)
    obtain rfl := Option.some.inj hy
    exact .inr (Function.update_self _ _ _)
  closed := fun x y hx hy => by
    rw [black_update_black] at hx ⊢
    rcases hx with rfl | hx
    · exact .inr (h.done y hy)
    · exact .inr (h.closed x y hx hy)
  acyclic := fun x hx => by
    rcases (black_update_black x).mp hx with rfl | hx
    · intro hcycle
      obtain ⟨y, hstep, hback⟩ := TransGen.head'_iff.mp hcycle
      have hblack := black_of_path h.closed (h.done y hstep) hback
      -- The node itself is reached again, but it is still gray.
      have hgray := (h.gray x).mpr (by simp)
      rw [hblack] at hgray
      cases hgray
    · exact h.acyclic x hx

/-! ### One search -/

/-- What a search from these colours has found: no gray node is left and no node is white again, or
the edge is in the graph and closes a cycle. -/
def VisitReport (nbrs : α → List α) (color : α → Color) : Except (α × α) (α → Color) → Prop
  | .ok color' => VisitOk nbrs [] color' ∧ ∀ x, color x ≠ .white → color' x ≠ .white
  | .error (x, y) => Edges nbrs x y ∧ ReflTransGen (Edges nbrs) y x

/-- A node that is coloured is not white, so the search may start before that. -/
theorem VisitReport.recolor {x : α} {c : Color} {res : Except (α × α) (α → Color)} (hc : c ≠ .white)
    (h : VisitReport nbrs (Function.update color x c) res) : VisitReport nbrs color res := by
  cases res with
  | error edge => exact h
  | ok color' =>
    refine ⟨h.1, fun y hy => h.2 y ?_⟩
    by_cases hyx : y = x
    · simpa [hyx] using hc
    · rwa [Function.update_of_ne hyx]

/-- What a search reports is right. -/
theorem visitFrames_report {fuel : Nat} {res : Except (α × α) (α → Color)}
    (h : VisitOk nbrs stack color) (hrun : visitFrames nbrs fuel stack color = some res) :
    VisitReport nbrs color res := by
  induction fuel generalizing stack color with
  | zero => cases hrun
  | succ fuel ih =>
    match stack with
    | [] =>
      obtain rfl : .ok color = res := by simpa [visitFrames] using hrun
      exact ⟨h, fun x hx => hx⟩
    | (cur, []) :: stack => exact (ih h.pop hrun).recolor (by simp)
    | (cur, next :: rest) :: stack =>
      rw [visitFrames] at hrun
      cases hnext : color next with
      | white =>
        rw [hnext] at hrun
        exact (ih (h.push hnext) hrun).recolor (by simp)
      | gray =>
        rw [hnext] at hrun
        obtain rfl : .error (cur, next) = res := by simpa using hrun
        exact h.back_edge hnext
      | black =>
        rw [hnext] at hrun
        exact ih (h.skip hnext) hrun

/-- The white nodes of a finite set. -/
def whites (univ : Finset α) (color : α → Color) : Finset α :=
  univ.filter fun x => color x = .white

/-- A node that is coloured is not white any more. -/
theorem whites_update (univ : Finset α) (color : α → Color) (x : α) {c : Color}
    (hc : c ≠ .white) : whites univ (Function.update color x c) = (whites univ color).erase x := by
  ext y
  by_cases hy : y = x
  · simp [whites, hy, hc]
  · simp [whites, hy]

/-- The neighbours that are left in the frames, and the frames themselves. -/
def work : List (α × List α) → Nat
  | [] => 0
  | frame :: stack => frame.2.length + 1 + work stack

/-- A search among finitely many nodes ends. In each round there are fewer white nodes, or there is
less work left on the stack. -/
theorem visitFrames_returns (univ : Finset α) (hnbrs : ∀ x y, y ∈ nbrs x → y ∈ univ) :
    ∀ (stack : List (α × List α)) (color : α → Color),
      (∀ frame ∈ stack, ∀ y ∈ frame.2, y ∈ univ) →
      Ends fun fuel => visitFrames nbrs fuel stack color := by
  suffices h : ∀ n m (stack : List (α × List α)) (color : α → Color),
      (whites univ color).card ≤ n → work stack = m →
      (∀ frame ∈ stack, ∀ y ∈ frame.2, y ∈ univ) →
      Ends fun fuel => visitFrames nbrs fuel stack color by
    exact fun stack color => h _ _ stack color (Nat.le_refl _) rfl
  intro n
  induction n using Nat.strong_induction_on with | _ n ihn =>
  intro m
  induction m using Nat.strong_induction_on with | _ m ihm =>
  intro stack color hcard hwork huniv
  match stack with
  | [] => exact .one fun fuel => rfl
  | (cur, []) :: stack =>
    -- No node becomes white, and the stack gets shorter.
    have hwhites : (whites univ (Function.update color cur .black)).card ≤ n := by
      rw [whites_update univ color cur (by simp)]
      exact Nat.le_trans (Finset.card_le_card (Finset.erase_subset _ _)) hcard
    have hless : work stack < m := by
      simp only [work, List.length_nil] at hwork
      omega
    refine .step id (fun fuel => ?_) (ihm _ hless stack _ hwhites rfl fun frame hframe =>
      huniv frame (List.mem_cons_of_mem _ hframe))
    rw [visitFrames, Option.map_id, id]
  | (cur, next :: rest) :: stack =>
    have hmem : next ∈ univ := huniv _ List.mem_cons_self next List.mem_cons_self
    have htail : ∀ frame ∈ (cur, rest) :: stack, ∀ y ∈ frame.2, y ∈ univ := by
      intro frame hframe y hy
      rcases List.mem_cons.mp hframe with rfl | hframe
      · exact huniv _ List.mem_cons_self y (List.mem_cons_of_mem _ hy)
      · exact huniv frame (List.mem_cons_of_mem _ hframe) y hy
    cases hnext : color next with
    | white =>
      -- The stack grows by the neighbours of `next`, and there is one white node less.
      have hwhites : (whites univ (Function.update color next .gray)).card < n := by
        rw [whites_update univ color next (by simp)]
        have hwhite : next ∈ whites univ color := Finset.mem_filter.mpr ⟨hmem, hnext⟩
        exact Nat.lt_of_lt_of_le (Finset.card_erase_lt_of_mem hwhite) hcard
      have hall : ∀ frame ∈ (next, nbrs next) :: (cur, rest) :: stack, ∀ y ∈ frame.2,
          y ∈ univ := by
        intro frame hframe y hy
        rcases List.mem_cons.mp hframe with rfl | hframe
        · exact hnbrs next y hy
        · exact htail frame hframe y hy
      refine .step id (fun fuel => ?_) (ihn _ hwhites _ _ _ (Nat.le_refl _) rfl hall)
      rw [visitFrames, hnext, Option.map_id, id]
    | gray =>
      have hfound : ∀ fuel, visitFrames nbrs (fuel + 1) ((cur, next :: rest) :: stack) color
          = some (.error (cur, next)) := by
        intro fuel
        rw [visitFrames, hnext]
      exact .one hfound
    | black =>
      have hless : work ((cur, rest) :: stack) < m := by
        simp only [work, List.length_cons] at hwork ⊢
        omega
      refine .step id (fun fuel => ?_) (ihm _ hless _ color hcard rfl htail)
      rw [visitFrames, hnext, Option.map_id, id]

/-! ### All roots -/

/-- The search from all roots ends. -/
theorem findBackEdge_returns (univ : Finset α) (hnbrs : ∀ x y, y ∈ nbrs x → y ∈ univ)
    (roots : List α) (color : α → Color) :
    ∃ fuel res, ∀ more, fuel ≤ more → findBackEdge nbrs more roots color = some res := by
  induction roots generalizing color with
  | nil => exact ⟨0, .ok (), fun more _ => rfl⟩
  | cons root roots ih =>
    by_cases hroot : color root = .white
    · obtain ⟨fuel, res, hfuel⟩ := visitFrames_returns univ hnbrs [(root, nbrs root)]
        (Function.update color root .gray) (by simpa using hnbrs root)
      cases res with
      | error edge =>
        refine ⟨fuel, .error edge, fun more hmore => ?_⟩
        simp only [findBackEdge, hroot, hfuel more hmore, ne_eq, not_true_eq_false, if_false]
      | ok color' =>
        obtain ⟨fuel', res, hfuel'⟩ := ih color'
        refine ⟨max fuel fuel', res, fun more hmore => ?_⟩
        simp only [findBackEdge, hroot, hfuel more (by omega), ne_eq, not_true_eq_false, if_false]
        exact hfuel' more (by omega)
    · obtain ⟨fuel, res, hfuel⟩ := ih color
      refine ⟨fuel, res, fun more hmore => ?_⟩
      simp only [findBackEdge, ne_eq, hroot, not_false_eq_true, if_true]
      exact hfuel more hmore

/-- What the search from all roots reports is right. -/
theorem findBackEdge_rootsReport {fuel : Nat} {roots : List α} {res : Except (α × α) Unit}
    (h : VisitOk nbrs [] color) (hrun : findBackEdge nbrs fuel roots color = some res) :
    RootsReport nbrs roots res := by
  induction roots generalizing color with
  | nil =>
    obtain rfl : .ok () = res := by simpa [findBackEdge] using hrun
    simp [RootsReport]
  | cons root roots ih =>
    rw [findBackEdge] at hrun
    split at hrun
    · rename_i hroot
      exact (ih h hrun).cons (h.no_cycle hroot)
    · rename_i hroot
      have hwhite : color root = .white := not_not.mp hroot
      split at hrun
      · cases hrun
      · rename_i edge hvisit
        obtain rfl : .error edge = res := by simpa using hrun
        exact visitFrames_report (h.start hwhite) hvisit
      · rename_i color' hvisit
        obtain ⟨hend, hkeep⟩ := visitFrames_report (h.start hwhite) hvisit
        exact (ih hend hrun).cons (hend.no_cycle (hkeep root (by simp)))

/-- From all nodes with a neighbour, what a search reports is right. -/
theorem findBackEdge_report {fuel : Nat} {roots : List α} {res : Except (α × α) Unit}
    (hroots : ∀ x y, y ∈ nbrs x → x ∈ roots)
    (hrun : findBackEdge nbrs fuel roots (fun _ => .white) = some res) :
    Report (Edges nbrs) res := by
  have hreport := findBackEdge_rootsReport visitOk_white hrun
  cases res with
  | error edge => exact hreport
  | ok u =>
    intro x hcycle
    -- a node on a cycle has a neighbour, so it is a root
    obtain ⟨y, hstep, -⟩ := TransGen.head'_iff.mp hcycle
    exact hreport x (hroots x y hstep) hcycle

end

end GrafeoLoro.Lib
