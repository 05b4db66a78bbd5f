/-
# Formula.Proofs.Tree.Places — where in a tree each call belongs

A node of a tree is named by its place, the way from the root to it. Work in a tree
is done in one order (`Place.Before`): what is below a node before the node, and what
is below one operand before what is below the operands to the right of it. No two
nodes are level in it, so a list in this order has every place at most once.

The inner nodes with their places are listed in this order (`pairwise_placed`), and the
list leaves none out (`mem_placed`). An evaluation makes the calls of just this list,
whatever its buffer holds, and gives back the buffer and the value of the tree
(`evaluation_denotes`).
-/
import Formula.Proofs.Tree.Calls

namespace Formula

set_option autoImplicit false

/-- The way from the root of a tree to one of its nodes: the number of an operand for
every step. -/
abbrev Place := List Nat

namespace Place

/-- The first of two places is below the second, or they part at a node and the first
goes to the left. -/
inductive Before : Place → Place → Prop where
  | below (node : Place) (i : Nat) (way : Place) : Before (node ++ i :: way) node
  | left (node : Place) {i j : Nat} (way other : Place) :
    i < j → Before (node ++ i :: way) (node ++ j :: other)

theorem Before.ne {p q : Place} (before : Before p q) : p ≠ q := by
  intro same
  cases before with
  | below node i way => simp at same
  | left node way other less =>
      obtain ⟨level, -⟩ := List.cons.inj (List.append_cancel_left same)
      omega

theorem Before.cons {p q : Place} (i : Nat) (before : Before p q) :
    Before (i :: p) (i :: q) := by
  cases before with
  | below _ j way => exact .below (i :: q) j way
  | left node way other less => exact .left (i :: node) way other less

end Place

namespace Tree

/-! ## Inner nodes by place -/

/-- The application that a tree is, unless it is a leaf. -/
def application? : Tree → Option Application
  | .apply o lhs rhs => some ⟨.operator o, [lhs, rhs]⟩
  | .call r arguments => some ⟨.routine r, arguments⟩
  | _ => none

/-- The application at a place, if there is an inner node. -/
def applicationAt? : Tree → Place → Option Application
  | t, [] => t.application?
  | t, i :: way =>
    t.application?.bind fun a => (a.operands[i]?).bind fun u => u.applicationAt? way

/-- The same node, seen from the node it is under. -/
def under (i : Nat) (node : Place × Application) : Place × Application := (i :: node.1, node.2)

mutual

/-- The inner nodes of a tree with their places, every node after those below it. -/
def placed : Tree → List (Place × Application)
  | .constant _ => []
  | .slot _ => []
  | .apply o lhs rhs =>
    lhs.placed.map (under 0) ++ rhs.placed.map (under 1) ++ [([], ⟨.operator o, [lhs, rhs]⟩)]
  | .call r arguments => placedFrom 0 arguments ++ [([], ⟨.routine r, arguments⟩)]

/-- The same for operands of a node, of which the first has a number. -/
def placedFrom (i : Nat) : List Tree → List (Place × Application)
  | [] => []
  | t :: ts => t.placed.map (under i) ++ placedFrom (i + 1) ts

end

theorem placed_of_leaf {t : Tree} (leaf : t.application? = none) : t.placed = [] := by
  cases t with
  | constant value => rfl
  | slot index => rfl
  | apply o lhs rhs => cases leaf
  | call r arguments => cases leaf

theorem placed_of_inner {t : Tree} {a : Application} (inner : t.application? = some a) :
    t.placed = placedFrom 0 a.operands ++ [([], a)] := by
  cases t with
  | constant value => cases inner
  | slot index => cases inner
  | apply o lhs rhs =>
      cases inner
      simp only [placed, placedFrom, List.append_nil]
  | call r arguments =>
      cases inner
      rw [placed]

theorem applications_of_leaf {t : Tree} (leaf : t.application? = none) :
    t.applications = [] := by
  cases t with
  | constant value => rfl
  | slot index => rfl
  | apply o lhs rhs => cases leaf
  | call r arguments => cases leaf

theorem applications_of_inner {t : Tree} {a : Application} (inner : t.application? = some a) :
    t.applications = applicationsOfAll a.operands ++ [a] := by
  cases t with
  | constant value => cases inner
  | slot index => cases inner
  | apply o lhs rhs =>
      cases inner
      simp only [applications, applicationsOfAll, List.append_nil]
  | call r arguments =>
      cases inner
      rw [applications]

/-- Induction over trees that does not tell operators from routines. -/
theorem operands_induct {motive : Tree → Prop}
    (leaf : ∀ t : Tree, t.application? = none → motive t)
    (inner : ∀ (t : Tree) (a : Application), t.application? = some a →
      (∀ u ∈ a.operands, motive u) → motive t) (t : Tree) : motive t := by
  induction t using induct with
  | constant value => exact leaf _ rfl
  | slot index => exact leaf _ rfl
  | apply o lhs rhs ihl ihr =>
      refine inner _ ⟨.operator o, [lhs, rhs]⟩ rfl ?_
      intro u member
      simp only [List.mem_cons, List.not_mem_nil, or_false] at member
      rcases member with rfl | rfl
      · exact ihl
      · exact ihr
  | call r arguments ih => exact inner _ ⟨.routine r, arguments⟩ rfl ih

/-! ## The list is complete -/

theorem mem_placedFrom {i : Nat} {ts : List Tree} {p : Place} {a : Application} :
    (p, a) ∈ placedFrom i ts ↔
      ∃ k u way, ts[k]? = some u ∧ p = (i + k) :: way ∧ (way, a) ∈ u.placed := by
  induction ts generalizing i with
  | nil => simp [placedFrom]
  | cons t ts ih =>
      rw [placedFrom, List.mem_append, ih]
      constructor
      · rintro (first | ⟨k, u, way, here, rfl, member⟩)
        · obtain ⟨⟨way, b⟩, member, same⟩ := List.mem_map.mp first
          cases same
          exact ⟨0, t, way, rfl, rfl, member⟩
        · exact ⟨k + 1, u, way, here, by rw [Nat.add_right_comm, Nat.add_assoc], member⟩
      · rintro ⟨k, u, way, here, rfl, member⟩
        cases k with
        | zero =>
            cases here
            exact .inl (List.mem_map.mpr ⟨(way, a), member, rfl⟩)
        | succ k =>
            exact .inr ⟨k, u, way, here, by rw [Nat.add_right_comm, Nat.add_assoc], member⟩

/-- An inner node is in the list with its place. -/
theorem mem_placed {t : Tree} {p : Place} {a : Application} :
    (p, a) ∈ t.placed ↔ t.applicationAt? p = some a := by
  induction t using operands_induct generalizing p with
  | leaf t leaf => cases p <;> simp [placed_of_leaf leaf, applicationAt?, leaf]
  | inner t b inner ih =>
      rw [placed_of_inner inner, List.mem_append, mem_placedFrom]
      cases p with
      | nil => simp [applicationAt?, inner, eq_comm]
      | cons i way =>
          simp only [applicationAt?, inner, Option.bind_some, Option.bind_eq_some_iff]
          constructor
          · rintro (⟨k, u, way', here, same, member⟩ | root)
            · obtain ⟨rfl, rfl⟩ := List.cons.inj same
              rw [Nat.zero_add]
              exact ⟨u, here, (ih u (List.mem_of_getElem? here)).mp member⟩
            · simp at root
          · rintro ⟨u, here, found⟩
            refine .inl ⟨i, u, way, here, by rw [Nat.zero_add], ?_⟩
            exact (ih u (List.mem_of_getElem? here)).mpr found

theorem placedFrom_applications {ts : List Tree}
    (each : ∀ t ∈ ts, t.placed.map Prod.snd = t.applications) (i : Nat) :
    (placedFrom i ts).map Prod.snd = applicationsOfAll ts := by
  induction ts generalizing i with
  | nil => rfl
  | cons t ts ih =>
      have head := each t (List.mem_cons_self ..)
      have tail := ih (fun u member => each u (List.mem_cons_of_mem _ member)) (i + 1)
      rw [placedFrom, List.map_append, tail, List.map_map, applicationsOfAll, ← head]
      rfl

/-- Without their places, these are the applications of the tree. -/
theorem placed_applications (t : Tree) : t.placed.map Prod.snd = t.applications := by
  induction t using operands_induct with
  | leaf t leaf => rw [placed_of_leaf leaf, applications_of_leaf leaf, List.map_nil]
  | inner t a inner ih =>
      rw [placed_of_inner inner, applications_of_inner inner, List.map_append,
        placedFrom_applications ih]
      rfl

/-! ## The list is in order -/

theorem pairwise_placedFrom {ts : List Tree}
    (each : ∀ t ∈ ts, t.placed.Pairwise fun x y => x.1.Before y.1) (i : Nat) :
    (placedFrom i ts).Pairwise fun x y => x.1.Before y.1 := by
  induction ts generalizing i with
  | nil => exact .nil
  | cons t ts ih =>
      rw [placedFrom, List.pairwise_append]
      refine ⟨?_, ih (fun u member => each u (List.mem_cons_of_mem _ member)) (i + 1), ?_⟩
      · rw [List.pairwise_map]
        exact (each t (List.mem_cons_self ..)).imp fun before => before.cons i
      · intro x first y later
        obtain ⟨node, -, rfl⟩ := List.mem_map.mp first
        obtain ⟨k, u, way, -, place, -⟩ := mem_placedFrom.mp later
        show Place.Before (i :: node.1) y.1
        rw [place]
        exact .left [] node.1 way (by omega)

/-- Every node comes after those below it, and those from left to right. -/
theorem pairwise_placed (t : Tree) : t.placed.Pairwise fun x y => x.1.Before y.1 := by
  induction t using operands_induct with
  | leaf t leaf =>
      rw [placed_of_leaf leaf]
      exact .nil
  | inner t a inner ih =>
      rw [placed_of_inner inner, List.pairwise_append]
      refine ⟨pairwise_placedFrom ih 0, List.pairwise_singleton .., ?_⟩
      intro x below y root
      rw [List.mem_singleton.mp root]
      obtain ⟨k, u, way, -, place, -⟩ := mem_placedFrom.mp below
      rw [place]
      exact .below [] (0 + k) way

end Tree

/-- With a slot for every variable and as many arguments in each call as its routine
takes, an evaluation gives the value of the tree, whatever its buffer holds, and leaves
the buffer as it found it. On the way it makes the call of every inner node, once, with
the values of the operands of the node, after all calls below the node and those from
left to right. -/
theorem evaluation_denotes {t : Tree} {slots : List Float} (filled : t.Filled)
    (within : ∀ i ∈ t.slots, i < slots.length) :
    ∃ log : List (Place × Call),
      (∀ w : Workspace, ∃ after : Workspace,
        t.evaluate? slots w = some (t.denote slots, after) ∧
          t.evaluate slots w = (t.denote slots, after) ∧ after.staged = w.staged ∧
          after.calls.toList = w.calls.toList ++ log.map Prod.snd) ∧
      (log.map Prod.fst).Nodup ∧ (log.Pairwise fun x y => x.1.Before y.1) ∧
      ∀ place call, (place, call) ∈ log ↔
        ∃ a, t.applicationAt? place = some a ∧ call = a.call slots := by
  have inOrder : (t.placed.map fun node => (node.1, node.2.call slots)).Pairwise
      fun x y => x.1.Before y.1 := List.pairwise_map.mpr t.pairwise_placed
  refine ⟨t.placed.map fun node => (node.1, node.2.call slots), fun w => ?_, ?_, inOrder, ?_⟩
  · obtain ⟨after, unstopped, evaluated, staged, logged⟩ := filled.logs within w
    refine ⟨after, unstopped, evaluated, staged, ?_⟩
    rw [logged, Tree.calls, ← Tree.placed_applications, List.map_map, List.map_map]
    rfl
  · exact List.pairwise_map.mpr (inOrder.imp Place.Before.ne)
  · intro place call
    constructor
    · intro member
      obtain ⟨⟨p, a⟩, inside, same⟩ := List.mem_map.mp member
      cases same
      exact ⟨a, Tree.mem_placed.mp inside, rfl⟩
    · rintro ⟨a, found, rfl⟩
      exact List.mem_map.mpr ⟨(place, a), Tree.mem_placed.mpr found, rfl⟩

/-- In `1 - first(x, 2)` on a buffer that holds a value, the routine is called first,
with its own two arguments. -/
theorem evaluation_denotes_first :
    let minus : Operator := ⟨"-", 2, .left, fun a b => a - b, false⟩
    let first : Routine := ⟨"first", 2, fun values => values.headD 0.0, false⟩
    let t : Tree := .apply minus (.constant 1.0) (.call first [.slot 0, .constant 2.0])
    t.Filled ∧ (∀ i ∈ t.slots, i < [4.0].length) ∧
      ∃ (log : List (Place × Call)) (after : Workspace),
        t.evaluate? [4.0] (.holding #[7.0]) = some (1.0 - 4.0, after) ∧
        after.staged = #[7.0] ∧ after.calls.toList = log.map Prod.snd ∧
        ([1], ⟨.routine first, [4.0, 2.0]⟩) ∈ log ∧
        ([], ⟨.operator minus, [1.0, 4.0]⟩) ∈ log ∧
        log.Pairwise fun x y => x.1.Before y.1 := by
  intro minus first t
  have filled : t.Filled := .apply minus (.constant _) (.pair rfl (.slot 0) (.constant _))
  have within : ∀ i ∈ t.slots, i < [4.0].length := by
    simp [t, Tree.slots, Tree.slotsOfAll]
  obtain ⟨log, each, -, inOrder, complete⟩ := evaluation_denotes filled within
  obtain ⟨after, evaluated, -, staged, logged⟩ := each (.holding #[7.0])
  refine ⟨filled, within, log, after, evaluated, staged, logged, ?_, ?_, inOrder⟩
  · exact (complete _ _).mpr ⟨⟨.routine first, [.slot 0, .constant 2.0]⟩, rfl, rfl⟩
  · exact (complete _ _).mpr ⟨⟨.operator minus, _⟩, rfl, rfl⟩

end Formula
