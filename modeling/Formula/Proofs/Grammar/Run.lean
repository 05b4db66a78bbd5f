/-
# Formula.Proofs.Grammar.Run — the tree that precedences give to a run

A run is what stands at one level of nesting: operands with operators between
them. Its tree has one of the operators at the root (`Run.splitIndex?`), and the
runs to the left and to the right of it make the two subtrees.

`IsRoot` says of an operator, between those before it and those after it, that
it is the one to split at. `isRoot_iff` turns this into the test the conversion
makes: the root yields to every operator before it, and none after it yields to
the root. Since yielding is transitive, a run can be read from left to right
with a stack of operators that wait for their right operand (`Run.reading`); the
invariant is `Spine`, and `reading_eq_tree` says that the reading ends with the
tree of the run.
-/
import Formula.Postfix
import Formula.Tree
import Mathlib.Data.List.Induction

namespace Formula

set_option autoImplicit false

/-- Operands with operators between them. -/
structure Run where
  first : Tree
  rest : List (Operator × Tree)

namespace Run

/-! ## The tree of a run -/

def operators (run : Run) : List Operator := run.rest.map Prod.fst

/-- A run without operators. -/
def single (operand : Tree) : Run := ⟨operand, []⟩

/-- Two runs with an operator between them. -/
def join (left : Run) (o : Operator) (right : Run) : Run :=
  ⟨left.first, left.rest ++ (o, right.first) :: right.rest⟩

/-- The last place at which a test holds. -/
def lastIndex? (p : Operator → Bool) (ops : List Operator) : Option Nat :=
  (ops.reverse.findIdx? p).map fun k => ops.length - 1 - k

/-- The place to split at: of the operators with the least precedence the last
one that groups to the left, or the first one if all of them group to the
right. -/
def splitIndex? (ops : List Operator) : Option Nat :=
  match (ops.map (·.precedence)).min? with
  | none => none
  | some least =>
    match lastIndex? (fun o => o.precedence == least && o.isLeftAssociative) ops with
    | some k => some k
    | none => ops.findIdx? (·.precedence == least)

/-- The tree of a run: its operand if there is only one, else the operator it is
split at over the trees of the two parts. -/
def tree (run : Run) : Tree :=
  match splitIndex? run.operators with
  | none => run.first
  | some k =>
    match _at : run.rest[k]? with
    | none => run.first
    | some (o, next) =>
      .apply o (tree ⟨run.first, run.rest.take k⟩) (tree ⟨next, run.rest.drop (k + 1)⟩)
termination_by run.rest.length
decreasing_by
  all_goals
    have inside := (List.getElem?_eq_some_iff.mp _at).1
    simp only [List.length_take, List.length_drop]
    omega

@[simp] theorem operators_single (operand : Tree) : (single operand).operators = [] := rfl

@[simp] theorem operators_join (left : Run) (o : Operator) (right : Run) :
    (left.join o right).operators = left.operators ++ o :: right.operators := by
  simp [operators, join]

theorem join_assoc (left : Run) (o : Operator) (middle : Run) (p : Operator) (right : Run) :
    (left.join o middle).join p right = left.join o (middle.join p right) := by
  simp [join]

@[simp] theorem tree_single (operand : Tree) : (single operand).tree = operand := by
  rw [tree]
  simp [operators, single, splitIndex?]

/-- What holds of the operands of a run, and of an application once it holds of
both sides, holds of the tree of the run. -/
theorem tree_induct {motive : Tree → Prop} {run : Run} (first : motive run.first)
    (rest : ∀ p ∈ run.rest, motive p.2)
    (apply : ∀ o lhs rhs, motive lhs → motive rhs → motive (.apply o lhs rhs)) :
    motive run.tree := by
  induction run using tree.induct with
  | case1 run whole =>
      rw [tree]
      simpa only [whole] using first
  | case2 run k split outside =>
      rw [tree]
      simp only [split]
      split
      · exact first
      · simp_all
  | case3 run k split o next found left right =>
      have lhs := left first fun p member => rest p (List.mem_of_mem_take member)
      have rhs := right (rest _ (List.mem_of_getElem? found)) fun p member =>
        rest p (List.mem_of_mem_drop member)
      rw [tree]
      simp only [split]
      split
      · exact first
      · rename_i found'
        cases found.symm.trans found'
        exact apply o _ _ lhs rhs

/-! ## The root of a run -/

/-- Between the operators before and after it, `o` is the one to split at: none
has a lower precedence, and of those with its own precedence it is the last
that groups to the left, or the first where none does. -/
structure IsRoot (before : List Operator) (o : Operator) (after : List Operator) : Prop where
  least : ∀ p ∈ before ++ after, o.precedence ≤ p.precedence
  lastLeft : o.isLeftAssociative = true →
    ∀ p ∈ after, p.isLeftAssociative = true → p.precedence ≠ o.precedence
  noLeft : o.isLeftAssociative = false →
    ∀ p ∈ before ++ after, p.isLeftAssociative = true → p.precedence ≠ o.precedence
  firstRight : o.isLeftAssociative = false → ∀ p ∈ before, p.precedence ≠ o.precedence

theorem lastIndex?_eq_none {p : Operator → Bool} {ops : List Operator}
    (fails : ∀ q ∈ ops, p q = false) : lastIndex? p ops = none := by
  rw [lastIndex?, Option.map_eq_none_iff, List.findIdx?_eq_none_iff]
  exact fun q member => fails q (List.mem_reverse.mp member)

theorem lastIndex?_middle {p : Operator → Bool} {before after : List Operator} {o : Operator}
    (holds : p o = true) (fails : ∀ q ∈ after, p q = false) :
    lastIndex? p (before ++ o :: after) = some before.length := by
  have none_ : after.reverse.findIdx? p = none := by
    rw [List.findIdx?_eq_none_iff]
    exact fun q member => fails q (List.mem_reverse.mp member)
  simp [lastIndex?, List.findIdx?_append, none_, List.findIdx?_cons, holds]

/-- The least precedence of a run is that of its root. -/
theorem IsRoot.min?_eq {before after : List Operator} {o : Operator}
    (root : IsRoot before o after) :
    ((before ++ o :: after).map (·.precedence)).min? = some o.precedence := by
  rw [List.min?_eq_some_iff]
  refine ⟨by simp, fun n member => ?_⟩
  simp only [List.map_append, List.map_cons, List.mem_append, List.mem_cons, List.mem_map]
    at member
  rcases member with ⟨p, earlier, rfl⟩ | rfl | ⟨p, later, rfl⟩
  · exact root.least p (List.mem_append_left _ earlier)
  · exact Nat.le_refl _
  · exact root.least p (List.mem_append_right _ later)

theorem splitIndex?_of_isRoot {before after : List Operator} {o : Operator}
    (root : IsRoot before o after) :
    splitIndex? (before ++ o :: after) = some before.length := by
  simp only [splitIndex?, root.min?_eq]
  cases left : o.isLeftAssociative with
  | true =>
      have last : lastIndex? (fun p => p.precedence == o.precedence && p.isLeftAssociative)
          (before ++ o :: after) = some before.length := by
        refine lastIndex?_middle (by simp [left]) fun p member => ?_
        cases groups : p.isLeftAssociative
        · simp
        · simpa using root.lastLeft left p member groups
      rw [last]
  | false =>
      have last : lastIndex? (fun p => p.precedence == o.precedence && p.isLeftAssociative)
          (before ++ o :: after) = none := by
        refine lastIndex?_eq_none fun p member => ?_
        cases groups : p.isLeftAssociative
        · simp
        · have among : p ∈ before ++ after := by
            simp only [List.mem_append, List.mem_cons] at member ⊢
            rcases member with earlier | rfl | later
            · exact .inl earlier
            · exact absurd groups (by simp [left])
            · exact .inr later
          simpa using root.noLeft left p among groups
      have first : before.findIdx? (·.precedence == o.precedence) = none := by
        rw [List.findIdx?_eq_none_iff]
        intro p member
        simpa using root.firstRight left p member
      rw [last]
      simp [List.findIdx?_append, first, List.findIdx?_cons]

/-- A run is split at its root. -/
theorem tree_join {left right : Run} {o : Operator}
    (root : IsRoot left.operators o right.operators) :
    (left.join o right).tree = .apply o left.tree right.tree := by
  rw [tree]
  have split : splitIndex? (left.join o right).operators = some left.rest.length := by
    rw [operators_join, splitIndex?_of_isRoot root, operators, List.length_map]
  have found : (left.join o right).rest[left.rest.length]? = some (o, right.first) := by
    simp [join]
  simp only [split]
  split
  · simp_all
  · rename_i p next found'
    rw [found] at found'
    cases found'
    simp [join]

/-! ## Yielding -/

open Conversion (yieldsTo)

theorem yieldsTo_iff {o p : Operator} :
    yieldsTo o p = true ↔ o.precedence ≤ p.precedence ∧
      (o.isLeftAssociative = false → p.precedence ≠ o.precedence) := by
  unfold yieldsTo
  cases left : o.isLeftAssociative with
  | true => simp
  | false =>
      simp only [Bool.false_eq_true, if_false, decide_eq_true_eq, true_implies]
      omega

theorem not_yieldsTo_iff {o p : Operator} :
    yieldsTo p o = false ↔ o.precedence ≤ p.precedence ∧
      (p.isLeftAssociative = true → p.precedence ≠ o.precedence) := by
  unfold yieldsTo
  cases left : p.isLeftAssociative with
  | true =>
      simp only [if_true, decide_eq_false_iff_not, true_implies]
      omega
  | false => simp

theorem yieldsTo_trans {o p q : Operator} (first : yieldsTo o p = true)
    (second : yieldsTo p q = true) : yieldsTo o q = true := by
  obtain ⟨le, strict⟩ := yieldsTo_iff.mp first
  obtain ⟨le', -⟩ := yieldsTo_iff.mp second
  refine yieldsTo_iff.mpr ⟨Nat.le_trans le le', fun right => ?_⟩
  have differs := strict right
  omega

theorem not_yieldsTo_trans {o p q : Operator} (first : yieldsTo o p = false)
    (second : yieldsTo p q = false) : yieldsTo o q = false := by
  obtain ⟨le, strict⟩ := not_yieldsTo_iff.mp first
  obtain ⟨le', -⟩ := not_yieldsTo_iff.mp second
  refine not_yieldsTo_iff.mpr ⟨Nat.le_trans le' le, fun left => ?_⟩
  have differs := strict left
  omega

/-- The root yields to every operator before it, and none after it yields to
the root. -/
theorem isRoot_iff {before after : List Operator} {o : Operator} :
    IsRoot before o after ↔
      (∀ p ∈ before, yieldsTo o p = true) ∧ ∀ p ∈ after, yieldsTo p o = false := by
  constructor
  · intro root
    refine ⟨fun p member => ?_, fun p member => ?_⟩
    · exact yieldsTo_iff.mpr ⟨root.least p (List.mem_append_left _ member),
        fun right => root.firstRight right p member⟩
    · refine not_yieldsTo_iff.mpr ⟨root.least p (List.mem_append_right _ member), fun groups => ?_⟩
      cases left : o.isLeftAssociative with
      | true => exact root.lastLeft left p member groups
      | false => exact root.noLeft left p (List.mem_append_right _ member) groups
  · rintro ⟨earlier, later⟩
    have below := fun p member => yieldsTo_iff.mp (earlier p member)
    have above := fun p member => not_yieldsTo_iff.mp (later p member)
    refine ⟨fun p member => ?_, fun _ p member => (above p member).2, fun right p member => ?_,
      fun right p member => (below p member).2 right⟩
    · rcases List.mem_append.mp member with before_ | after_
      · exact (below p before_).1
      · exact (above p after_).1
    · rcases List.mem_append.mp member with before_ | after_
      · exact fun _ => (below p before_).2 right
      · exact (above p after_).2

/-- Some operator is the one to split at. -/
theorem exists_isRoot {ops : List Operator} (some_ : ops ≠ []) :
    ∃ before o after, ops = before ++ o :: after ∧ IsRoot before o after := by
  induction ops using List.reverseRecOn with
  | nil => exact absurd rfl some_
  | append_singleton ops p ih =>
      rcases List.eq_nil_or_concat ops with rfl | ⟨_, _, nonempty⟩
      · exact ⟨[], p, [], rfl, isRoot_iff.mpr ⟨by simp, by simp⟩⟩
      obtain ⟨before, o, after, rfl, root⟩ := ih (by simp [nonempty])
      obtain ⟨earlier, later⟩ := isRoot_iff.mp root
      cases yields : yieldsTo p o with
      | false =>
          refine ⟨before, o, after ++ [p], by simp, isRoot_iff.mpr ⟨earlier, fun q member => ?_⟩⟩
          rcases List.mem_append.mp member with inside | last
          · exact later q inside
          · obtain rfl := List.mem_singleton.mp last
            exact yields
      | true =>
          refine ⟨before ++ o :: after, p, [], rfl, isRoot_iff.mpr ⟨fun q member => ?_, by simp⟩⟩
          rcases List.mem_append.mp member with before_ | atOrAfter
          · exact yieldsTo_trans yields (earlier q before_)
          · rcases List.mem_cons.mp atOrAfter with rfl | after_
            · exact yields
            · cases stays : yieldsTo p q with
              | true => rfl
              | false =>
                  have staysBelow := not_yieldsTo_trans stays (later q after_)
                  rw [yields] at staysBelow
                  cases staysBelow

/-- The tree of a run with operators applies the one to split at to the trees of
what stands before and after it. -/
theorem exists_split {run : Run} (some_ : run.rest ≠ []) :
    ∃ (left : Run) (o : Operator) (right : Run), run = left.join o right ∧
      IsRoot left.operators o right.operators ∧ run.tree = .apply o left.tree right.tree := by
  have nonempty : run.operators ≠ [] := by simpa [operators] using some_
  obtain ⟨before, o, after, split, root⟩ := exists_isRoot nonempty
  obtain ⟨lefts, tail, whole, rfl, tailOps⟩ := List.map_eq_append_iff.mp split
  obtain ⟨⟨o, next⟩, rights, rfl, rfl, rfl⟩ := List.map_eq_cons_iff.mp tailOps
  obtain ⟨first, rest⟩ := run
  obtain rfl : rest = lefts ++ (o, next) :: rights := whole
  exact ⟨⟨first, lefts⟩, o, ⟨next, rights⟩, rfl, root,
    @tree_join ⟨first, lefts⟩ ⟨next, rights⟩ o root⟩

/-! ## Reading a run from left to right -/

/-- Let an operator take over the pending ones it yields to, newest first; each
of them is applied to its left operand and to the tree found so far. -/
def reduce (o : Operator) : List (Operator × Tree) → Tree → List (Operator × Tree) × Tree
  | [], current => ([], current)
  | (p, left) :: pending, current =>
      if yieldsTo o p then reduce o pending (.apply p left current)
      else ((p, left) :: pending, current)

/-- Apply all pending operators, newest first. -/
def collapse : List (Operator × Tree) → Tree → Tree
  | [], current => current
  | (p, left) :: pending, current => collapse pending (.apply p left current)

/-- Read operators and operands from left to right, where some operators with
their left operands are pending, and the last operand read is `current`. -/
def reading (pending : List (Operator × Tree)) (current : Tree) :
    List (Operator × Tree) → Tree
  | [] => collapse pending current
  | (o, next) :: rest =>
      let reduced := reduce o pending current
      reading ((o, reduced.2) :: reduced.1) next rest

/-- The run `whole` ends in the run `top`, and every pending operator is the root
of what stands to its right and of the part to its left that it took over. -/
inductive Spine : List (Operator × Tree) → Run → Run → Prop where
  | nil (run : Run) : Spine [] run run
  | cons {pending : List (Operator × Tree)} {left right whole : Run} {o : Operator} :
    IsRoot left.operators o right.operators → Spine pending (left.join o right) whole →
    Spine ((o, left.tree) :: pending) right whole

/-- An operator that yields to none of the pending ones prolongs the last run. -/
theorem Spine.snoc {pending : List (Operator × Tree)} {top whole : Run}
    (spine : Spine pending top whole) {o : Operator} (next : Tree)
    (stays : ∀ p ∈ pending, yieldsTo o p.1 = false) :
    Spine pending (top.join o (single next)) (whole.join o (single next)) := by
  induction spine with
  | nil run => exact .nil _
  | cons root spine ih =>
      obtain ⟨earlier, later⟩ := isRoot_iff.mp root
      refine .cons (isRoot_iff.mpr ⟨earlier, fun p member => ?_⟩) ?_
      · simp only [operators_join, operators_single, List.mem_append, List.mem_cons,
          List.not_mem_nil, or_false] at member
        rcases member with inside | rfl
        · exact later p inside
        · exact stays _ (List.mem_cons_self ..)
      · rw [← join_assoc]
        exact ih fun p member => stays p (List.mem_cons_of_mem _ member)

/-- If an operator does not yield to the newest pending one, it yields to none. -/
theorem Spine.stays {pending : List (Operator × Tree)} {top whole : Run} {o p : Operator}
    {left : Tree} (spine : Spine ((p, left) :: pending) top whole)
    (stays : yieldsTo o p = false) : ∀ q ∈ pending, yieldsTo o q.1 = false := by
  induction pending generalizing p left top with
  | nil => simp
  | cons q pending ih =>
      cases spine with
      | cons _ spine =>
          cases spine with
          | cons root spine =>
              have below := (isRoot_iff.mp root).2 p (by simp)
              have staysBelow := not_yieldsTo_trans stays below
              intro r member
              rcases List.mem_cons.mp member with rfl | deeper
              · exact staysBelow
              · exact ih (.cons root spine) staysBelow r deeper

/-- What an operator takes over is a run to whose operators it yields. -/
theorem Spine.reduce {pending : List (Operator × Tree)} {top whole : Run}
    (spine : Spine pending top whole) {o : Operator}
    (yields : ∀ p ∈ top.operators, yieldsTo o p = true) :
    ∃ taken : Run, (Run.reduce o pending top.tree).2 = taken.tree ∧
      Spine (Run.reduce o pending top.tree).1 taken whole ∧
      (∀ p ∈ taken.operators, yieldsTo o p = true) ∧
      ∀ p ∈ (Run.reduce o pending top.tree).1, yieldsTo o p.1 = false := by
  induction spine with
  | nil run => exact ⟨run, rfl, .nil run, yields, by simp [Run.reduce]⟩
  | @cons pending left right whole p root spine ih =>
      simp only [Run.reduce]
      split
      · rename_i goes
        rw [← tree_join root]
        refine ih fun q member => ?_
        simp only [operators_join, List.mem_append, List.mem_cons] at member
        rcases member with inLeft | rfl | inRight
        · exact yieldsTo_trans goes ((isRoot_iff.mp root).1 q inLeft)
        · exact goes
        · exact yields q inRight
      · rename_i stays
        have stays : yieldsTo o p = false := by simpa using stays
        have whole_ : Spine ((p, left.tree) :: pending) right whole := .cons root spine
        refine ⟨right, rfl, whole_, yields, fun q member => ?_⟩
        rcases List.mem_cons.mp member with rfl | deeper
        · exact stays
        · exact whole_.stays stays q deeper

theorem Spine.collapse {pending : List (Operator × Tree)} {top whole : Run}
    (spine : Spine pending top whole) : Run.collapse pending top.tree = whole.tree := by
  induction spine with
  | nil run => rfl
  | cons root spine ih => rw [Run.collapse, ← tree_join root, ih]

theorem Spine.reading {pending : List (Operator × Tree)} {current : Tree} {whole : Run}
    (spine : Spine pending (single current) whole) (rest : List (Operator × Tree)) :
    Run.reading pending current rest = tree ⟨whole.first, whole.rest ++ rest⟩ := by
  induction rest generalizing pending current whole with
  | nil => simpa [Run.reading] using spine.collapse
  | cons next rest ih =>
      obtain ⟨o, next⟩ := next
      obtain ⟨taken, treeEq, spine', yields, stays⟩ :=
        spine.reduce (o := o) (by simp)
      rw [tree_single] at treeEq spine' stays
      have root : IsRoot taken.operators o (single next).operators :=
        isRoot_iff.mpr ⟨yields, by simp⟩
      have grown := Spine.cons root (spine'.snoc next stays)
      simp only [Run.reading, treeEq]
      rw [ih grown]
      simp [join, single]

/-- Reading a run from left to right gives its tree. -/
theorem reading_eq_tree (run : Run) : reading [] run.first run.rest = run.tree := by
  simpa [single] using (Spine.nil (single run.first)).reading run.rest

end Run

end Formula
