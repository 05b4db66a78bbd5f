/-
# Formula.Proofs.Tree.Moments — an evaluation moment by moment

Evaluation is recursive, and says at its end how many values its buffer ever held. Here
it is taken apart: a `Moment` has the jobs that are left, the values that wait for one
of them, and the workspace, and `Moment.next?` does the first job. `Passes` is a run of
such moments, with the greatest number of values on the buffer among them.

From the job of evaluating a tree the moments lead to where the recursive evaluation
ends, and the greatest number among them is what the buffer held at first and
`Tree.stagingDepth` together, not more and not less (`passes_evaluate`). The number that
the workspace remembers is this one (`Passes.peak`). All this is in `Tree.Peaks`, which
holds of every tree that can be evaluated (`Tree.Filled.peaks`).
-/
import Formula.Proofs.Tree.Checked
import Mathlib.Data.List.Chain

namespace Formula

set_option autoImplicit false

/-- Something that is left to do in an evaluation. -/
inductive Job where
  | evaluate (t : Tree)
  /-- Apply an operator to the two newest values. -/
  | apply (o : Operator)
  /-- Put the newest value aside. -/
  | stage
  /-- Call a routine with what was put aside since the buffer had some size. -/
  | call (r : Routine) (base : Nat)

/-- The arguments of a call are evaluated and put aside one after the other. -/
def Job.arguments : List Tree → List Job
  | [] => []
  | t :: ts => .evaluate t :: .stage :: Job.arguments ts

/-- The jobs left, first one first, the values no job has used yet, newest first, and
the workspace. -/
structure Moment where
  jobs : List Job
  values : List Float
  workspace : Workspace

namespace Moment

/-- How many values are on the buffer. -/
def held (m : Moment) : Nat := m.workspace.staged.size

/-- The moment after the first job; none when nothing is left to do, and where a slot
does not exist or a call has another number of values than its routine takes. -/
def next? (slots : List Float) (m : Moment) : Option Moment :=
  match m.jobs, m.values with
  | .evaluate (.constant value) :: jobs, values => some ⟨jobs, value :: values, m.workspace⟩
  | .evaluate (.slot index) :: jobs, values =>
    (slots[index]?).map fun value => ⟨jobs, value :: values, m.workspace⟩
  | .evaluate (.apply o lhs rhs) :: jobs, values =>
    some ⟨.evaluate lhs :: .evaluate rhs :: .apply o :: jobs, values, m.workspace⟩
  | .evaluate (.call r arguments) :: jobs, values =>
    some ⟨Job.arguments arguments ++ .call r m.held :: jobs, values, m.workspace⟩
  | .apply o :: jobs, b :: a :: values =>
    some ⟨jobs, o.apply a b :: values, m.workspace.record ⟨.operator o, [a, b]⟩⟩
  | .stage :: jobs, value :: values => some ⟨jobs, values, m.workspace.stage value⟩
  | .call r base :: jobs, values =>
    let arguments := m.workspace.stagedSince base
    if arguments.length = r.arity then
      some ⟨jobs, r.apply arguments :: values,
        (m.workspace.record ⟨.routine r, arguments⟩).release base⟩
    else none
  | _, _ => none

end Moment

/-! ## Runs of moments -/

/-- The moments lead from one to another, and the greatest number of values that the
buffer holds at one of them, both ends included, is `top`. -/
inductive Passes (slots : List Float) : Moment → Moment → Nat → Prop where
  | rest (m : Moment) : Passes slots m m m.held
  | step {m n last : Moment} {top : Nat} :
    m.next? slots = some n → Passes slots n last top → Passes slots m last (max m.held top)

section Passes

variable {slots : List Float} {m n last : Moment} {top other : Nat}

theorem Passes.held_le (passes : Passes slots m last top) : m.held ≤ top := by
  cases passes with
  | rest => exact Nat.le_refl _
  | step => exact Nat.le_max_left ..

theorem Passes.trans (first : Passes slots m n top) (second : Passes slots n last other) :
    Passes slots m last (max top other) := by
  induction first with
  | rest m => rwa [Nat.max_eq_right second.held_le]
  | step next _ ih =>
      rw [Nat.max_assoc]
      exact .step next (ih second)

/-- One job by itself. -/
theorem Passes.single (next : m.next? slots = some n) :
    Passes slots m n (max m.held n.held) := .step next (.rest n)

/-- One job that leaves the buffer alone. -/
theorem Passes.level (next : m.next? slots = some n) (same : n.held = m.held) :
    Passes slots m n m.held := by
  have passes := Passes.single next
  rwa [same, Nat.max_self] at passes

/-- The moments of a run in a list. -/
theorem Passes.exists_moments (passes : Passes slots m last top) :
    ∃ moments : List Moment, moments.head? = some m ∧ moments.getLast? = some last ∧
      (moments.IsChain fun a b => a.next? slots = some b) ∧
      (∀ a ∈ moments, a.held ≤ top) ∧ ∃ a ∈ moments, a.held = top := by
  induction passes with
  | rest m => exact ⟨[m], rfl, rfl, .singleton m, by simp, by simp⟩
  | @step m n last top next _ ih =>
      obtain ⟨moments, first, final, chain, bounded, a, inside, highest⟩ := ih
      refine ⟨m :: moments, rfl, ?_, ?_, ?_, ?_⟩
      · rw [List.getLast?_cons, final]
        rfl
      · refine List.isChain_cons.mpr ⟨fun b isFirst => ?_, chain⟩
        rw [first] at isFirst
        cases isFirst
        exact next
      · intro b member
        rcases List.mem_cons.mp member with rfl | later
        · exact Nat.le_max_left ..
        · exact Nat.le_trans (bounded b later) (Nat.le_max_right ..)
      · by_cases lower : m.held ≤ top
        · exact ⟨a, List.mem_cons_of_mem _ inside, by omega⟩
        · exact ⟨m, List.mem_cons_self .., by omega⟩

/-! ## What the workspace remembers -/

/-- What a job can do to the workspace. -/
theorem workspace_next? (next : m.next? slots = some n) :
    n.workspace = m.workspace ∨ (∃ call, n.workspace = m.workspace.record call) ∨
      (∃ value, n.workspace = m.workspace.stage value) ∨
      ∃ call base, n.workspace = (m.workspace.record call).release base := by
  unfold Moment.next? at next
  split at next
  · cases next
    exact .inl rfl
  · obtain ⟨value, -, rfl⟩ := Option.map_eq_some_iff.mp next
    exact .inl rfl
  · cases next
    exact .inl rfl
  · cases next
    exact .inl rfl
  · cases next
    exact .inr (.inl ⟨_, rfl⟩)
  · cases next
    exact .inr (.inr (.inl ⟨_, rfl⟩))
  · dsimp only at next
    split at next
    · cases next
      exact .inr (.inr (.inr ⟨_, _, rfl⟩))
    · cases next
  · cases next

/-- The number that the workspace remembers grows with the buffer. -/
theorem peak_next? (next : m.next? slots = some n) (noted : m.held ≤ m.workspace.peak) :
    n.workspace.peak = max m.workspace.peak n.held := by
  unfold Moment.held at noted ⊢
  rcases workspace_next? next with same | ⟨call, same⟩ | ⟨value, same⟩ | ⟨call, base, same⟩
  · rw [same]
    omega
  · rw [same]
    show m.workspace.peak = max m.workspace.peak m.workspace.staged.size
    omega
  · rw [same, Workspace.stage, Array.size_push]
  · have cut : n.workspace.staged.size ≤ m.workspace.staged.size := by
      rw [same]
      show (m.workspace.staged.take base).size ≤ m.workspace.staged.size
      rw [Array.take_eq_extract, Array.size_extract]
      omega
    rw [show n.workspace.peak = m.workspace.peak by rw [same]; rfl]
    omega

theorem Passes.peak (passes : Passes slots m last top) (noted : m.held ≤ m.workspace.peak) :
    last.workspace.peak = max m.workspace.peak top := by
  induction passes with
  | rest m => omega
  | @step m n last top next later ih =>
      have grown := peak_next? next noted
      have within := later.held_le
      have after := ih (by omega)
      omega

end Passes

/-! ## The moments of a tree -/

namespace Tree

variable {slots : List Float}

/-- The arguments of a call wait on the buffer, each above those before it. -/
theorem passes_arguments {ts : List Tree}
    (each : ∀ t ∈ ts, ∀ (jobs : List Job) (values : List Float) (w : Workspace),
      Passes slots ⟨.evaluate t :: jobs, values, w⟩
        ⟨jobs, (t.evaluate slots w).1 :: values, (t.evaluate slots w).2⟩
        (w.staged.size + t.stagingDepth))
    (jobs : List Job) (values : List Float) (base waiting : Nat) (w : Workspace)
    (size : w.staged.size = base + waiting) :
    Passes slots ⟨Job.arguments ts ++ jobs, values, w⟩ ⟨jobs, values, stageAll slots ts w⟩
      (base + max (stagingDepthFrom waiting ts) (waiting + ts.length)) := by
  induction ts generalizing waiting w with
  | nil =>
      have none_ : base + max (stagingDepthFrom waiting []) (waiting + ([] : List Tree).length) =
          w.staged.size := by simp [stagingDepthFrom, size]
      rw [none_]
      exact .rest ⟨jobs, values, w⟩
  | cons t ts ih =>
      have first := each t (List.mem_cons_self ..) (.stage :: (Job.arguments ts ++ jobs)) values w
      generalize evaluated : t.evaluate slots w = result at first
      obtain ⟨value, after⟩ := result
      have kept : after.staged.size = base + waiting := by
        rw [← size, ← evaluate_staged slots t w, evaluated]
      have grown : (after.stage value).staged.size = base + (waiting + 1) := by
        rw [staged_stage, Array.size_push, kept, Nat.add_assoc]
      have stages : Passes slots ⟨.stage :: (Job.arguments ts ++ jobs), value :: values, after⟩
          ⟨Job.arguments ts ++ jobs, values, after.stage value⟩
          (max after.staged.size (after.stage value).staged.size) := .single rfl
      have others := ih (fun u member => each u (List.mem_cons_of_mem _ member)) (waiting + 1)
        (after.stage value) grown
      have whole := (first.trans stages).trans others
      have top : max (max (w.staged.size + t.stagingDepth)
            (max after.staged.size (after.stage value).staged.size))
          (base + max (stagingDepthFrom (waiting + 1) ts) (waiting + 1 + ts.length)) =
          base + max (stagingDepthFrom waiting (t :: ts)) (waiting + (t :: ts).length) := by
        rw [stagingDepthFrom, List.length_cons, grown, kept, size]
        omega
      rw [top] at whole
      rw [stageAll, evaluated]
      exact whole

/-- Evaluating a tree leads to its value, and the buffer holds as many values more than
before as the staging depth says: at one moment so many, and at none more. -/
theorem passes_evaluate {t : Tree} (filled : t.Filled)
    (within : ∀ i ∈ t.slots, i < slots.length) :
    ∀ (jobs : List Job) (values : List Float) (w : Workspace),
      Passes slots ⟨.evaluate t :: jobs, values, w⟩
        ⟨jobs, (t.evaluate slots w).1 :: values, (t.evaluate slots w).2⟩
        (w.staged.size + t.stagingDepth) := by
  induction filled with
  | constant value =>
      intro jobs values w
      exact .level rfl rfl
  | slot index =>
      intro jobs values w
      have inside : index < slots.length := within index (by simp [Tree.slots])
      have read : slots[index]? = some (slotValue slots index) := by
        rw [slotValue, List.getElem?_eq_getElem inside, Option.getD_some]
      have next : Moment.next? slots ⟨.evaluate (.slot index) :: jobs, values, w⟩ =
          some ⟨jobs, slotValue slots index :: values, w⟩ := by
        simp only [Moment.next?, read, Option.map_some]
      exact .level next rfl
  | @apply o lhs rhs _ _ ihl ihr =>
      intro jobs values w
      have left := ihl (fun i member => within i (List.mem_append_left _ member))
        (.evaluate rhs :: .apply o :: jobs) values w
      have right := ihr (fun i member => within i (List.mem_append_right _ member))
        (.apply o :: jobs) ((lhs.evaluate slots w).1 :: values) (lhs.evaluate slots w).2
      have applies : Passes slots
          ⟨.apply o :: jobs, (rhs.evaluate slots (lhs.evaluate slots w).2).1 ::
            (lhs.evaluate slots w).1 :: values, (rhs.evaluate slots (lhs.evaluate slots w).2).2⟩
          ⟨jobs, ((Tree.apply o lhs rhs).evaluate slots w).1 :: values,
            ((Tree.apply o lhs rhs).evaluate slots w).2⟩ _ := .single rfl
      have whole := Passes.step (m := ⟨.evaluate (.apply o lhs rhs) :: jobs, values, w⟩) rfl
        ((left.trans right).trans applies)
      simp only [Moment.held, evaluate_staged] at whole
      have top : w.staged.size + (Tree.apply o lhs rhs).stagingDepth =
          max w.staged.size (max (max (w.staged.size + lhs.stagingDepth)
            (w.staged.size + rhs.stagingDepth)) (max w.staged.size w.staged.size)) := by
        rw [stagingDepth]
        omega
      rw [top]
      exact whole
  | @call r arguments count _ ih =>
      intro jobs values w
      have staged := staged_stageAll slots arguments w
      have enough : ((stageAll slots arguments w).stagedSince w.staged.size).length =
          r.arity := by
        rw [stagedSince_of_append staged, length_denoteAll, count]
      have each := fun t inside => ih t inside fun i here =>
        within i (mem_slotsOfAll.mpr ⟨t, inside, here⟩)
      have pushes := passes_arguments each
        (.call r w.staged.size :: jobs) values w.staged.size 0 w rfl
      have next : Moment.next? slots
          ⟨.call r w.staged.size :: jobs, values, stageAll slots arguments w⟩ =
          some ⟨jobs, ((Tree.call r arguments).evaluate slots w).1 :: values,
            ((Tree.call r arguments).evaluate slots w).2⟩ := by
        simp only [Moment.next?, enough, if_true, evaluate]
      have whole := Passes.step (m := ⟨.evaluate (.call r arguments) :: jobs, values, w⟩) rfl
        (pushes.trans (.single next))
      simp only [Moment.held, evaluate_staged, staged, Array.size_append, List.size_toArray,
        length_denoteAll] at whole
      have top : w.staged.size + (Tree.call r arguments).stagingDepth =
          max w.staged.size (max (w.staged.size +
              max (stagingDepthFrom 0 arguments) (0 + arguments.length))
            (max (w.staged.size + arguments.length) w.staged.size)) := by
        rw [stagingDepth]
        omega
      rw [top]
      exact whole

/-- The evaluation of a tree, from a buffer that holds some values, goes through moments
at which the buffer holds at most some number of values, and at one of them so many.
The evaluation ends as the last moment does, and remembers the number. -/
def Peaks (slots : List Float) (t : Tree) (staged : Array Float) (top : Nat) : Prop :=
  ∃ (moments : List Moment) (value : Float) (after : Workspace),
    moments.head? = some ⟨[.evaluate t], [], .holding staged⟩ ∧
      moments.getLast? = some ⟨[], [value], after⟩ ∧
      (moments.IsChain fun m n => m.next? slots = some n) ∧
      (∀ m ∈ moments, m.held ≤ top) ∧ (∃ m ∈ moments, m.held = top) ∧
      t.evaluate? slots (.holding staged) = some (value, after) ∧
      t.evaluate slots (.holding staged) = (value, after) ∧ after.peak = top

/-- The greatest number of values that an evaluation remembers. -/
theorem Filled.peak_evaluate {t : Tree} (filled : t.Filled)
    (within : ∀ i ∈ t.slots, i < slots.length) (staged : Array Float) :
    (t.evaluate slots (.holding staged)).2.peak = staged.size + t.stagingDepth := by
  have passes := passes_evaluate filled within [] [] (.holding staged)
  have peak := passes.peak (Nat.le_refl _)
  rw [peak]
  show max staged.size (staged.size + t.stagingDepth) = staged.size + t.stagingDepth
  omega

theorem Filled.peaks {t : Tree} (filled : t.Filled) (within : ∀ i ∈ t.slots, i < slots.length)
    (staged : Array Float) : t.Peaks slots staged (staged.size + t.stagingDepth) := by
  have passes := passes_evaluate filled within [] [] (.holding staged)
  obtain ⟨moments, first, last, chain, bounded, reached⟩ := passes.exists_moments
  exact ⟨moments, _, _, first, last, chain, bounded, reached,
    evaluate?_of_filled filled within _, rfl, filled.peak_evaluate within staged⟩

end Tree

end Formula
