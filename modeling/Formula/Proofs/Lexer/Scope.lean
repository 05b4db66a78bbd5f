/-
# Formula.Proofs.Lexer.Scope — the slots that tokens refer to

A variable token carries the place of its name among the declared names
(`resolve?_slot`), so it is below their number (`slots_tokenize`).
-/
import Formula.Lexer
import Mathlib.Data.List.Nodup

namespace Formula

set_option autoImplicit false

namespace Lexer

/-- All slots that tokens refer to are below a number. -/
def SlotsBelow (count : Nat) (tokens : List Token) : Prop :=
  ∀ t ∈ tokens, ∀ index, t.meaning = .slot index → index < count

theorem SlotsBelow.append {count : Nat} {ts us : List Token} (first : SlotsBelow count ts)
    (later : SlotsBelow count us) : SlotsBelow count (ts ++ us) := by
  intro t member
  rcases List.mem_append.mp member with inFirst | inLater
  · exact first t inFirst
  · exact later t inLater

theorem resolve?_below {scope : Scope} {name : String} {index : Nat}
    (resolved : resolve? scope name = some (.slot index)) : index < scope.names.length := by
  unfold resolve? at resolved
  split at resolved
  · rename_i found
    cases resolved
    exact (List.findIdx?_eq_some_iff_findIdx_eq.mp found).1
  · split at resolved
    · cases resolved
    · cases constant : scope.registry.constant? name <;> simp [constant] at resolved

/-- The name of a variable means its slot. -/
theorem resolve?_slot {scope : Scope} (distinct : scope.names.Nodup) {index : Nat}
    (within : index < scope.names.length) :
    resolve? scope scope.names[index] = some (.slot index) := by
  have found : scope.names.findIdx? (· == scope.names[index]) = some index := by
    rw [List.findIdx?_eq_some_iff_getElem]
    refine ⟨within, beq_self_eq_true _, fun earlier before same => ?_⟩
    have equal := (List.Nodup.getElem_inj_iff distinct).mp (beq_iff_eq.mp same)
    omega
  simp only [resolve?, found]

theorem mark?_ne_slot {scope : Scope} {symbol : List Char} (index : Nat) :
    mark? scope symbol ≠ some (.slot index) := by
  unfold mark?
  split
  · simp
  · simp
  · simp
  · cases scope.registry.operator? (String.ofList _) <;> simp

theorem whole_below {count start : Nat} {text : List Char} {meaning? : Option Meaning}
    {tokens : List Token} (read : whole text start meaning? = .ok tokens)
    (below : ∀ index, meaning? = some (.slot index) → index < count) :
    SlotsBelow count tokens := by
  cases meaning? with
  | none => cases read
  | some meaning =>
      cases read
      intro t member index isSlot
      obtain rfl := List.mem_singleton.mp member
      exact below index (congrArg some isSlot)

theorem number_below {scope : Scope} {previous : Option Category} {text : List Char}
    {start : Nat} {tokens : List Token} (read : number scope previous text start = .ok tokens) :
    SlotsBelow scope.names.length tokens := by
  unfold number at read
  split at read
  · split at read
    · cases read
    · cases read
      intro t member index isSlot
      simp only [List.mem_cons, List.not_mem_nil, or_false] at member
      rcases member with rfl | rfl <;> cases isSlot
  · exact whole_below read fun index isSlot => by cases isSlot

theorem read_below {scope : Scope} {previous : Option Category} {hit : Hit} {start : Nat}
    {tokens : List Token} (found : read scope previous hit start = .ok tokens) :
    SlotsBelow scope.names.length tokens := by
  unfold read at found
  split at found
  · exact number_below found
  · exact whole_below found fun _ => resolve?_below
  · exact whole_below found fun index isSlot => absurd isSlot (mark?_ne_slot index)

theorem scan_below (scope : Scope) (pattern : Pattern) (cs : List Char) (offset : Nat)
    (previous : Option Category) :
    SlotsBelow scope.names.length (scan scope pattern cs offset previous).tokens := by
  fun_induction scan scope pattern cs offset previous with
  | case1 => simp [SlotsBelow]
  | case2 => simp [SlotsBelow]
  | case3 => simp [SlotsBelow]
  | case4 cs offset previous hit found skipped start tokens here later ih =>
      exact (read_below here).append ih

end Lexer

/-- The slots of a source's tokens are below the number of declared names. -/
theorem slots_tokenize {scope : Scope} {source : List Char} {tokens : List Token}
    (read : tokenize scope source = .ok tokens) :
    Lexer.SlotsBelow scope.names.length tokens := by
  unfold tokenize at read
  dsimp only at read
  split at read
  · cases read
  · cases read
    exact Lexer.scan_below _ _ _ _ _

end Formula
