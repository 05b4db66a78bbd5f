/-
# Formula.Proofs.Declarations — what declares variables

A text declares the names between its commas, once its white space is gone and with one
empty name at its end left out (`Lists`). Splitting the text finds exactly these
(`toNames_text_eq_iff`): the pieces are the only ones without a comma that make up the text
again.

Names fail for the first one that is not a name, and only if there is none for the first
one that repeats an earlier one (`Misnamed`). Since the names are looked at before
anything else, that is then the fault of every source (`declarations_validated`).
-/
import Formula.Proofs.Compiling
import Formula.Proofs.Lexer.Scope
import Formula.Proofs.Lexer.Symbols

namespace Formula

set_option autoImplicit false

/-! ## Lists of names -/

namespace Declaration

/-- Names with a comma between any two neighbours. -/
def joined (names : List String) : List Char := [','].intercalate (names.map String.toList)

/-- A text lists some names: it is empty and there are none, or it has them with commas
between them, perhaps with one more comma at the end. A last name that is empty shows only
by that comma. -/
inductive Lists : List Char → List String → Prop where
  | nothing : Lists [] []
  | names {names : List String} : names ≠ [] → names.getLast? ≠ some "" →
    Lists (joined names) names
  | trailing {names : List String} : names ≠ [] → Lists (joined names ++ [',']) names

theorem pieces_eq_splitOn (cs : List Char) : pieces cs = cs.splitOn ',' := by
  rw [List.splitOn_eq_splitOnP]
  induction cs with
  | nil => rfl
  | cons c cs ih =>
      rw [pieces, List.splitOnP_cons_eq_if_modifyHead, ih]
      by_cases comma : c = ','
      · simp [comma]
      · obtain ⟨piece, rest, split⟩ :=
          List.exists_cons_of_ne_nil (List.splitOnP_ne_nil (· == ',') cs)
        simp [comma, split]

/-- No piece has a comma in it. -/
theorem not_mem_of_mem_pieces {cs piece : List Char} (member : piece ∈ pieces cs) :
    ',' ∉ piece := by
  induction cs generalizing piece with
  | nil =>
      obtain rfl := List.mem_singleton.mp member
      exact List.not_mem_nil
  | cons c cs ih =>
      rw [pieces] at member
      split at member
      · rcases List.mem_cons.mp member with rfl | later
        · exact List.not_mem_nil
        · exact ih later
      · rename_i other
        split at member
        · obtain rfl := List.mem_singleton.mp member
          simpa using Ne.symm other
        · rename_i first rest split
          rcases List.mem_cons.mp member with rfl | later
          · have inFirst : ',' ∉ first := ih (split ▸ List.mem_cons_self ..)
            simpa using ⟨Ne.symm other, inFirst⟩
          · exact ih (split ▸ List.mem_cons_of_mem _ later)

/-- The pieces are the only texts without a comma that make up the whole with commas
between them. -/
theorem pieces_eq_iff {cs : List Char} {ps : List (List Char)} :
    pieces cs = ps ↔ ps ≠ [] ∧ (∀ piece ∈ ps, ',' ∉ piece) ∧ [','].intercalate ps = cs := by
  constructor
  · rintro rfl
    refine ⟨?_, fun _ => not_mem_of_mem_pieces, ?_⟩
    · rw [pieces_eq_splitOn]
      exact List.splitOn_ne_nil ',' cs
    · rw [pieces_eq_splitOn, List.intercalate_splitOn]
  · rintro ⟨some_, commaless, rfl⟩
    rw [pieces_eq_splitOn, List.splitOn_intercalate ',' commaless some_]

/-- An empty piece at the end is one more comma. -/
theorem intercalate_concat_nil {ps : List (List Char)} (some_ : ps ≠ []) :
    [','].intercalate (ps ++ [[]]) = [','].intercalate ps ++ [','] := by
  induction ps with
  | nil => exact absurd rfl some_
  | cons first rest ih =>
      cases rest with
      | nil => simp [List.intercalate]
      | cons second rest =>
          have later := ih (List.cons_ne_nil second rest)
          simp only [List.cons_append, List.intercalate_cons_cons, List.append_assoc] at later ⊢
          rw [later]

theorem dropEmptyLast_concat_nil (ps : List (List Char)) : dropEmptyLast (ps ++ [[]]) = ps := by
  simp [dropEmptyLast]

theorem mem_of_mem_dropEmptyLast {ps : List (List Char)} {piece : List Char}
    (member : piece ∈ dropEmptyLast ps) : piece ∈ ps := by
  rw [dropEmptyLast] at member
  split at member
  · exact List.dropLast_subset ps member
  · exact member

/-- The names of a text are the ones that it lists, of which none has a comma in it. -/
theorem toNames_text_eq_iff {source : String} {names : List String} :
    (Declaration.text source).toNames = names ↔
      Lists (source.toList.filter fun c => !Text.isBlank c) names ∧
        ∀ name ∈ names, ',' ∉ name.toList := by
  rw [toNames]
  generalize source.toList.filter (fun c => !Text.isBlank c) = cs
  constructor
  · rintro rfl
    obtain ⟨some_, commaless, whole⟩ := pieces_eq_iff.mp (Eq.refl (pieces cs))
    generalize pieces cs = ps at some_ commaless whole
    have strings : ∀ qs : List (List Char),
        joined (qs.map String.ofList) = [','].intercalate qs := by simp [joined]
    refine ⟨?_, ?_⟩
    · by_cases last : ps.getLast? = some []
      · obtain ⟨front, rfl⟩ := List.getLast?_eq_some_iff.mp last
        rw [dropEmptyLast_concat_nil]
        by_cases nothing : front = []
        · subst nothing whole
          exact .nothing
        · rw [intercalate_concat_nil nothing] at whole
          rw [← whole, ← strings]
          exact .trailing (by simpa using nothing)
      · rw [dropEmptyLast, if_neg last, ← whole, ← strings]
        refine .names (by simpa using some_) fun empty => last ?_
        rw [List.getLast?_map, Option.map_eq_some_iff] at empty
        obtain ⟨piece, isLast, same⟩ := empty
        rw [isLast, ← String.toList_ofList (l := piece), same]
        rfl
    · intro name member
      obtain ⟨piece, kept, rfl⟩ := List.mem_map.mp member
      rw [String.toList_ofList]
      exact commaless piece (mem_of_mem_dropEmptyLast kept)
  · rintro ⟨lists, commaless⟩
    have commaless' : ∀ piece ∈ names.map String.toList, ',' ∉ piece := by simpa using commaless
    cases lists with
    | nothing => rfl
    | names some_ last =>
        have split : pieces (joined names) = names.map String.toList :=
          pieces_eq_iff.mpr ⟨by simpa using some_, commaless', rfl⟩
        have open_ : (names.map String.toList).getLast? ≠ some [] := by
          simpa [List.getLast?_map] using last
        rw [split, dropEmptyLast, if_neg open_]
        simp
    | trailing some_ =>
        have split : pieces (joined names ++ [',']) = names.map String.toList ++ [[]] := by
          refine pieces_eq_iff.mpr ⟨by simp, ?_, intercalate_concat_nil (by simpa using some_)⟩
          rw [List.forall_mem_append]
          exact ⟨commaless', by simp⟩
        rw [split, dropEmptyLast_concat_nil]
        simp

end Declaration

/-! ## Names that cannot stand together -/

namespace Variables

/-- What is wrong with some names: the first one that is not a name, and only if there is
none the first one that an earlier one equals. -/
inductive Misnamed (names : List String) : Fault → Prop where
  | badName {before after : List String} {name : String} : names = before ++ name :: after →
    (∀ earlier ∈ before, isName earlier = true) → isName name = false →
    Misnamed names (.badName name)
  | duplicateName {before after : List String} {name : String} :
    (∀ other ∈ names, isName other = true) → names = before ++ name :: after →
    before.Nodup → name ∈ before → Misnamed names (.duplicateName name)

/-- The first repeated name stands after names that are new and all different. -/
theorem firstRepeated?_eq_some_iff {seen names : List String} {name : String} :
    firstRepeated? seen names = some name ↔ ∃ before after, names = before ++ name :: after ∧
      before.Nodup ∧ (∀ earlier ∈ before, earlier ∉ seen) ∧ (name ∈ before ∨ name ∈ seen) := by
  induction names generalizing seen with
  | nil => simp [firstRepeated?]
  | cons first rest ih =>
      rw [firstRepeated?]
      split
      · rename_i again
        constructor
        · rintro ⟨⟩
          exact ⟨[], rest, rfl, .nil, by simp, .inr again⟩
        · rintro ⟨before, after, whole, -, unseen, -⟩
          cases before with
          | nil =>
              cases whole
              rfl
          | cons head before =>
              cases whole
              exact absurd again (unseen first (List.mem_cons_self ..))
      · rename_i new
        rw [ih]
        constructor
        · rintro ⟨before, after, rfl, distinct, unseen, repeated⟩
          refine ⟨first :: before, after, rfl, ?_, ?_, ?_⟩
          · refine List.nodup_cons.mpr ⟨fun again => ?_, distinct⟩
            exact unseen first again (List.mem_cons_self ..)
          · refine List.forall_mem_cons.mpr ⟨new, fun earlier member inside => ?_⟩
            exact unseen earlier member (List.mem_cons_of_mem _ inside)
          · rcases repeated with here | seenBefore
            · exact .inl (List.mem_cons_of_mem _ here)
            · rcases List.mem_cons.mp seenBefore with rfl | inside
              · exact .inl (List.mem_cons_self ..)
              · exact .inr inside
        · rintro ⟨before, after, whole, distinct, unseen, repeated⟩
          cases before with
          | nil =>
              cases whole
              rcases repeated with none_ | inside
              · cases none_
              · exact absurd inside new
          | cons head before =>
              cases whole
              obtain ⟨once, distinct⟩ := List.nodup_cons.mp distinct
              refine ⟨before, after, rfl, distinct, fun earlier member inside => ?_, ?_⟩
              · rcases List.mem_cons.mp inside with rfl | early
                · exact once member
                · exact unseen earlier (List.mem_cons_of_mem _ member) early
              · rcases repeated with here | inside
                · rcases List.mem_cons.mp here with rfl | later
                  · exact .inr (List.mem_cons_self ..)
                  · exact .inl later
                · exact .inr (List.mem_cons_of_mem _ inside)

/-- Names fail for what is wrong with them. -/
theorem validate_eq_error_iff {names : List String} {fault : Fault} :
    validate names = .error fault ↔ Misnamed names fault := by
  constructor
  · intro failed
    unfold validate at failed
    split at failed
    · rename_i name found
      cases failed
      obtain ⟨bad, before, after, whole, good⟩ := List.find?_eq_some_iff_append.mp found
      exact .badName whole (by simpa using good) (by simpa using bad)
    · rename_i good
      split at failed
      · rename_i name repeated
        cases failed
        obtain ⟨before, after, whole, distinct, -, again⟩ :=
          firstRepeated?_eq_some_iff.mp repeated
        exact .duplicateName (by simpa using good) whole distinct (by simpa using again)
      · cases failed
  · intro misnamed
    cases misnamed with
    | @badName before after name whole good bad =>
        have found : names.find? (fun name => !isName name) = some name :=
          List.find?_eq_some_iff_append.mpr ⟨by simp [bad], before, after, whole, by simpa using good⟩
        rw [validate, found]
    | @duplicateName before after name good whole distinct again =>
        have valid : names.find? (fun name => !isName name) = none := by simpa using good
        have repeated : firstRepeated? [] names = some name :=
          firstRepeated?_eq_some_iff.mpr ⟨before, after, whole, distinct, by simp, .inl again⟩
        rw [validate, valid]
        simp only [repeated]

end Variables

/-! ## The variables of a formula -/

/-- No name has a comma in it. -/
theorem not_mem_of_isName {name : String} (valid : isName name = true) : ',' ∉ name.toList := by
  intro comma
  have letter := (isName_iff.mp valid).2 ',' comma
  exact absurd letter (by decide)

open Declaration Variables in
/-- What declares variables. A text does if, without its white space, it lists names made of
letters that are all different, and these are the variables, in this order; the names that
any text lists are known. Names of whatever form that cannot stand together are refused,
for the first one that is not a name if there is one, else for the first one that repeats
another; and they are refused before the source is looked at. -/
theorem declarations_validated :
    (∀ (text : String) (names : List String),
      validate (Declaration.text text).toNames = .ok names ↔
        Lists (text.toList.filter fun c => !Text.isBlank c) names ∧
          (∀ name ∈ names, isName name = true) ∧ names.Nodup) ∧
    (∀ (text : String) (names : List String), (Declaration.text text).toNames = names ↔
      Lists (text.toList.filter fun c => !Text.isBlank c) names ∧
        ∀ name ∈ names, ',' ∉ name.toList) ∧
    ∀ declaration : Declaration,
      (∀ names, validate declaration.toNames = .ok names → names = declaration.toNames ∧
        ∀ (registry : Registry) (index : Nat) (within : index < names.length),
          Lexer.resolve? ⟨names, registry⟩ names[index] = some (.slot index)) ∧
      (∀ fault, validate declaration.toNames = .error fault ↔
        Misnamed declaration.toNames fault) ∧
      ∀ fault, Misnamed declaration.toNames fault → ∀ (source : String) (registry : Registry),
        Compiled.compile source declaration registry = .error fault := by
  refine ⟨fun text names => ?accepted, fun _ _ => toNames_text_eq_iff, fun declaration =>
    ⟨fun names validated => ?slots, fun _ => validate_eq_error_iff, fun fault misnamed source
      registry => ?first⟩⟩
  case accepted =>
    rw [validate_eq_ok_iff]
    constructor
    · rintro ⟨rfl, valid, distinct⟩
      exact ⟨(toNames_text_eq_iff.mp rfl).1, valid, distinct⟩
    · rintro ⟨lists, valid, distinct⟩
      have listed : (Declaration.text text).toNames = names :=
        toNames_text_eq_iff.mpr ⟨lists, fun name member => not_mem_of_isName (valid name member)⟩
      exact ⟨listed.symm, listed ▸ valid, listed ▸ distinct⟩
  case slots =>
    obtain ⟨rfl, -, distinct⟩ := validate_eq_ok validated
    refine ⟨rfl, fun registry index within => ?_⟩
    let scope : Scope := ⟨declaration.toNames, registry⟩
    have found : Lexer.resolve? scope scope.names[index] = some (.slot index) :=
      Lexer.resolve?_slot distinct within
    exact found
  case first => exact Compiled.compile_of_invalid (validate_eq_error_iff.mpr misnamed) source

open Declaration Variables in
/-- White space stands within a name and a comma at the end; a repeated name is passed over
for a later one that is no name, and both are found before an empty source is. Two commas at
the end are one too many. -/
theorem declarations_validated_texts :
    validate (Declaration.text " al pha , b,").toNames = .ok ["alpha", "b"] ∧
      (Declaration.text "x,,").toNames = ["x", ""] ∧
      validate (Declaration.text "x,,").toNames = .error (.badName "") ∧
      Compiled.compile "" (.text "a,a,1") .standard = .error (.badName "1") ∧
      Compiled.compile "" (.names ["a", "b", "a", "b"]) .standard =
        .error (.duplicateName "a") := by
  obtain ⟨accepted, listed, refused⟩ := declarations_validated
  have spaced : (" al pha , b,".toList.filter fun c => !Text.isBlank c) =
      joined ["alpha", "b"] ++ [','] := by decide +kernel
  have doubled : ("x,,".toList.filter fun c => !Text.isBlank c) = joined ["x", ""] ++ [','] := by
    decide +kernel
  have numbered : ("a,a,1".toList.filter fun c => !Text.isBlank c) = joined ["a", "a", "1"] := by
    decide +kernel
  have items : (Declaration.text "x,,").toNames = ["x", ""] :=
    (listed _ _).mpr ⟨doubled ▸ .trailing (by decide), by decide +kernel⟩
  have digit : (Declaration.text "a,a,1").toNames = ["a", "a", "1"] :=
    (listed _ _).mpr ⟨numbered ▸ .names (by decide) (by decide), by decide +kernel⟩
  have noName : ["x", ""] = ["x"] ++ "" :: [] := rfl
  have noLetters : ["a", "a", "1"] = ["a", "a"] ++ "1" :: [] := rfl
  have again : ["a", "b", "a", "b"] = ["a", "b"] ++ "a" :: ["b"] := rfl
  refine ⟨(accepted _ _).mpr ⟨spaced ▸ .trailing (by decide), by decide +kernel, by decide⟩, items,
    ((refused _).2.1 _).mpr ?_, (refused _).2.2 _ ?_ "" .standard, (refused _).2.2 _ ?_ "" .standard⟩
  · rw [items]
    exact .badName noName (by decide +kernel) (by decide +kernel)
  · rw [digit]
    exact .badName noLetters (by decide +kernel) (by decide +kernel)
  · exact .duplicateName (by decide +kernel) again (by decide) (by decide)

end Formula
