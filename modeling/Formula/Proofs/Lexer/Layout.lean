/-
# Formula.Proofs.Lexer.Layout — where tokens stand in their source

The tokens of a source stand in it one after the other, each over a piece of
text of its own, with nothing but white space before each of them (`Laid`,
`laid_lex`). So their spans are in order and do not meet (`Laid.pairwise`), no
two are the same (`Laid.sole`), and each cuts a piece out of the source
(`Laid.cuts`), which means that it starts and stops between characters.

The fault that ends the tokens of a source is also about a piece of the text,
and it says which (`about_of_lex`).
-/
import Formula.Lexer
import Formula.Proofs.Lexer.Reading

namespace Formula

set_option autoImplicit false

open Text (byteLength)

/-- The span cuts a piece out of a source. -/
def Span.Cuts (span : Span) (source piece : List Char) : Prop :=
  ∃ before after : List Char, before ++ piece ++ after = source ∧
    span = ⟨byteLength before, byteLength before + byteLength piece⟩

theorem Span.Cuts.slice {span : Span} {source piece : List Char} (cuts : span.Cuts source piece) :
    Text.slice source span = piece := by
  obtain ⟨before, after, rfl, rfl⟩ := cuts
  exact Text.slice_middle before piece after

/-- A piece of a later part of a source is one of the source. -/
theorem Span.Cuts.prepend {span : Span} {before cs piece : List Char}
    (inside : ∃ gap after, gap ++ piece ++ after = cs ∧
      span = ⟨byteLength before + byteLength gap,
        byteLength before + byteLength gap + byteLength piece⟩) :
    span.Cuts (before ++ cs) piece := by
  obtain ⟨gap, after, rfl, rfl⟩ := inside
  exact ⟨before ++ gap, after, by simp, by rw [Text.byteLength_append]⟩

/-- From the start of one piece to the end of a later one is a piece as well. -/
theorem Span.Cuts.join {first last : Span} {source p q : List Char} (cuts : first.Cuts source p)
    (cutsLast : last.Cuts source q) (inOrder : first.start ≤ last.start) (some_ : q ≠ []) :
    ∃ piece, piece ≠ [] ∧ Span.Cuts ⟨first.start, last.stop⟩ source piece := by
  obtain ⟨before, after, whole, rfl⟩ := cuts
  obtain ⟨before', after', whole', rfl⟩ := cutsLast
  rw [List.append_assoc] at whole whole'
  have leads : before <+: source := ⟨_, whole⟩
  have leads' : before' <+: source := ⟨_, whole'⟩
  have shorter := Pattern.length_le_of_byteLength_le leads' leads inOrder
  obtain ⟨between, rfl⟩ := List.prefix_of_prefix_length_le leads leads' shorter
  refine ⟨between ++ q, by simp [some_], before, after', by simpa using whole', ?_⟩
  simp only [Text.byteLength_append, Nat.add_assoc]

theorem Text.byteLength_positive {cs : List Char} (some_ : cs ≠ []) : 0 < byteLength cs := by
  obtain ⟨c, ds, rfl⟩ := List.exists_cons_of_ne_nil some_
  have positive := Char.utf8Size_pos c
  rw [Text.byteLength_cons]
  omega

namespace Lexer

/-! ## Tokens -/

/-- Tokens stand in a text that starts at an offset, in their order, and before
each of them is only white space. -/
inductive Laid : List Char → Nat → List Token → Prop where
  | nil {cs : List Char} {offset : Nat} : Laid cs offset []
  | cons {gap piece rest : List Char} {offset : Nat} {t : Token} {ts : List Token} :
    (∀ c ∈ gap, Text.isBlank c = true) → piece ≠ [] →
    t.span = ⟨offset + byteLength gap, offset + byteLength gap + byteLength piece⟩ →
    Laid rest (offset + byteLength gap + byteLength piece) ts →
    Laid (gap ++ piece ++ rest) offset (t :: ts)

theorem signedNumber_ne_minus (cs : List Char) : signedNumber cs ≠ ['-'] := by
  unfold signedNumber
  split
  · split
    · simp
    · rename_i some_
      simpa using some_
  · rename_i other
    -- an unsigned number is empty or starts with a digit or the point
    intro minus
    have whole := unsignedNumber_append cs
    rw [minus] at whole
    exact other _ whole.symm

/-- The minus of a number is not all of it. -/
theorem digits_ne_nil {p : Pattern} {cs digits : List Char}
    (found : p.lexeme? cs = some (.number, '-' :: digits)) : digits ≠ [] := by
  rintro rfl
  unfold Pattern.lexeme? at found
  split at found
  · exact signedNumber_ne_minus cs (Prod.mk.inj (Option.some.inj found)).2
  split at found
  · cases found
  split at found
  · cases found
  · obtain ⟨c, -, same⟩ := Option.map_eq_some_iff.mp found
    cases same

section Read

variable {scope : Scope} {previous : Option Category} {gap rest : List Char} {offset : Nat}
  {later : List Token}

theorem Laid.whole {text : List Char} {meaning? : Option Meaning} {first : List Token}
    (blank : ∀ c ∈ gap, Text.isBlank c = true) (some_ : text ≠ [])
    (made : whole text (offset + byteLength gap) meaning? = .ok first)
    (laid : Laid rest (offset + byteLength gap + byteLength text) later) :
    Laid (gap ++ text ++ rest) offset (first ++ later) := by
  cases meaning? with
  | none => cases made
  | some meaning =>
      cases made
      exact .cons blank some_ rfl laid

/-- A minus and the number that it is split from stand side by side. -/
theorem Laid.split {digits : List Char} {minus value : Meaning}
    (blank : ∀ c ∈ gap, Text.isBlank c = true) (some_ : digits ≠ [])
    (laid : Laid rest (offset + byteLength gap + byteLength ('-' :: digits)) later) :
    Laid (gap ++ '-' :: digits ++ rest) offset
      (⟨minus, ⟨offset + byteLength gap, offset + byteLength gap + 1⟩⟩ ::
        ⟨value, ⟨offset + byteLength gap + 1,
          offset + byteLength gap + byteLength ('-' :: digits)⟩⟩ :: later) := by
  have bytes : byteLength ('-' :: digits) = 1 + byteLength digits := rfl
  rw [bytes, ← Nat.add_assoc] at laid ⊢
  have number : Laid ([] ++ digits ++ rest) (offset + byteLength gap + byteLength ['-'])
      (⟨value, ⟨offset + byteLength gap + 1, offset + byteLength gap + 1 + byteLength digits⟩⟩ ::
        later) :=
    .cons (by simp) some_ rfl laid
  have whole := Laid.cons (t := ⟨minus, ⟨offset + byteLength gap, offset + byteLength gap + 1⟩⟩)
    blank (List.cons_ne_nil '-' []) rfl number
  simpa using whole

/-- What the pattern finds is covered by the tokens that it is read as. -/
theorem Laid.read {hit : Hit} {first : List Token}
    (found : scope.registry.pattern.lexeme? (hit.lexeme ++ rest) = some (hit.shape, hit.lexeme))
    (blank : ∀ c ∈ gap, Text.isBlank c = true)
    (made : Lexer.read scope previous hit (offset + byteLength gap) = .ok first)
    (laid : Laid rest (offset + byteLength gap + byteLength hit.lexeme) later) :
    Laid (gap ++ hit.lexeme ++ rest) offset (first ++ later) := by
  have some_ := (Pattern.lexeme?_append found).1
  unfold Lexer.read at made
  split at made
  · rename_i shape
    unfold number at made
    split at made
    · rename_i digits minus _
      rw [shape, minus] at found
      rw [minus] at made laid ⊢
      split at made
      · cases made
      · cases made
        exact .split blank (digits_ne_nil found) laid
    · exact .whole blank some_ made laid
  · exact .whole blank some_ made laid
  · exact .whole blank some_ made laid

end Read

/-- The tokens that the lexer finds stand in the text that it reads. -/
theorem laid_scan (scope : Scope) (cs : List Char) (offset : Nat) (previous : Option Category) :
    Laid cs offset (scan scope scope.registry.pattern cs offset previous).tokens := by
  fun_induction scan scope scope.registry.pattern cs offset previous with
  | case1 => exact .nil
  | case2 => exact .nil
  | case3 => exact .nil
  | case4 cs offset previous hit found skipped start first made later ih =>
      rw [← (Pattern.search_append found).2]
      exact .read (Pattern.lexeme?_of_search found) (stray?_eq_none_iff.mp skipped) made ih

theorem laid_lex (scope : Scope) (source : List Char) : Laid source 0 (lex scope source).tokens :=
  laid_scan scope source 0 none

/-! ## Spans -/

section Spans

variable {cs : List Char} {offset : Nat} {tokens : List Token}

/-- The span of a token is not empty, and cuts a piece out of the text. -/
theorem Laid.cuts {before : List Char} (laid : Laid cs offset tokens)
    (at_ : offset = byteLength before) :
    ∀ t ∈ tokens, ∃ piece, piece ≠ [] ∧ t.span.Cuts (before ++ cs) piece := by
  induction laid generalizing before with
  | nil => simp
  | @cons gap piece rest offset t ts _ some_ span _ ih =>
      subst at_
      intro u member
      rcases List.mem_cons.mp member with rfl | later
      · exact ⟨piece, some_, .prepend ⟨gap, rest, rfl, span⟩⟩
      · have next : byteLength before + byteLength gap + byteLength piece =
            byteLength (before ++ gap ++ piece) := by
          rw [Text.byteLength_append, Text.byteLength_append]
        simpa using ih next u later

/-- No token stands before the offset, and none is empty. -/
theorem Laid.bounds (laid : Laid cs offset tokens) :
    ∀ t ∈ tokens, offset ≤ t.span.start ∧ t.span.start < t.span.stop := by
  induction laid with
  | nil => simp
  | cons _ some_ span _ ih =>
      have positive := Text.byteLength_positive some_
      intro u member
      rcases List.mem_cons.mp member with rfl | later
      · rw [span]
        dsimp only
        omega
      · obtain ⟨low, nonempty⟩ := ih u later
        omega

/-- Every token ends before the next one starts. -/
theorem Laid.pairwise (laid : Laid cs offset tokens) :
    tokens.Pairwise fun t u => t.span.stop ≤ u.span.start := by
  induction laid with
  | nil => exact .nil
  | cons _ _ span laid ih =>
      refine .cons (fun u member => ?_) ih
      rw [span]
      exact (laid.bounds u member).1

/-- A token is the only one of some tokens that has its span. -/
def Sole (tokens : List Token) (t : Token) : Prop := tokens.filter (·.span = t.span) = [t]

/-- Every token has its span to itself. -/
theorem Laid.sole (laid : Laid cs offset tokens) {t : Token} (member : t ∈ tokens) :
    Sole tokens t := by
  obtain ⟨before, after, rfl⟩ := List.append_of_mem member
  have nonempty := (laid.bounds t member).2
  obtain ⟨-, inOrder, apart⟩ := List.pairwise_append.mp laid.pairwise
  have earlier : before.filter (·.span = t.span) = [] := by
    rw [List.filter_eq_nil_iff]
    intro u there same
    have ends := apart u there t (List.mem_cons_self ..)
    rw [of_decide_eq_true same] at ends
    omega
  have later : after.filter (·.span = t.span) = [] := by
    rw [List.filter_eq_nil_iff]
    intro u there same
    have starts := List.rel_of_pairwise_cons inOrder there
    rw [of_decide_eq_true same] at starts
    omega
  simp [Sole, earlier, later]

end Spans

/-! ## Text that means nothing -/

/-- A text that is not empty and has no white space at either end. -/
structure Trimmed (cs : List Char) : Prop where
  some_ : cs ≠ []
  first : ∀ c, cs.head? = some c → Text.isBlank c = false
  last : ∀ c, cs.getLast? = some c → Text.isBlank c = false

theorem trimEnd_append (cs : List Char) :
    ∃ blanks, trimEnd cs ++ blanks = cs ∧ ∀ c ∈ blanks, Text.isBlank c = true := by
  refine ⟨(cs.reverse.takeWhile Text.isBlank).reverse, ?_, fun c member => ?_⟩
  · rw [trimEnd, ← List.reverse_append, List.takeWhile_append_dropWhile, List.reverse_reverse]
  · exact List.mem_takeWhile_imp (List.mem_reverse.mp member)

theorem isBlank_of_head?_dropWhile {cs : List Char} {c : Char}
    (isHead : (cs.dropWhile Text.isBlank).head? = some c) : Text.isBlank c = false := by
  have stops := List.head?_dropWhile_not Text.isBlank cs
  rw [isHead] at stops
  exact stops

/-- What starts with a character that is not blank is trimmed by cutting its end. -/
theorem trimmed_trimEnd {cs : List Char} (some_ : cs ≠ [])
    (first : ∀ c, cs.head? = some c → Text.isBlank c = false) : Trimmed (trimEnd cs) := by
  obtain ⟨blanks, whole, blank⟩ := trimEnd_append cs
  obtain ⟨c, ds, rfl⟩ := List.exists_cons_of_ne_nil some_
  have dark := first c rfl
  have kept : trimEnd (c :: ds) ≠ [] := by
    intro nothing
    rw [nothing, List.nil_append] at whole
    have light := blank c (whole ▸ List.mem_cons_self ..)
    rw [dark] at light
    cases light
  refine ⟨kept, fun d isHead => ?_, fun d isLast => ?_⟩
  · have same := congrArg List.head? whole
    rw [List.head?_append, isHead] at same
    exact first d same.symm
  · rw [trimEnd, List.getLast?_reverse] at isLast
    exact isBlank_of_head?_dropWhile isLast

theorem Trimmed.trimEnd_append {found blanks : List Char} (trimmed : Trimmed found)
    (blank : ∀ c ∈ blanks, Text.isBlank c = true) : trimEnd (found ++ blanks) = found := by
  have isLast := List.getLast?_eq_some_getLast trimmed.some_
  have dark := trimmed.last _ isLast
  obtain ⟨ds, split⟩ := List.getLast?_eq_some_iff.mp isLast
  generalize found.getLast trimmed.some_ = d at dark split
  subst split
  rw [trimEnd, List.reverse_append, List.dropWhile_append_of_pos (by simpa using blank)]
  simp [dark]

/-- Skipped text is at fault from its first to its last character that is not
white space, if it has any. -/
theorem stray?_eq_some_iff {skipped : List Char} {offset : Nat} {fault : Fault} :
    stray? skipped offset = some fault ↔
      ∃ gap found blanks, gap ++ (found ++ blanks) = skipped ∧
        (∀ c ∈ gap, Text.isBlank c = true) ∧ Trimmed found ∧
        (∀ c ∈ blanks, Text.isBlank c = true) ∧
        fault = undefined found (offset + byteLength gap) := by
  constructor
  · intro strays
    have whole := List.takeWhile_append_dropWhile (p := Text.isBlank) (l := skipped)
    unfold stray? at strays
    split at strays
    · cases strays
    · rename_i dark
      cases strays
      obtain ⟨blanks, split, blank⟩ := trimEnd_append (skipped.dropWhile Text.isBlank)
      refine ⟨skipped.takeWhile Text.isBlank, trimEnd (skipped.dropWhile Text.isBlank), blanks,
        by rw [split, whole], fun c => List.mem_takeWhile_imp, ?_, blank, rfl⟩
      exact trimmed_trimEnd dark fun c => isBlank_of_head?_dropWhile
  · rintro ⟨gap, found, blanks, rfl, gapBlank, trimmed, blank, rfl⟩
    obtain ⟨c, ds, same⟩ := List.exists_cons_of_ne_nil trimmed.some_
    have dark := trimmed.first c (by rw [same]; rfl)
    have dropped : (gap ++ (found ++ blanks)).dropWhile Text.isBlank = found ++ blanks := by
      rw [List.dropWhile_append_of_pos gapBlank, same, List.cons_append, List.dropWhile_cons, dark]
      rfl
    have taken : (gap ++ (found ++ blanks)).takeWhile Text.isBlank = gap := by
      rw [List.takeWhile_append_of_pos gapBlank, same, List.cons_append, List.takeWhile_cons, dark]
      simp
    have kept := trimmed.trimEnd_append blank
    rw [stray?, dropped, taken]
    rw [same] at kept ⊢
    exact congrArg (fun text => some (undefined text _)) kept

/-! ## The fault -/

/-- A fault is about a piece of a text, and gives its span. -/
def About (source : List Char) (fault : Fault) : Prop :=
  ∃ piece span, piece ≠ [] ∧ span.Cuts source piece ∧
    fault = .undefinedSymbol (some (String.ofList piece, span))

theorem about_undefined (before after : List Char) {piece : List Char} (some_ : piece ≠ []) :
    About (before ++ (piece ++ after)) (undefined piece (byteLength before)) :=
  ⟨piece, _, some_, ⟨before, after, List.append_assoc .., rfl⟩, rfl⟩

theorem about_of_whole {before rest text : List Char} {meaning? : Option Meaning} {fault : Fault}
    (some_ : text ≠ []) (failed : whole text (byteLength before) meaning? = .error fault) :
    About (before ++ (text ++ rest)) fault := by
  cases meaning? with
  | none =>
      cases failed
      exact about_undefined before rest some_
  | some meaning => cases failed

/-- What the pattern finds and the lexer cannot read is at fault, or its minus is. -/
theorem about_of_read (before rest : List Char) {scope : Scope} {previous : Option Category}
    {hit : Hit} {fault : Fault} (some_ : hit.lexeme ≠ [])
    (failed : read scope previous hit (byteLength before) = .error fault) :
    About (before ++ (hit.lexeme ++ rest)) fault := by
  unfold read at failed
  split at failed
  · unfold number at failed
    split at failed
    · rename_i digits minus _
      rw [minus]
      split at failed
      · cases failed
        exact about_undefined before (digits ++ rest) (List.cons_ne_nil '-' [])
      · cases failed
    · exact about_of_whole some_ failed
  · exact about_of_whole some_ failed
  · exact about_of_whole some_ failed

theorem about_of_stray (rest : List Char) {before skipped : List Char} {fault : Fault}
    (strays : stray? skipped (byteLength before) = some fault) :
    About (before ++ (skipped ++ rest)) fault := by
  obtain ⟨gap, found, blanks, rfl, -, trimmed, -, rfl⟩ := stray?_eq_some_iff.mp strays
  have about := about_undefined (before ++ gap) (blanks ++ rest) trimmed.some_
  simpa using about

/-- The fault that the lexer stops at is about a piece of the text that it reads. -/
theorem about_of_scan {scope : Scope} {pattern : Pattern} {cs : List Char} {offset : Nat}
    {previous : Option Category} {before : List Char} {fault : Fault}
    (at_ : offset = byteLength before)
    (failed : (scan scope pattern cs offset previous).fault = some fault) :
    About (before ++ cs) fault := by
  fun_induction scan scope pattern cs offset previous generalizing before with
  | case1 cs offset previous nothing =>
      subst at_
      have about := about_of_stray [] failed
      rwa [List.append_nil] at about
  | case2 cs offset previous hit found other strays =>
      subst at_
      cases failed
      have about := about_of_stray (hit.lexeme ++ hit.rest) strays
      rwa [← List.append_assoc hit.skipped, (Pattern.search_append found).2] at about
  | case3 cs offset previous hit found blank start other =>
      rename_i unread
      subst at_
      cases failed
      obtain ⟨some_, whole⟩ := Pattern.search_append found
      have about := about_of_read (before ++ hit.skipped) hit.rest some_
        (by rw [Text.byteLength_append]; exact unread)
      rw [← whole]
      simpa using about
  | case4 cs offset previous hit found blank start first =>
      rename_i made later ih
      subst at_
      have next : byteLength before + byteLength hit.skipped + byteLength hit.lexeme =
          byteLength (before ++ hit.skipped ++ hit.lexeme) := by
        rw [Text.byteLength_append, Text.byteLength_append]
      rw [← (Pattern.search_append found).2]
      simpa using ih next failed

theorem about_of_lex {scope : Scope} {source : List Char} {fault : Fault}
    (failed : (lex scope source).fault = some fault) : About source fault := by
  have start : 0 = byteLength [] := rfl
  exact about_of_scan start failed

end Lexer

end Formula
