/-
# Formula.Proofs.Registry.Copies — registries side by side

Registries can be copied, and a copy can be put in the place of another registry. All
of them go on from there by themselves, with definitions that are added or refused and
texts that make them keep their pattern. A `Copy` is a registry together with its own
`Story`: how it began, and what was to be defined in it since, in its originals too.

Nothing but the story matters: under every key a copy finds the last definition of the
story that is valid (`Faithful`). The pattern it keeps is that of the operators it finds,
so two registries that find the same definitions read every text alike, however they came
about (`found_by_story`). The registry of a `History` is the first of two copies, of which
the second is the one put aside (`shows_run`), so what holds of every copy holds of it
(`reached_history`).
-/
import Formula.Proofs.Registry.Ledger
import Formula.Registry.History

namespace Formula.Registry

set_option autoImplicit false

/-- How a registry came about: the one it began as, and the definitions since then,
newest first, with the refused ones. -/
structure Story where
  base : Registry
  definitions : List Definition

/-- The last definition under a key that could be added, or else the one that was there
from the beginning. -/
def Story.last? (story : Story) (key : Key) : Option Definition :=
  (story.definitions.find? fun d => d.key.valid && d.key == key).or (story.base.found? key)

/-- A registry with its own story. -/
structure Copy where
  registry : Registry
  story : Story

namespace Copy

/-- A registry at the beginning of its story. -/
def start (r : Registry) : Copy := ⟨r, r, []⟩

/-- Add a definition, if it is not refused. -/
def define (c : Copy) (d : Definition) : Copy where
  registry := (c.registry.add d).toOption.getD c.registry
  story := { c.story with definitions := d :: c.story.definitions }

/-- Read a text, after which the pattern is kept. -/
def lex (c : Copy) : Copy := { c with registry := c.registry.keepPattern }

end Copy

/-- What can be done with registries that go by their numbers. -/
inductive Deed where
  | define (number : Nat) (definition : Definition)
  | lookup (number : Nat) (key : Key)
  | lex (number : Nat) (source : String) (declaration : Declaration)
  /-- Add a copy of a registry. -/
  | copy (original : Nat)
  /-- Put a copy of a registry in the place of another one. -/
  | restore (number original : Nat)

/-- One deed. -/
def step (copies : List Copy) : Deed → List Copy
  | .define number d => copies.modify number (·.define d)
  | .lookup _ _ => copies
  | .lex number _ _ => copies.modify number Copy.lex
  | .copy original => copies ++ copies[original]?.toList
  | .restore number original =>
    match copies[original]? with
    | some c => copies.set number c
    | none => copies

/-- Deeds in order. -/
def run (copies : List Copy) (deeds : List Deed) : List Copy := deeds.foldl step copies

/-- A copy that there can be, if all registries began empty or with the standard
definitions. -/
def Reached (c : Copy) : Prop :=
  ∃ (starts : List Registry) (deeds : List Deed),
    (∀ r ∈ starts, r = empty ∨ r = standard) ∧ c ∈ run (starts.map Copy.start) deeds

/-! ## Steps -/

theorem mem_modify {α : Type} {f : α → α} {xs : List α} {index : Nat} {x : α}
    (member : x ∈ xs.modify index f) : x ∈ xs ∨ ∃ y ∈ xs, x = f y := by
  obtain ⟨place, found⟩ := List.mem_iff_getElem?.mp member
  rw [List.getElem?_modify] at found
  obtain ⟨y, here, same⟩ := Option.map_eq_some_iff.mp found
  have old := List.mem_of_getElem? here
  split at same
  · exact .inr ⟨y, old, same.symm⟩
  · exact .inl (same ▸ old)

/-- A step changes at most one of the copies, by a definition or by a text. -/
theorem mem_step {copies : List Copy} {deed : Deed} {c : Copy} (member : c ∈ step copies deed) :
    c ∈ copies ∨ ∃ b ∈ copies, (∃ d, c = b.define d) ∨ c = b.lex := by
  cases deed with
  | define number d =>
      rcases mem_modify member with old | ⟨b, old, same⟩
      · exact .inl old
      · exact .inr ⟨b, old, .inl ⟨d, same⟩⟩
  | lookup number key => exact .inl member
  | lex number source declaration =>
      rcases mem_modify member with old | ⟨b, old, same⟩
      · exact .inl old
      · exact .inr ⟨b, old, .inr same⟩
  | copy original =>
      rcases List.mem_append.mp member with old | added
      · exact .inl old
      · exact .inl (List.mem_of_getElem? (Option.mem_toList.mp added))
  | restore number original =>
      simp only [step] at member
      split at member
      · rename_i b found
        rcases List.mem_or_eq_of_mem_set member with old | rfl
        · exact .inl old
        · exact .inl (List.mem_of_getElem? found)
      · exact .inl member

/-! ## The story tells what is found -/

/-- A copy is tidy, and what it finds is what its story tells. -/
structure Faithful (c : Copy) : Prop where
  tidy : c.registry.Tidy
  tells : ∀ key, c.registry.found? key = c.story.last? key

theorem faithful_start {r : Registry} (tidy : r.Tidy) : Faithful (.start r) := ⟨tidy, fun _ => rfl⟩

section Faithful

variable {c : Copy}

/-- A definition under a key that is not valid is refused. -/
theorem define_of_invalid (c : Copy) {d : Definition} (invalid : d.key.valid = false) :
    (c.define d).registry = c.registry ∧
      ∀ key, (c.define d).story.last? key = c.story.last? key := by
  refine ⟨?_, fun key => ?_⟩
  · simp only [Copy.define, add_eq, invalid, Bool.false_eq_true, if_false]
    rfl
  · simp only [Copy.define, Story.last?, List.find?_cons, invalid, Bool.false_and]

/-- One that is not refused is the last one under its key from then on. -/
theorem define_of_valid (c : Copy) {d : Definition} (valid : d.key.valid = true) :
    (c.define d).registry = c.registry.insert d ∧
      ∀ key, (c.define d).story.last? key = if key = d.key then some d else c.story.last? key := by
  refine ⟨?_, fun key => ?_⟩
  · simp only [Copy.define, add_eq, valid, if_true]
    rfl
  · by_cases here : key = d.key
    · rw [if_pos here, here]
      simp only [Copy.define, Story.last?, List.find?_cons, valid, beq_self_eq_true, Bool.and_self]
      rfl
    · have differs : (d.key == key) = false := by simpa using Ne.symm here
      rw [if_neg here]
      simp only [Copy.define, Story.last?, List.find?_cons, differs, Bool.and_false]

theorem Faithful.define (faithful : Faithful c) (d : Definition) : Faithful (c.define d) := by
  cases valid : d.key.valid with
  | false =>
      obtain ⟨same, sameStory⟩ := define_of_invalid c valid
      refine ⟨same ▸ faithful.tidy, fun key => ?_⟩
      rw [same, sameStory]
      exact faithful.tells key
  | true =>
      obtain ⟨added, last⟩ := define_of_valid c valid
      refine ⟨added ▸ faithful.tidy.insert valid, fun key => ?_⟩
      rw [added, last, found?_insert, faithful.tells]

theorem Faithful.lex (faithful : Faithful c) : Faithful c.lex :=
  ⟨faithful.tidy.keepPattern, faithful.tells⟩

/-- Copies with the same last definition of everything find the same. -/
theorem Faithful.agrees (faithful : Faithful c) {b : Copy} (faithful' : Faithful b)
    (same : ∀ key, c.story.last? key = b.story.last? key) : Agrees c.registry b.registry := by
  have found : ∀ key, c.registry.found? key = b.registry.found? key := fun key =>
    (faithful.tells key).trans ((same key).trans (faithful'.tells key).symm)
  refine ⟨fun symbol => ?operators, fun name => ?routines, fun name => ?constants⟩
  case operators =>
    ext o
    rw [operator?_eq_some_iff, operator?_eq_some_iff, found]
  case routines =>
    ext f
    rw [routine?_eq_some_iff, routine?_eq_some_iff, found]
  case constants =>
    ext value
    rw [faithful.tidy.constant?_eq_some_iff, faithful'.tidy.constant?_eq_some_iff, found]

theorem faithful_step {copies : List Copy} (faithful : ∀ c ∈ copies, Faithful c) (deed : Deed) :
    ∀ c ∈ step copies deed, Faithful c := by
  intro c member
  rcases mem_step member with old | ⟨b, old, ⟨d, rfl⟩ | rfl⟩
  · exact faithful c old
  · exact (faithful b old).define d
  · exact (faithful b old).lex

theorem faithful_run {copies : List Copy} (faithful : ∀ c ∈ copies, Faithful c)
    (deeds : List Deed) : ∀ c ∈ run copies deeds, Faithful c := by
  induction deeds generalizing copies with
  | nil => exact faithful
  | cons deed deeds ih => exact ih (faithful_step faithful deed)

theorem Reached.faithful (reached : Reached c) : Faithful c := by
  obtain ⟨starts, deeds, fresh, member⟩ := reached
  refine faithful_run (fun b start => ?_) deeds c member
  obtain ⟨r, inside, rfl⟩ := List.mem_map.mp start
  rcases fresh r inside with rfl | rfl
  · exact faithful_start tidy_empty
  · exact faithful_start tidy_standard

end Faithful

/-! ## What copies there can be -/

theorem reached_start {r : Registry} (fresh : r = empty ∨ r = standard) : Reached (.start r) := by
  refine ⟨[r], [], fun s member => ?_, List.mem_singleton.mpr rfl⟩
  exact List.mem_singleton.mp member ▸ fresh

section Reached

variable {c : Copy}

/-- One more deed with a copy that there can be, under the number that it has. -/
theorem Reached.modify (reached : Reached c) (f : Copy → Copy) (deed : Nat → Deed)
    (changes : ∀ copies number, step copies (deed number) = copies.modify number f) :
    Reached (f c) := by
  obtain ⟨starts, deeds, fresh, member⟩ := reached
  obtain ⟨number, here⟩ := List.mem_iff_getElem?.mp member
  refine ⟨starts, deeds ++ [deed number], fresh, List.mem_of_getElem? (i := number) ?_⟩
  rw [run, List.foldl_append, List.foldl_cons, List.foldl_nil, changes, List.getElem?_modify]
  exact Option.map_eq_some_iff.mpr ⟨c, here, if_pos rfl⟩

theorem Reached.define (reached : Reached c) (d : Definition) : Reached (c.define d) :=
  reached.modify (·.define d) (.define · d) fun _ _ => rfl

theorem Reached.lex (reached : Reached c) : Reached c.lex :=
  reached.modify Copy.lex (.lex · "" (.names [])) fun _ _ => rfl

end Reached

/-! ## The registry in use

A registry in use and the copy put aside are two registries side by side, where the one
put aside is a standard one as long as there is none. -/

/-- What an event does to the registry in use, which is the first, and the one put aside. -/
def Event.deed : Event → Deed
  | .define definition => .define 0 definition
  | .lookup name => .lookup 0 (.name name)
  | .lex source declaration => .lex 0 source declaration
  | .evaluate source => .lex 0 source (.names [])
  | .save => .restore 1 0
  | .restore => .restore 0 1

/-- The copies are those of the registry in use and of the one put aside. -/
def Shows (copies : List Copy) (h : History) : Prop :=
  copies.map Copy.registry = [h.current, h.saved.getD standard]

theorem Shows.pair {copies : List Copy} {h : History} (shown : Shows copies h) :
    ∃ current aside, copies = [current, aside] ∧ current.registry = h.current ∧
      aside.registry = h.saved.getD standard := by
  obtain ⟨current, aside, rfl⟩ : ∃ current aside, copies = [current, aside] := by
    rw [← List.length_eq_two, ← List.length_map Copy.registry, shown]
    rfl
  exact ⟨current, aside, rfl, by simpa [Shows] using shown⟩

theorem shows_step {copies : List Copy} {h : History} (shown : Shows copies h) (event : Event) :
    Shows (step copies event.deed) (h.step event).1 := by
  obtain ⟨current, aside, rfl, isCurrent, isAside⟩ := shown.pair
  cases event with
  | define d =>
      cases valid : d.key.valid with
      | false =>
          have refused : (h.step (.define d)).1 = h := by
            simp [History.step, add_eq, valid]
          have same := (define_of_invalid current valid).1
          simp [Shows, step, Event.deed, refused, same, isCurrent, isAside]
      | true =>
          have added : (h.step (.define d)).1 = { h with current := h.current.insert d } := by
            simp [History.step, add_eq, valid]
          have same := (define_of_valid current valid).1
          simp [Shows, step, Event.deed, added, same, isCurrent, isAside]
  | lookup name => exact shown
  | lex source declaration =>
      simp [Shows, step, Event.deed, History.step, Copy.lex, isCurrent, isAside]
  | evaluate source => simp [Shows, step, Event.deed, History.step, Copy.lex, isCurrent, isAside]
  | save => simp [Shows, step, Event.deed, History.step, isCurrent]
  | restore => simp [Shows, step, Event.deed, History.step, isAside]

/-- So a registry in use goes the way of the first of two copies. -/
theorem shows_run {copies : List Copy} {h : History} (shown : Shows copies h)
    (events : List Event) : Shows (run copies (events.map Event.deed)) (h.run events).1 := by
  induction events generalizing copies h with
  | nil => exact shown
  | cons event events ih => exact ih (shows_step shown event)

/-- What is in use after any events, or was put aside in them, is a copy there can be. -/
theorem reached_history {r : Registry} (fresh : r = empty ∨ r = standard) (events : List Event) :
    ∃ current aside, Reached current ∧ Reached aside ∧
      Shows [current, aside] ((History.start r).run events).1 := by
  have shown : Shows ([r, standard].map Copy.start) (History.start r) := rfl
  have after := shows_run shown events
  have reached : ∀ c ∈ run ([r, standard].map Copy.start) (events.map Event.deed), Reached c := by
    refine fun c member => ⟨[r, standard], events.map Event.deed, fun s start => ?_, member⟩
    rcases List.mem_cons.mp start with rfl | other
    · exact fresh
    · exact .inr (List.mem_singleton.mp other)
  obtain ⟨current, aside, two, -, -⟩ := after.pair
  rw [two] at after reached
  exact ⟨current, aside, reached current (by simp), reached aside (by simp), after⟩

/-- Whatever was done with registries side by side, a definition that is refused leaves
everything in them as it is. A lookup finds the last definition of the symbol or name in
the registry's own story, no name is one of a routine and of a constant, and everything
stands under its own valid symbol or name. The pattern texts are read with, kept or not,
is the one of the symbols that are found now, in whatever order these are listed. So two
registries in which the same is found turn every text into the same tokens, or fail at
the same place. -/
theorem found_by_story {c : Copy} (reached : Reached c) :
    (∀ d : Definition, d.key.valid = false →
        c.registry.add d = .error (.badName d.key.text) ∧
          (c.define d).registry = c.registry ∧
          ∀ key, (c.define d).story.last? key = c.story.last? key) ∧
      ((∀ symbol o, c.registry.operator? symbol = some o ↔
          c.story.last? (.symbol symbol) = some (.operator o)) ∧
        (∀ name f, c.registry.routine? name = some f ↔
          c.story.last? (.name name) = some (.routine f)) ∧
        ∀ name value, c.registry.constant? name = some value ↔
          c.story.last? (.name name) = some (.constant name value)) ∧
      (∀ name, c.registry.routine? name = none ∨ c.registry.constant? name = none) ∧
      ((∀ o ∈ c.registry.operators,
          isOperatorSymbol o.symbol = true ∧ c.registry.operator? o.symbol = some o) ∧
        ∀ f ∈ c.registry.routines, isName f.name = true ∧ c.registry.routine? f.name = some f) ∧
      (∀ symbols, Lists symbols c.registry →
        c.registry.pattern = .ofSymbols symbols ∧
          ∀ p, c.registry.kept = some p → p = .ofSymbols symbols) ∧
      ∀ other, Reached other → Agrees c.registry other.registry →
        ∀ (names : List String) (source : List Char),
          Formula.lex ⟨names, c.registry⟩ source = Formula.lex ⟨names, other.registry⟩ source ∧
            tokenize ⟨names, c.registry⟩ source = tokenize ⟨names, other.registry⟩ source := by
  obtain ⟨tidy, tells⟩ := reached.faithful
  refine ⟨fun d invalid => ?refused, ⟨?_, ?_, ?_⟩, tidy.exclusive, ⟨?_, ?_⟩, ?kept, ?texts⟩
  case refused =>
    obtain ⟨same, sameStory⟩ := define_of_invalid c invalid
    refine ⟨?_, same, sameStory⟩
    rw [add_eq, invalid, if_neg Bool.false_ne_true]
  case kept =>
    intro symbols lists
    have pattern := tidy.pattern_of_lists lists
    refine ⟨pattern, fun p kept => ?_⟩
    rw [tidy.current p kept, ← tidy.pattern_eq, pattern]
  case texts =>
    intro other reached' agrees names source
    have same := lex_eq_of_agrees tidy reached'.faithful.tidy agrees names source
    exact ⟨same, by rw [tokenize, tokenize, same]⟩
  · exact fun symbol o => operator?_eq_some_iff.trans (by rw [tells])
  · exact fun name f => routine?_eq_some_iff.trans (by rw [tells])
  · exact fun name value => tidy.constant?_eq_some_iff.trans (by rw [tells])
  · exact fun o member => ⟨tidy.symbols o member, tidy.operator?_of_mem member⟩
  · exact fun f member => ⟨tidy.names f member, tidy.routine?_of_mem member⟩

/-- Of two operators, one is defined first here and the other one there, with a text in
between or a refused definition at the end. -/
theorem found_by_story_orders :
    let product : Operator := ⟨"*", 3, .left, Float.mul, false⟩
    let power : Operator := ⟨"**", 4, .right, Float.pow, false⟩
    let here := ((Copy.start empty).define (.operator product)).lex.define (.operator power)
    let there := (((Copy.start empty).define (.operator power)).define (.operator product)).define
      (.constant "tau2" 1)
    Reached here ∧ Reached there ∧ Agrees here.registry there.registry ∧
      here.registry.operator? "*" = some product ∧
      tokenize ⟨[], here.registry⟩ "2**3*4".toList =
        tokenize ⟨[], there.registry⟩ "2**3*4".toList := by
  intro product power here there
  have start : Reached (.start empty) := reached_start (.inl rfl)
  have reached : Reached here := (start.define _).lex.define _
  have reached' : Reached there := ((start.define _).define _).define _
  have validProduct : (Definition.operator product).key.valid = true := by decide +kernel
  have validPower : (Definition.operator power).key.valid = true := by decide +kernel
  have refused : (Definition.constant "tau2" 1).key.valid = false := by decide
  have lastHere : ∀ key, here.story.last? key =
      if key = .symbol "**" then some (.operator power)
      else if key = .symbol "*" then some (.operator product) else empty.found? key := by
    intro key
    rw [(define_of_valid _ validPower).2, Copy.lex, (define_of_valid _ validProduct).2]
    rfl
  have lastThere : ∀ key, there.story.last? key =
      if key = .symbol "*" then some (.operator product)
      else if key = .symbol "**" then some (.operator power) else empty.found? key := by
    intro key
    rw [(define_of_invalid _ refused).2, (define_of_valid _ validProduct).2,
      (define_of_valid _ validPower).2]
    rfl
  have agrees : Agrees here.registry there.registry := by
    refine reached.faithful.agrees reached'.faithful fun key => ?_
    rw [lastHere, lastThere]
    by_cases isPower : key = .symbol "**"
    · simp [isPower]
    · simp [isPower]
  have last : here.story.last? (.symbol "*") = some (.operator product) := by simp [lastHere]
  obtain ⟨-, ⟨found, -, -⟩, -, -, -, texts⟩ := found_by_story reached
  exact ⟨reached, reached', agrees, (found "*" product).mpr last,
    (texts there reached' agrees [] "2**3*4".toList).2⟩

end Formula.Registry
