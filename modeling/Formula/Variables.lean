/-
# Formula.Variables — declarations of variables

Variables are declared by a list of names, or by one text with the names
between commas. In a text white space does not count and neither does a comma
at the end. Whatever the form, names must be made of letters and differ from
one another.
-/
import Formula.Fault
import Formula.Symbol

namespace Formula

set_option autoImplicit false

/-- How variables may be declared. -/
inductive Declaration where
  | text (source : String)
  | names (given : List String)

namespace Declaration

/-- The pieces of a text between commas; one more than there are commas. -/
def pieces : List Char → List (List Char)
  | [] => [[]]
  | c :: cs =>
    if c = ',' then [] :: pieces cs
    else
      match pieces cs with
      | [] => [[c]]
      | piece :: rest => (c :: piece) :: rest

/-- The pieces without one empty piece at the end. -/
def dropEmptyLast (names : List (List Char)) : List (List Char) :=
  if names.getLast? = some [] then names.dropLast else names

/-- The declared names, valid or not. -/
def toNames : Declaration → List String
  | .text source =>
    (dropEmptyLast (pieces (source.toList.filter fun c => !Text.isBlank c))).map String.ofList
  | .names given => given

end Declaration

namespace Variables

/-- The first name that equals an earlier one, given the names already seen. -/
def firstRepeated? (seen : List String) : List String → Option String
  | [] => none
  | name :: rest => if name ∈ seen then some name else firstRepeated? (name :: seen) rest

/-- Names that can be variables together: all valid, or the first that is not
is at fault; and all different, or the first repeated one is. -/
def validate (names : List String) : Except Fault (List String) :=
  match names.find? fun name => !isName name with
  | some name => .error (.badName name)
  | none =>
    match firstRepeated? [] names with
    | some name => .error (.duplicateName name)
    | none => .ok names

end Variables

end Formula
