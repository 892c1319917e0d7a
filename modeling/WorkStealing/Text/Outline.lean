set_option autoImplicit false

/-!
# Outlines

The shape of a value as it is shown: an atom, a named tuple, or a named record. `Outline.inline`
writes it on one line; `Outline.indented` gives every part a line of its own, four spaces deeper
than its whole and closed by a comma.
-/
namespace WorkStealing.Text

inductive Outline where
  | atom (text : String)
  | tuple (name : String) (parts : List Outline)
  | record (name : String) (fields : List (String × Outline))
  /-- A record that shows only some of its fields. -/
  | excerpt (name : String) (fields : List (String × Outline))

namespace Outline

def nat (n : Nat) : Outline := .atom (toString n)

/-- An optional part is a tuple named `Some`, or the atom `None`. -/
def option {α : Type} (f : α → Outline) : Option α → Outline
  | none => .atom "None"
  | some a => .tuple "Some" [f a]

mutual

def inline : Outline → String
  | .atom text => text
  | .tuple name parts => name ++ "(" ++ String.intercalate ", " (inlineParts parts) ++ ")"
  | .record name fields =>
    name ++ " \x7b " ++ String.intercalate ", " (inlineFields fields) ++ " \x7d"
  | .excerpt name fields =>
    name ++ " \x7b " ++ String.intercalate ", " (inlineFields fields ++ [".."]) ++ " \x7d"

def inlineParts : List Outline → List String
  | [] => []
  | part :: parts => part.inline :: inlineParts parts

def inlineFields : List (String × Outline) → List String
  | [] => []
  | (label, part) :: fields => (label ++ ": " ++ part.inline) :: inlineFields fields

end

def margin (depth : Nat) : String := "".pushn ' ' (4 * depth)

mutual

def indentedAt (depth : Nat) : Outline → String
  | .atom text => text
  | .tuple name parts => name ++ "(\n" ++ linesOfParts (depth + 1) parts ++ margin depth ++ ")"
  | .record name fields =>
    name ++ " \x7b\n" ++ linesOfFields (depth + 1) fields ++ margin depth ++ "\x7d"
  | .excerpt name fields =>
    name ++ " \x7b\n" ++ linesOfFields (depth + 1) fields ++ margin (depth + 1) ++ "..\n"
      ++ margin depth ++ "\x7d"

def linesOfParts (depth : Nat) : List Outline → String
  | [] => ""
  | part :: parts =>
    margin depth ++ part.indentedAt depth ++ ",\n" ++ linesOfParts depth parts

def linesOfFields (depth : Nat) : List (String × Outline) → String
  | [] => ""
  | (label, part) :: fields =>
    margin depth ++ label ++ ": " ++ part.indentedAt depth ++ ",\n" ++ linesOfFields depth fields

end

def indented (o : Outline) : String := o.indentedAt 0

end Outline

end WorkStealing.Text
