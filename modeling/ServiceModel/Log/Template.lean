import ServiceModel.Log.Directive
import ServiceModel.Text.Numeral
import ServiceModel.Text.Word

/-!
# Line templates

A template is a text with directives in it, such as `%(name)s`; a doubled per cent sign stands for
one. It is accepted if one of its parts looks like a directive that names a field. Whether all
directives can be read, and whether the fields exist and have the right type, shows only when a
line is written: a record that a template cannot write leaves no line.

Only the first directive of a template can be about the record as a whole.
-/
namespace ServiceModel.Log

inductive Piece
  | text (c : Char)
  | directive (d : Directive)
  | unreadable
deriving DecidableEq, Repr

namespace Piece

def ofDirective (isFirst : Bool) (d : Directive) : Piece :=
  if d.field?.isSome || isFirst then .directive d else .unreadable

def render? (record : Record) : Piece → Option (List Char)
  | .text c => some [c]
  | .directive d => d.render? record
  | .unreadable => none

end Piece

abbrev Template := List Piece

namespace Template

/-! ## Acceptance -/

def isDecimal (c : Char) : Bool := (Text.digitValue? c).isSome

def skipAmount : List Char → List Char
  | '*' :: rest => rest
  | cs => cs.dropWhile isDecimal

def skipLimit : List Char → List Char
  | '.' :: '*' :: rest => rest
  | '.' :: c :: rest => if isDecimal c then rest.dropWhile isDecimal else '.' :: c :: rest
  | cs => cs

/-- Letters of forms in either case, where a dotted capital, a dotless and a long letter count as
well, and the per cent sign. -/
def isFormLetter (c : Char) : Bool := "diouxefgcrsa%DIOUXEFGCRSAİıſ".toList.contains c

/-- Whether the text begins like a directive that names a field. -/
def namesField : List Char → Bool
  | '%' :: '(' :: rest =>
    match rest.takeWhile Text.isWord, rest.dropWhile Text.isWord with
    | _ :: _, ')' :: rest =>
      match skipLimit (skipAmount (rest.dropWhile Flags.isFlag)) with
      | c :: _ => isFormLetter c
      | [] => false
    | _, _ => false
  | _ => false

/-- Whether some part of the text looks like a directive that names a field. -/
def isAccepted : List Char → Bool
  | [] => false
  | c :: rest => namesField (c :: rest) || isAccepted rest

/-! ## Reading -/

/-- Reads the pieces of a text that is at most `fuel` characters long. -/
def readPieces (isFirst : Bool) : Nat → List Char → Template
  | 0, _ => []
  | _, [] => []
  | fuel + 1, '%' :: '%' :: rest => .text '%' :: readPieces isFirst fuel rest
  | fuel + 1, '%' :: rest =>
    match Directive.read? rest with
    | some (d, rest) => Piece.ofDirective isFirst d :: readPieces false fuel rest
    | none => [.unreadable]
  | fuel + 1, c :: rest => .text c :: readPieces isFirst fuel rest

def read (text : String) : Template := readPieces true text.length text.toList

def bare : Template := [.directive (.field "message")]

/-- The logger, the level and the message, set off by dashes. -/
def standard : Template :=
  [.directive (.field "name"), .text ' ', .text '-', .text ' ', .directive (.field "levelname"),
    .text ' ', .text '-', .text ' ', .directive (.field "message")]

/-- An empty text is taken for the template that shows the message only. -/
def parse? (text : String) : Option Template :=
  if text.isEmpty then some bare
  else if isAccepted text.toList then some (read text)
  else none

/-! ## Writing -/

/-- The line of a record, if the template can write it. -/
def line? (template : Template) (record : Record) : Option String :=
  (template.mapM (Piece.render? record)).map fun parts => String.ofList (parts.flatten ++ ['\n'])

theorem standard_line? (record : Record) :
    standard.line? record = some (record.logger ++ " - " ++ Level.name record.level ++ " - "
      ++ record.message ++ "\n") := by
  have hn : (Directive.field "name").render? record = _ := Directive.render?_field rfl
  have hl : (Directive.field "levelname").render? record = _ := Directive.render?_field rfl
  have hm : (Directive.field "message").render? record = _ := Directive.render?_field rfl
  simp [line?, standard, Piece.render?, hn, hl, hm, Value.text, Scalar.text, ← String.toList_inj]

end Template

end ServiceModel.Log
