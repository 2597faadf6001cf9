import ServiceModel.Log.Record
import ServiceModel.Text.NumberForm

/-!
# Directives of a line template

A directive stands in a template for a piece of text. After a per cent sign it has, all of them
optional but the last: the name of a field in round brackets, flags, a least width, a limit after a
point, a letter without meaning, and the letter of the form in which the field is written. Without
a name the directive is about the record as a whole.

The limit is a greatest length for a text, a least number of digits for a whole number, and a
number of places or of digits for the other number forms.
-/
namespace ServiceModel.Log

inductive Form
  | text
  | literal
  /-- The literal with all characters beyond ASCII by their code points. -/
  | ascii
  | whole (base : Nat) (upper : Bool)
  | placed
  | scientific (upper : Bool)
  | general (upper : Bool)
  | character
deriving DecidableEq, Repr

structure Flags where
  leftAligned : Bool
  signed : Bool
  spaced : Bool
  alternate : Bool
  zeroFilled : Bool
deriving DecidableEq, Repr

structure Directive where
  field? : Option String
  flags : Flags
  width : Nat
  limit? : Option Nat
  form : Form
deriving DecidableEq, Repr

namespace Form

def ofLetter? : Char → Option Form
  | 's' => some .text
  | 'r' => some .literal
  | 'a' => some .ascii
  | 'd' | 'i' | 'u' => some (.whole 10 false)
  | 'o' => some (.whole 8 false)
  | 'x' => some (.whole 16 false)
  | 'X' => some (.whole 16 true)
  | 'e' => some (.scientific false)
  | 'E' => some (.scientific true)
  | 'f' | 'F' => some .placed
  | 'g' => some (.general false)
  | 'G' => some (.general true)
  | 'c' => some .character
  | _ => none

end Form

namespace Flags

def unset : Flags := ⟨false, false, false, false, false⟩

def isFlag (c : Char) : Bool := ['-', '+', ' ', '#', '0'].contains c

def ofText (cs : List Char) : Flags :=
  ⟨cs.contains '-', cs.contains '+', cs.contains ' ', cs.contains '#', cs.contains '0'⟩

end Flags

/-! ## Reading -/

namespace Directive

def field (name : String) : Directive := ⟨some name, .unset, 0, none, .text⟩

def digits (cs : List Char) : List Char × List Char :=
  (cs.takeWhile Char.isDigit, cs.dropWhile Char.isDigit)

def number (cs : List Char) : Nat := cs.foldl (fun n c => 10 * n + (c.toNat - '0'.toNat)) 0

/-- Splits a text at the closing bracket of the outermost of the brackets that are open. -/
def splitAtClosing : Nat → List Char → Option (List Char × List Char)
  | _, [] => none
  | 0, ')' :: rest => some ([], rest)
  | inner + 1, ')' :: rest => (splitAtClosing inner rest).map fun p => (')' :: p.1, p.2)
  | inner, c :: rest =>
    (splitAtClosing (if c = '(' then inner + 1 else inner) rest).map fun p => (c :: p.1, p.2)

theorem splitAtClosing_eq {inner : Nat} {cs name rest : List Char}
    (h : splitAtClosing inner cs = some (name, rest)) : cs = name ++ ')' :: rest := by
  fun_induction splitAtClosing inner cs generalizing name with
  | case1 => simp at h
  | case2 => simp_all
  | case3 inner more ih =>
    obtain ⟨⟨before, after⟩, hp, he⟩ := Option.map_eq_some_iff.mp h
    simp only [Prod.mk.injEq] at he
    obtain ⟨rfl, rfl⟩ := he
    rw [ih hp]
    rfl
  | case4 inner c more _ _ ih =>
    obtain ⟨⟨before, after⟩, hp, he⟩ := Option.map_eq_some_iff.mp h
    simp only [Prod.mk.injEq] at he
    obtain ⟨rfl, rfl⟩ := he
    rw [ih hp]
    rfl

def readField? : List Char → Option (Option String × List Char)
  | '(' :: rest => (splitAtClosing 0 rest).map fun p => (some (String.ofList p.1), p.2)
  | cs => some (none, cs)

def readLimit : List Char → Option Nat × List Char
  | '.' :: rest => (some (number (digits rest).1), (digits rest).2)
  | cs => (none, cs)

def skipSize : List Char → List Char
  | 'h' :: rest | 'l' :: rest | 'L' :: rest => rest
  | cs => cs

/-- Reads what follows a per cent sign; gives the directive and the rest. -/
def read? (cs : List Char) : Option (Directive × List Char) := do
  let (field?, cs) ← readField? cs
  let flags := Flags.ofText (cs.takeWhile Flags.isFlag)
  let (width, cs) := digits (cs.dropWhile Flags.isFlag)
  let (limit?, cs) := readLimit cs
  match skipSize cs with
  | c :: cs => return (⟨field?, flags, number width, limit?, ← Form.ofLetter? c⟩, cs)
  | [] => none

end Directive

/-! ## Writing -/

/-- What is written of an argument before it is brought up to its width. -/
structure Written where
  sign : List Char
  mark : List Char
  body : List Char
  isNumber : Bool

namespace Written

def ofText (limit? : Option Nat) (cs : List Char) : Written :=
  ⟨[], [], match limit? with
    | some limit => cs.take limit
    | none => cs, false⟩

def signOf (flags : Flags) (n : Int) : List Char :=
  if n < 0 then ['-'] else if flags.signed then ['+'] else if flags.spaced then [' '] else []

def markOf (base : Nat) (upper : Bool) : List Char :=
  if base = 8 then ['0', 'o']
  else if base = 16 then ['0', if upper then 'X' else 'x']
  else []

/-- A whole number in a base, with at least as many digits as the limit says. -/
def ofWhole (flags : Flags) (limit? : Option Nat) (base : Nat) (upper : Bool) (n : Int) :
    Written :=
  let digits := Nat.toDigits base n.natAbs
  let digits := if upper then digits.map Char.toUpper else digits
  ⟨signOf flags n, if flags.alternate then markOf base upper else [],
    Text.NumberForm.atLeast (limit?.getD 0) digits, true⟩

def ofDouble? (flags : Flags) (n : Int) (form : Nat → List Char) : Option Written :=
  (Text.NumberForm.double? n.natAbs).map fun magnitude =>
    ⟨signOf flags n, [], form magnitude, true⟩

def character? : Value → Option Char
  | .int n => if 0 ≤ n ∧ n.toNat.isValidChar then some (Char.ofNat n.toNat) else none
  | .str s => match s.toList with
    | [c] => some c
    | _ => none
  | _ => none

/-- Writes an argument in a form; a number form is given numbers only. -/
def ofValue? (flags : Flags) (limit? : Option Nat) (value : Value) : Form → Option Written
  | .text => some (ofText limit? value.text.toList)
  | .literal => some (ofText limit? value.literal.toList)
  | .ascii => some (ofText limit? (Text.Quoted.ascii value.literal.toList))
  | .character => (character? value).map fun c => ofText none [c]
  | form => match value with
    | .int n => match form with
      | .whole base upper => some (ofWhole flags limit? base upper n)
      | .placed => ofDouble? flags n (Text.NumberForm.placed flags.alternate (limit?.getD 6))
      | .scientific upper =>
        ofDouble? flags n (Text.NumberForm.scientific upper flags.alternate (limit?.getD 6))
      | .general upper =>
        ofDouble? flags n (Text.NumberForm.general upper flags.alternate (limit?.getD 6))
      | _ => none
    | _ => none

/-- Writes the beginning of a text, if the limit keeps to what is known of it. -/
def ofStart? (limit? : Option Nat) (start : List Char) : Option Written := do
  let limit ← limit?
  if limit ≤ start.length then some (ofText (some limit) start) else none

def ofField? (flags : Flags) (limit? : Option Nat) (form : Form) : FieldValue → Option Written
  | .known value => ofValue? flags limit? value form
  | .begun text literal => match form with
    | .text => ofStart? limit? text.toList
    | .literal => ofStart? limit? literal.toList
    | .ascii => ofStart? limit? (Text.Quoted.ascii literal.toList)
    | _ => none

/-- Brings a text up to a width: with blanks on its right if it is left-aligned, otherwise on its
left, and a number with zeros after its sign and mark if the flags ask for them. -/
def padded (flags : Flags) (width : Nat) (w : Written) : List Char :=
  let bare := w.sign ++ w.mark ++ w.body
  let missing := width - bare.length
  if flags.leftAligned then bare ++ List.replicate missing ' '
  else if flags.zeroFilled && w.isNumber then
    w.sign ++ w.mark ++ List.replicate missing '0' ++ w.body
  else List.replicate missing ' ' ++ bare

theorem length_padded (flags : Flags) (width : Nat) (w : Written) :
    (w.padded flags width).length = max width (w.sign ++ w.mark ++ w.body).length := by
  unfold padded
  split
  · simp
    omega
  · split <;> simp <;> omega

end Written

namespace Directive

def render? (record : Record) (d : Directive) : Option (List Char) := do
  let value ← match d.field? with
    | some name => record.field? name
    | none => some record.whole
  let written ← Written.ofField? d.flags d.limit? d.form value
  return written.padded d.flags d.width

theorem render?_field {record : Record} {name : String} {value : Value}
    (h : record.field? name = some (.known value)) :
    (field name).render? record = some value.text.toList := by
  simp [render?, field, h, Written.ofField?, Written.ofValue?, Written.ofText, Written.padded,
    Flags.unset]

end Directive

end ServiceModel.Log
