import ServiceModel.Issue.Finding
import ServiceModel.Text.Casing
import ServiceModel.Value.Mapping

/-!
# Names of members

Members are named by the keys of a mapping. Every name is an identifier, and no two names differ
only in case. A policy may ask for at least one member, and for names that start with a letter.
-/
namespace ServiceModel

structure NamingPolicy where
  nonEmpty : Bool
  enumNames : Bool
deriving DecidableEq, Repr

namespace MemberNames

def folded (key : Value) : List Char := Text.lower key.text.toList

def keyIssues (policy : NamingPolicy) (key : Value) : List Issue :=
  if !isIdentifier key then [(Finding.badMemberName key).issueAt [.str key.text]]
  else if policy.enumNames && !isEnumMemberName key then
    [(Finding.badEnumMemberName key).issueAt [key]]
  else []

/-- Adds a key to the group of its folded form, or begins that group. -/
def addToGroups : List (List Char × List Value) → Value → List (List Char × List Value)
  | [], key => [(folded key, [key])]
  | (form, keys) :: rest, key =>
    if form = folded key then (form, keys ++ [key]) :: rest
    else (form, keys) :: addToGroups rest key

/-- The keys by folded form, groups in the order of their first keys. -/
def groups (keys : List Value) : List (List Char × List Value) := keys.foldl addToGroups []

/-- The groups of two keys or more. They are looked for only if there are fewer forms than keys. -/
def collisions (keys : List Value) : List (List Char × List Value) :=
  let forms := keys.map folded
  if forms.eraseDups.length ≠ forms.length then (groups keys).filter fun group => group.2.length ≥ 2
  else []

def collisionIssues (keys : List Value) : List Issue :=
  (collisions keys).map fun group => (Finding.collidingMembers group.2).issueAt []

def emptinessIssues (policy : NamingPolicy) (keys : List Value) : List Issue :=
  if policy.nonEmpty && keys.isEmpty then [Finding.noMembers.issueAt []] else []

/-- Everything wrong with the names of members, in the order of the names. -/
def issues (policy : NamingPolicy) (keys : List Value) : List Issue :=
  emptinessIssues policy keys ++ keys.flatMap (keyIssues policy) ++ collisionIssues keys

/-- The same for a mapping, or for a value whose parts are entries; only the keys are looked at. -/
def check (policy : NamingPolicy) (members : Value) (path : Path) : Except Fault (List Issue) := do
  let entries ← Value.splitAll (← members.itemsOrParts)
  return (issues policy (entries.map (·.1))).map (.under path)

end MemberNames

end ServiceModel
