/-!
# Faults

An operation on a value tree stops with a fault when the tree has no reading at all for it: a
scalar where parts are wanted, an entry that is no pair, a key that cannot be one. Violations of
the rules of a model are not faults; they are reported as issues.
-/
namespace ServiceModel

inductive Fault
  /-- A scalar that is no text was asked for its parts. -/
  | notIterable
  /-- An entry has a number of parts other than two. -/
  | notAPair
  /-- A list, a mapping or a pair list stands where a key must. -/
  | unhashable
  /-- A pair list was read by position, and a key of it is no position. -/
  | notAPosition
  | positionOutOfRange
  /-- A field was looked up in a value that has none. -/
  | notAMapping
  /-- What only a pair list can be asked for was asked of another value. -/
  | notAPairList
  /-- A shape was put together without the field of this name. -/
  | fieldNeverRead (name : String)
  /-- A list of references was to be written, and there is none. -/
  | noReferences
  /-- A field was to be written, and it holds nothing. -/
  | nothingToWrite
  | unknownIssueKind (name : String)
  /-- An integer with too many digits was to be written. -/
  | integerTooLong
  /-- A value is nested too deep to be followed. -/
  | nestedTooDeep
deriving DecidableEq, Repr

end ServiceModel
