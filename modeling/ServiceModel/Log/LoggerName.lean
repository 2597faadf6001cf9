/-!
# Names of loggers

Loggers form a tree under one root. The stems of a name are its beginnings that end before a dot;
under these names the loggers above it are looked for. Of several dots in a row only every other one
ends a stem, beginning with the last. No stem is empty.
-/
namespace ServiceModel.Log

inductive LoggerName
  | root
  | named (name : String)
deriving DecidableEq, Repr

namespace LoggerName

def ofText (text : String) : LoggerName :=
  if text = "" ∨ text = "root" then .root else .named text

def text : LoggerName → String
  | .root => "root"
  | .named name => name

/-- The stems of a name that is given backwards, the longest first. The character before a dot that
ends a stem does not end one itself. -/
def stemsBackwards : List Char → List (List Char)
  | '.' :: c :: rest => (c :: rest).reverse :: stemsBackwards rest
  | _ :: rest => stemsBackwards rest
  | [] => []

theorem length_lt_of_mem_stemsBackwards {cs stem : List Char} (h : stem ∈ stemsBackwards cs) :
    stem.length < cs.length := by
  fun_induction stemsBackwards cs with
  | case1 c rest ih =>
    rcases List.mem_cons.mp h with rfl | h
    · simp
    · have := ih h
      simp
      omega
  | case2 _ rest _ ih =>
    have := ih h
    simp
    omega
  | case3 => simp at h

def stems (name : String) : List String :=
  (stemsBackwards name.toList.reverse).map String.ofList

theorem length_lt_of_mem_stems {name stem : String} (h : stem ∈ stems name) :
    stem.length < name.length := by
  obtain ⟨cs, hc, rfl⟩ := List.mem_map.mp h
  simpa [← String.length_toList] using length_lt_of_mem_stemsBackwards hc

end LoggerName

end ServiceModel.Log
