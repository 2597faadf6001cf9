import Mathlib
import ServiceModel.Issue.Basic
import ServiceModel.Proofs.Text.JsonString
import ServiceModel.Proofs.Text.Lines

/-!
# Locations are unambiguous

A location is written token by token: a position between brackets, a name after a dot, but for the
dot at the very beginning. What follows a token starts with a dot or a bracket, and neither can be
taken for more of the token before it: a bare word ends there, a literal ends with its quote, and a
position with its bracket. So a location names one path.
-/
namespace ServiceModel.Path
open Text

/-- The tokens that are written: names of fields and positions of items. -/
inductive IsToken : Value → Prop
  | name (s : String) : IsToken (.str s)
  | position (n : Int) : IsToken (.int n)

/-- A token as it is written after others. -/
def suffix (token : Value) : List Char :=
  match index? token with
  | some n => '[' :: n.toList ++ [']']
  | none => '.' :: part token.text.toList

theorem suffix_name (s : String) : suffix (.str s) = '.' :: part s.toList := rfl

theorem suffix_position (n : Int) : suffix (.int n) = '[' :: (toString n).toList ++ [']'] := rfl

theorem foldl_extend {written : List Char} (h : written ≠ []) (path : Path) :
    path.foldl extend written = written ++ path.flatMap suffix := by
  induction path generalizing written with
  | nil => exact (List.append_nil written).symm
  | cons token rest ih =>
    have step : extend written token = written ++ suffix token := by
      unfold extend suffix
      cases index? token with
      | some n => exact List.append_assoc _ _ _
      | none => exact if_neg (by simpa using h)
    rw [List.foldl_cons, step, ih (by simp [h]), List.flatMap_cons, List.append_assoc]

theorem exists_part_cons (cs : List Char) :
    ∃ c rest, part cs = c :: rest ∧ (isBareStart c = true ∨ c = '\x22') := by
  unfold part
  split
  · rename_i h
    cases cs with
    | nil => cases h
    | cons c rest => exact ⟨c, rest, rfl, .inl (Bool.and_eq_true_iff.mp h).1⟩
  · exact ⟨_, _, rfl, .inr rfl⟩

/-- The dot at the beginning, where a location starts with a name. -/
def dotted : List Char → List Char
  | [] => []
  | '[' :: rest => '[' :: rest
  | written => '.' :: written

theorem flatMap_suffix {path : Path} (hp : ∀ token ∈ path, IsToken token) :
    path.flatMap suffix = dotted path.location.toList := by
  rw [location, String.toList_ofList]
  cases path with
  | nil => rfl
  | cons token rest =>
    rw [List.flatMap_cons, List.foldl_cons]
    cases hp token List.mem_cons_self with
    | position n =>
      have first : extend [] (.int n) = suffix (.int n) := rfl
      rw [first, suffix_position, foldl_extend (by simp)]
      rfl
    | name s =>
      have first : extend [] (.str s) = part s.toList := rfl
      obtain ⟨c, more, hpart, hc⟩ := exists_part_cons s.toList
      have bracket : c ≠ '[' := by
        rintro rfl
        revert hc
        decide
      have undotted : ∀ written, dotted (c :: written) = '.' :: c :: written := by
        intro written
        unfold dotted
        split
        · contradiction
        · rename_i heq
          exact absurd (List.cons.inj heq).1 bracket
        · rfl
      rw [first, suffix_name, hpart, foldl_extend (List.cons_ne_nil _ _), List.cons_append,
        List.cons_append, undotted]

/-- What stands here is not more of a word. -/
def Ends (cs : List Char) : Prop := ∀ c ∈ cs.head?, isBareRest c = false

theorem ends_flatMap_suffix {path : Path} (hp : ∀ token ∈ path, IsToken token) :
    Ends (path.flatMap suffix) := by
  cases path with
  | nil => exact fun c hc => nomatch hc
  | cons token rest =>
    rw [List.flatMap_cons]
    cases hp token List.mem_cons_self with
    | name s =>
      rintro _ ⟨⟩
      decide
    | position n =>
      rintro _ ⟨⟩
      decide

theorem all_of_isBare {cs : List Char} (h : isBare cs = true) : ∀ c ∈ cs, isBareRest c = true := by
  cases cs with
  | nil => cases h
  | cons c rest =>
    obtain ⟨hc, hr⟩ := Bool.and_eq_true_iff.mp h
    refine List.forall_mem_cons.mpr ⟨?_, fun d hd => List.all_eq_true.mp hr d hd⟩
    rcases Bool.or_eq_true_iff.mp hc with hc | hc
    · simp [isBareRest, Char.isAlphanum, hc]
    · simp [isBareRest, hc]

theorem takeWhile_of_ends {cs s : List Char} (hc : ∀ c ∈ cs, isBareRest c = true) (hs : Ends s) :
    (cs ++ s).takeWhile isBareRest = cs := by
  rw [List.takeWhile_append_of_pos hc]
  cases s with
  | nil => simp
  | cons c rest => simp [hs c rfl]

theorem part_append_inj {cs ds s t : List Char} (hs : Ends s) (ht : Ends t)
    (h : part cs ++ s = part ds ++ t) : cs = ds ∧ s = t := by
  have apart : ∀ {cs ds s t : List Char}, isBare cs = true →
      cs ++ s ≠ Text.JsonString.encode ds ++ t := by
    intro cs ds s t hb he
    cases cs with
    | nil => cases hb
    | cons c rest =>
      rw [isBare, Bool.and_eq_true_iff, (List.cons.inj he).1] at hb
      exact absurd hb.1 (by decide)
  unfold part at h
  split at h
  · rename_i hc
    split at h
    · rename_i hd
      have words := congrArg (List.takeWhile isBareRest) h
      rw [takeWhile_of_ends (all_of_isBare hc) hs, takeWhile_of_ends (all_of_isBare hd) ht] at words
      subst words
      exact ⟨rfl, List.append_cancel_left h⟩
    · exact absurd h (apart hc)
  · split at h
    · rename_i hd
      exact absurd h.symm (apart hd)
    · exact JsonString.encode_append_inj h

theorem bracket_not_mem (n : Int) : ']' ∉ (toString n).toList := by
  intro h
  have digit := isDigit_or_minus_of_mem_toString h
  revert digit
  decide

theorem suffix_append_inj {a b : Value} {s t : List Char} (ha : IsToken a) (hb : IsToken b)
    (hs : Ends s) (ht : Ends t) (h : suffix a ++ s = suffix b ++ t) : a = b ∧ s = t := by
  cases ha with
  | name x =>
    cases hb with
    | name y =>
      obtain ⟨hxy, hst⟩ := part_append_inj hs ht (List.cons.inj h).2
      exact ⟨congrArg Value.str (String.toList_inj.mp hxy), hst⟩
    | position n => exact absurd (List.cons.inj h).1 (by decide)
  | position m =>
    cases hb with
    | name y => exact absurd (List.cons.inj h).1 (by decide)
    | position n =>
      have inside : (toString m).toList ++ ']' :: s = (toString n).toList ++ ']' :: t := by
        simpa [suffix_position] using h
      have numbers := congrArg (before ']') inside
      have rest := congrArg (after? ']') inside
      rw [before_append (bracket_not_mem m), before_append (bracket_not_mem n)] at numbers
      rw [after?_append (bracket_not_mem m), after?_append (bracket_not_mem n)] at rest
      exact ⟨congrArg Value.int (Int.repr_injective (String.toList_inj.mp numbers)),
        Option.some.inj rest⟩

theorem flatMap_suffix_injective {p q : Path} (hp : ∀ token ∈ p, IsToken token)
    (hq : ∀ token ∈ q, IsToken token) (h : p.flatMap suffix = q.flatMap suffix) : p = q := by
  have ne_nil : ∀ (token : Value) (s : List Char), suffix token ++ s ≠ [] := by
    intro token s
    unfold suffix
    split <;> simp
  induction p generalizing q with
  | nil =>
    cases q with
    | nil => rfl
    | cons b q => exact absurd h.symm (ne_nil b _)
  | cons a p ih =>
    cases q with
    | nil => exact absurd h (ne_nil a _)
    | cons b q =>
      obtain ⟨ha, hp⟩ := List.forall_mem_cons.mp hp
      obtain ⟨hb, hq⟩ := List.forall_mem_cons.mp hq
      obtain ⟨hab, hrest⟩ := suffix_append_inj ha hb (ends_flatMap_suffix hp)
        (ends_flatMap_suffix hq) h
      rw [hab, ih hp hq hrest]

theorem location_injective {p q : Path} (hp : ∀ token ∈ p, IsToken token)
    (hq : ∀ token ∈ q, IsToken token) (h : p.location = q.location) : p = q := by
  refine flatMap_suffix_injective hp hq ?_
  rw [flatMap_suffix hp, flatMap_suffix hq, h]

theorem location_eq_empty_iff {p : Path} (hp : ∀ token ∈ p, IsToken token) :
    p.location = "" ↔ p = [] :=
  ⟨fun h => location_injective hp (fun _ h => nomatch h) h, fun h => h ▸ rfl⟩

/-- No location starts with an angle bracket. -/
theorem location_ne_document {p : Path} (hp : ∀ token ∈ p, IsToken token) :
    p.location ≠ "<document>" := by
  intro h
  have written := flatMap_suffix hp
  rw [h] at written
  have document : dotted "<document>".toList = '.' :: "<document>".toList := rfl
  cases p with
  | nil => cases written
  | cons token rest =>
    rw [List.flatMap_cons, document] at written
    cases hp token List.mem_cons_self with
    | position n => exact absurd (List.cons.inj written).1 (by decide)
    | name s =>
      obtain ⟨c, more, hpart, hc⟩ := exists_part_cons s.toList
      rw [suffix_name, hpart] at written
      obtain rfl : c = '<' := (List.cons.inj (List.cons.inj written).2).1
      revert hc
      decide

end ServiceModel.Path

namespace ServiceModel

theorem Issue.text_eq_document_iff {kind : Issue.Kind} {p : Path} {message : String}
    {values : List Value} (hp : ∀ token ∈ p, Path.IsToken token) :
    Issue.text ⟨kind, p, message, values⟩ = s!"{kind.name}: {message} (at <document>)" ↔
      p = [] := by
  have written : Issue.text ⟨kind, p, message, values⟩ = kind.name ++ ": " ++ message ++ " (at " ++
      (if p.location.isEmpty then "<document>" else p.location) ++ ")" := rfl
  have placeholder : s!"{kind.name}: {message} (at <document>)" =
      kind.name ++ ": " ++ message ++ " (at " ++ "<document>" ++ ")" := by
    have split : " (at <document>)" = " (at " ++ "<document>" ++ ")" := rfl
    rw [split]
    simp [toString, String.append_assoc]
  rw [written, placeholder, String.append_left_inj, String.append_right_inj,
    ← Path.location_eq_empty_iff hp]
  split
  · rename_i h
    simpa using h
  · rename_i h
    exact iff_of_false (Path.location_ne_document hp) (by simpa using h)

/-- For a path of names and positions: a location is that of one path only, it is empty for the
empty path only, and it is never the placeholder that is written in the place of an empty one. So
the text of an issue speaks of the document exactly if the path of the issue is empty. -/
theorem locations_unambiguous {p : Path} (hp : ∀ token ∈ p, Path.IsToken token) :
    (∀ q : Path, (∀ token ∈ q, Path.IsToken token) → p.location = q.location → p = q) ∧
    (p.location = "" ↔ p = []) ∧ p.location ≠ "<document>" ∧
    ∀ (kind : Issue.Kind) (message : String) (values : List Value),
      (Issue.text ⟨kind, p, message, values⟩ = s!"{kind.name}: {message} (at <document>)" ↔
        p = []) :=
  ⟨fun _ hq h => Path.location_injective hp hq h, Path.location_eq_empty_iff hp,
    Path.location_ne_document hp, fun _ _ _ => Issue.text_eq_document_iff hp⟩

/-- A position after a name, and a name that looks like both; the name has to be quoted. -/
theorem locations_unambiguous_of_bracket : ∃ p q : Path,
    p = [.str "a", .int (-1), .str ""] ∧ q = [.str "a[-1]", .str ""] ∧
    (∀ token ∈ p, Path.IsToken token) ∧ (∀ token ∈ q, Path.IsToken token) ∧
    p.location ≠ q.location ∧ p.location ≠ "" ∧ p.location ≠ "<document>" := by
  have hp : ∀ token ∈ [Value.str "a", .int (-1), .str ""], Path.IsToken token :=
    List.forall_mem_cons.mpr ⟨.name _, List.forall_mem_cons.mpr
      ⟨.position _, List.forall_mem_singleton.mpr (.name _)⟩⟩
  have hq : ∀ token ∈ [Value.str "a[-1]", .str ""], Path.IsToken token :=
    List.forall_mem_cons.mpr ⟨.name _, List.forall_mem_singleton.mpr (.name _)⟩
  obtain ⟨injective, empty, document, -⟩ := locations_unambiguous hp
  refine ⟨_, _, rfl, rfl, hp, hq, fun h => ?_, fun h => ?_, document⟩
  · exact absurd (injective _ hq h) (by decide)
  · exact absurd (empty.mp h) (List.cons_ne_nil _ _)

end ServiceModel
