import Mathlib.Computability.RegularExpressions
import Mathlib.Data.List.TakeWhile
import ServiceModel.Identifier.Token
import ServiceModel.Proofs.Text.Joined

/-!
# The language of the rules

What each rule says of a whole text: which parts there are and how they are joined. A rule accepts
exactly the texts that can be put together in that way, though it looks for the parts only at the
first separator: no part can hold the separator that comes after it. Identifiers and the names of
enumeration members are also given by regular expressions.
-/
namespace ServiceModel

namespace Grammar

def letter (c : Char) : Prop := ('a' ≤ c ∧ c ≤ 'z') ∨ ('A' ≤ c ∧ c ≤ 'Z')

def digit (c : Char) : Prop := '0' ≤ c ∧ c ≤ '9'

instance (c : Char) : Decidable (letter c) := inferInstanceAs (Decidable (_ ∨ _))

instance (c : Char) : Decidable (digit c) := inferInstanceAs (Decidable (_ ∧ _))

def identifier (s : String) : Prop :=
  s ≠ "" ∧ (∀ c ∈ s.toList, letter c ∨ digit c ∨ c = '_') ∧ ¬ ['_', '_', '_'] <+: s.toList ∧
    ∃ c ∈ s.toList, c ≠ '_'

def initialLetter (s : String) : Prop := ∃ c, s.toList.head? = some c ∧ letter c

def enumMember (s : String) : Prop := identifier s ∧ initialLetter s

def namespacePath (s : String) : Prop :=
  ∃ parts, parts ≠ [] ∧ (∀ part ∈ parts, identifier part) ∧ s = ".".intercalate parts

def absoluteId (s : String) : Prop :=
  ∃ path name, namespacePath path ∧ identifier name ∧ s = path ++ "#" ++ name

def rootId (s : String) : Prop := absoluteId s ∨ identifier s

def shapeId (s : String) : Prop :=
  ∃ root, rootId root ∧ (s = root ∨ ∃ member, identifier member ∧ s = root ++ "$" ++ member)

def memberSelector (s : String) : Prop := ∃ member, identifier member ∧ s = "$" ++ member

/-! The expressions for the two kinds of words. -/

open RegularExpression (char star)

def oneOf (cs : List Char) : RegularExpression Char := (cs.map char).sum

def letters : List Char := "abcdefghijklmnopqrstuvwxyzABCDEFGHIJKLMNOPQRSTUVWXYZ".toList

def digits : List Char := "0123456789".toList

/-- `(_{0,2}[a-zA-Z0-9]|[a-zA-Z])[a-zA-Z0-9_]*` -/
def identifierExpression : RegularExpression Char :=
  ((1 + char '_') * (1 + char '_') * oneOf (letters ++ digits) + oneOf letters) *
    star (oneOf (letters ++ digits ++ ['_']))

/-- `[a-zA-Z]+[a-zA-Z0-9_]*` -/
def enumMemberExpression : RegularExpression Char :=
  oneOf letters * star (oneOf letters) * star (oneOf (letters ++ digits ++ ['_']))

end Grammar

def Rule.Generates : Rule → String → Prop
  | .identifier => Grammar.identifier
  | .enumMember => Grammar.enumMember
  | .namespacePath => Grammar.namespacePath
  | .absoluteId => Grammar.absoluteId
  | .rootId => Grammar.rootId
  | .shapeId => Grammar.shapeId
  | .memberSelector => Grammar.memberSelector

/-! Characters. -/

namespace Grammar

theorem isAlpha_iff {c : Char} : c.isAlpha = true ↔ letter c := by
  have alpha : c.isAlpha = (c.isUpper || c.isLower) := rfl
  have upper : c.isUpper = true ↔ 'A' ≤ c ∧ c ≤ 'Z' := decide_eq_true_iff
  have lower : c.isLower = true ↔ 'a' ≤ c ∧ c ≤ 'z' :=
    Bool.and_eq_true_iff.trans (and_congr decide_eq_true_iff decide_eq_true_iff)
  rw [alpha, Bool.or_eq_true, upper, lower]
  exact or_comm

theorem isDigit_iff {c : Char} : c.isDigit = true ↔ digit c := by
  simp [Char.isDigit, digit, Char.le_def]

theorem isWordChar_iff {c : Char} :
    Rule.isWordChar c = true ↔ letter c ∨ digit c ∨ c = '_' := by
  simp [Rule.isWordChar, Char.isAlphanum, isAlpha_iff, isDigit_iff, or_assoc]

end Grammar

namespace Rule
variable {cs : List Char} {sep : Char}

/-! Identifiers. -/

theorem underscores_le_iff (k : Nat) (cs : List Char) :
    (cs.takeWhile (· == '_')).length ≤ k ↔ ¬ List.replicate (k + 1) '_' <+: cs := by
  induction cs generalizing k with
  | nil => simp
  | cons c rest ih =>
    by_cases hc : c = '_'
    · cases k with
      | zero => simp [hc]
      | succ k =>
        rw [List.replicate_succ, List.cons_prefix_cons]
        simpa [hc] using ih k
    · rw [List.replicate_succ, List.cons_prefix_cons]
      simp [hc, Ne.symm hc]

theorem exists_solid_iff (cs : List Char) :
    (∃ c rest, cs.dropWhile (· == '_') = c :: rest ∧ c.isAlphanum = true ∧
      rest.all isWordChar = true) ↔ (∀ c ∈ cs, isWordChar c = true) ∧ ∃ c ∈ cs, c ≠ '_' := by
  induction cs with
  | nil => simp
  | cons c rest ih =>
    by_cases hc : c = '_'
    · subst hc
      have hu : isWordChar '_' = true := rfl
      simpa [hu] using ih
    · have hw : isWordChar c = c.isAlphanum := by simp [isWordChar, hc]
      simp [hw, hc]

theorem isIdentifier_iff : isIdentifier cs = true ↔ (∀ c ∈ cs, isWordChar c = true) ∧
    ¬ ['_', '_', '_'] <+: cs ∧ ∃ c ∈ cs, c ≠ '_' := by
  have solid := exists_solid_iff cs
  have start := underscores_le_iff 2 cs
  rw [and_left_comm, ← solid, isIdentifier, Bool.and_eq_true, decide_eq_true_eq, start]
  cases cs.dropWhile (· == '_') <;> simp

theorem isEnumMember_iff : isEnumMember cs = true ↔
    isIdentifier cs = true ∧ ∃ c, cs.head? = some c ∧ c.isAlpha = true := by
  cases cs with
  | nil => simp [isEnumMember]
  | cons c rest =>
    by_cases hc : c.isAlpha = true
    · have hu : c ≠ '_' := by
        intro h
        rw [h] at hc
        cases hc
      simp [isEnumMember, isIdentifier, Char.isAlphanum, hc, hu]
    · simp [isEnumMember, hc]

theorem not_mem_of_isIdentifier (h : isIdentifier cs = true) (hsep : isWordChar sep = false) :
    sep ∉ cs := by
  intro hm
  rw [(isIdentifier_iff.mp h).1 sep hm] at hsep
  cases hsep

/-! Namespaces. -/

theorem isNamespace_intercalate {parts : List (List Char)} (hne : parts ≠ [])
    (h : ∀ part ∈ parts, isIdentifier part = true) :
    isNamespace (['.'].intercalate parts) = true := by
  have hdots : ∀ part ∈ parts, '.' ∉ part := fun part hp => not_mem_of_isIdentifier (h part hp) rfl
  rw [isNamespace, Text.pieces_intercalate hne hdots]
  exact List.all_eq_true.mpr h

theorem isNamespace_iff : isNamespace cs = true ↔
    ∃ parts, parts ≠ [] ∧ (∀ part ∈ parts, isIdentifier part = true) ∧
      cs = ['.'].intercalate parts := by
  constructor
  · intro h
    exact ⟨_, Text.pieces_ne_nil '.' cs, List.all_eq_true.mp h,
      (Text.intercalate_pieces '.' cs).symm⟩
  · rintro ⟨parts, hne, h, rfl⟩
    exact isNamespace_intercalate hne h

theorem not_mem_of_isNamespace (h : isNamespace cs = true) (hsep : isWordChar sep = false)
    (hdot : sep ≠ '.') : sep ∉ cs := by
  obtain ⟨parts, -, hp, rfl⟩ := isNamespace_iff.mp h
  intro hm
  rcases Text.mem_intercalate hm with rfl | ⟨part, hpart, hin⟩
  · exact hdot rfl
  · exact not_mem_of_isIdentifier (hp part hpart) hsep hin

/-! Shape ids. -/

theorem isAbsoluteId_append {path name : List Char} (hp : isNamespace path = true)
    (hn : isIdentifier name = true) : isAbsoluteId (path ++ '#' :: name) = true := by
  have hpath : '#' ∉ path := not_mem_of_isNamespace hp rfl (by decide)
  rw [isAbsoluteId, Text.after?_append hpath, Text.before_append hpath]
  simp [hp, hn]

theorem isAbsoluteId_iff : isAbsoluteId cs = true ↔
    ∃ path name, isNamespace path = true ∧ isIdentifier name = true ∧ cs = path ++ '#' :: name := by
  constructor
  · intro h
    unfold isAbsoluteId at h
    split at h
    · cases h
    · rename_i name hname
      obtain ⟨hp, hn⟩ := Bool.and_eq_true_iff.mp h
      exact ⟨_, name, hp, hn, (Text.before_append_after hname).symm⟩
  · rintro ⟨path, name, hp, hn, rfl⟩
    exact isAbsoluteId_append hp hn

theorem not_mem_of_isAbsoluteId (h : isAbsoluteId cs = true) (hsep : isWordChar sep = false)
    (hdot : sep ≠ '.') (hsharp : sep ≠ '#') : sep ∉ cs := by
  obtain ⟨path, name, hp, hn, rfl⟩ := isAbsoluteId_iff.mp h
  have hpath := not_mem_of_isNamespace hp hsep hdot
  have hname := not_mem_of_isIdentifier hn hsep
  simp [hpath, hname, hsharp]

theorem not_mem_of_isRootId (h : isRootId cs = true) : '$' ∉ cs := by
  rcases Bool.or_eq_true_iff.mp h with h | h
  · exact not_mem_of_isAbsoluteId h rfl (by decide) (by decide)
  · exact not_mem_of_isIdentifier h rfl

/-- A text is an absolute id or an identifier, never both. -/
theorem isAbsoluteId_of_isIdentifier (h : isIdentifier cs = true) : isAbsoluteId cs = false := by
  rw [isAbsoluteId, Text.after?_of_not_mem (not_mem_of_isIdentifier h rfl)]

theorem isShapeId_of_isRootId (h : isRootId cs = true) : isShapeId cs = true := by
  have hroot := not_mem_of_isRootId h
  rw [isShapeId, Text.before_of_not_mem hroot, Text.after?_of_not_mem hroot, h]
  rfl

theorem isShapeId_append {root member : List Char} (hr : isRootId root = true)
    (hm : isIdentifier member = true) : isShapeId (root ++ '$' :: member) = true := by
  have hroot := not_mem_of_isRootId hr
  rw [isShapeId, Text.before_append hroot, Text.after?_append hroot]
  simp [hr, hm]

theorem isShapeId_iff : isShapeId cs = true ↔ ∃ root, isRootId root = true ∧
    (cs = root ∨ ∃ member, isIdentifier member = true ∧ cs = root ++ '$' :: member) := by
  constructor
  · intro h
    obtain ⟨hr, hm⟩ := Bool.and_eq_true_iff.mp h
    refine ⟨Text.before '$' cs, hr, ?_⟩
    cases ha : Text.after? '$' cs with
    | none => exact .inl (Text.before_of_after?_eq_none ha).symm
    | some member =>
      rw [ha] at hm
      exact .inr ⟨member, hm, (Text.before_append_after ha).symm⟩
  · rintro ⟨root, hr, rfl | ⟨member, hm, rfl⟩⟩
    · exact isShapeId_of_isRootId hr
    · exact isShapeId_append hr hm

theorem isMemberSelector_iff : isMemberSelector cs = true ↔
    ∃ member, isIdentifier member = true ∧ cs = '$' :: member := by
  unfold isMemberSelector
  split <;> simp_all

/-! The rules accept the texts that they generate. -/

theorem generates_identifier_iff {s : String} :
    Grammar.identifier s ↔ isIdentifier s.toList = true := by
  simp only [isIdentifier_iff, Grammar.isWordChar_iff, Grammar.identifier]
  refine and_iff_right_of_imp fun h => ?_
  obtain ⟨-, -, c, hc, -⟩ := h
  rintro rfl
  cases hc

theorem generates_enumMember_iff {s : String} :
    Grammar.enumMember s ↔ isEnumMember s.toList = true := by
  simp only [isEnumMember_iff, Grammar.isAlpha_iff, Grammar.enumMember, Grammar.initialLetter,
    generates_identifier_iff]

theorem generates_namespacePath_iff {s : String} :
    Grammar.namespacePath s ↔ isNamespace s.toList = true := by
  rw [isNamespace_iff]
  constructor
  · rintro ⟨parts, hne, hp, rfl⟩
    refine ⟨parts.map String.toList, by simpa using hne, ?_, String.toList_intercalate⟩
    exact List.forall_mem_map.mpr fun part hpart => generates_identifier_iff.mp (hp part hpart)
  · rintro ⟨parts, hne, hp, h⟩
    refine ⟨parts.map String.ofList, by simpa using hne, List.forall_mem_map.mpr ?_, ?_⟩
    · intro part hpart
      rw [generates_identifier_iff, String.toList_ofList]
      exact hp part hpart
    · rw [← String.toList_inj, String.toList_intercalate, List.map_map, h]
      simp [Function.comp_def]

theorem generates_absoluteId_iff {s : String} :
    Grammar.absoluteId s ↔ isAbsoluteId s.toList = true := by
  rw [isAbsoluteId_iff]
  constructor
  · rintro ⟨path, name, hp, hn, rfl⟩
    exact ⟨_, _, generates_namespacePath_iff.mp hp, generates_identifier_iff.mp hn,
      by simp [String.toList_append]⟩
  · rintro ⟨path, name, hp, hn, h⟩
    refine ⟨.ofList path, .ofList name, generates_namespacePath_iff.mpr (by simpa using hp),
      generates_identifier_iff.mpr (by simpa using hn), ?_⟩
    rw [← String.toList_inj, h]
    simp [String.toList_append]

theorem generates_rootId_iff {s : String} : Grammar.rootId s ↔ isRootId s.toList = true := by
  rw [isRootId, Bool.or_eq_true, ← generates_absoluteId_iff, ← generates_identifier_iff]
  rfl

theorem generates_shapeId_iff {s : String} : Grammar.shapeId s ↔ isShapeId s.toList = true := by
  rw [isShapeId_iff]
  constructor
  · rintro ⟨root, hr, rfl | ⟨member, hm, rfl⟩⟩
    · exact ⟨_, generates_rootId_iff.mp hr, .inl rfl⟩
    · exact ⟨_, generates_rootId_iff.mp hr,
        .inr ⟨_, generates_identifier_iff.mp hm, by simp [String.toList_append]⟩⟩
  · rintro ⟨root, hr, h⟩
    refine ⟨.ofList root, generates_rootId_iff.mpr (by simpa using hr), ?_⟩
    rcases h with h | ⟨member, hm, h⟩
    · exact .inl (String.toList_inj.mp (by simpa using h))
    · refine .inr ⟨.ofList member, generates_identifier_iff.mpr (by simpa using hm), ?_⟩
      rw [← String.toList_inj, h]
      simp [String.toList_append]

theorem generates_memberSelector_iff {s : String} :
    Grammar.memberSelector s ↔ isMemberSelector s.toList = true := by
  rw [isMemberSelector_iff]
  constructor
  · rintro ⟨member, hm, rfl⟩
    exact ⟨_, generates_identifier_iff.mp hm, by simp [String.toList_append]⟩
  · rintro ⟨member, hm, h⟩
    refine ⟨.ofList member, generates_identifier_iff.mpr (by simpa using hm), ?_⟩
    rw [← String.toList_inj, h]
    simp [String.toList_append]

theorem generates_iff {rule : Rule} {s : String} :
    rule.Generates s ↔ rule.accepts s.toList = true := by
  cases rule with
  | identifier => exact generates_identifier_iff
  | enumMember => exact generates_enumMember_iff
  | namespacePath => exact generates_namespacePath_iff
  | absoluteId => exact generates_absoluteId_iff
  | rootId => exact generates_rootId_iff
  | shapeId => exact generates_shapeId_iff
  | memberSelector => exact generates_memberSelector_iff

end Rule

/-! The regular expressions match the words that the rules accept. -/

namespace Grammar

open RegularExpression (char star)

theorem mem_oneOf {cs w : List Char} : w ∈ (oneOf cs).matches' ↔ ∃ c ∈ cs, w = [c] := by
  induction cs with
  | nil => simp [oneOf, RegularExpression.matches'_zero]
  | cons c rest ih =>
    have hsum : oneOf (c :: rest) = char c + oneOf rest := by simp [oneOf]
    rw [hsum, RegularExpression.matches'_add, Language.mem_add, ih,
      RegularExpression.matches'_char, List.exists_mem_cons_iff]
    exact or_congr_left Set.mem_singleton_iff

theorem mem_star_oneOf {cs w : List Char} :
    w ∈ (star (oneOf cs)).matches' ↔ ∀ c ∈ w, c ∈ cs := by
  rw [RegularExpression.matches'_star, Language.mem_kstar]
  constructor
  · rintro ⟨words, rfl, hwords⟩ c hc
    obtain ⟨word, hw, hin⟩ := List.mem_flatten.mp hc
    obtain ⟨d, hd, rfl⟩ := mem_oneOf.mp (hwords word hw)
    rw [List.mem_singleton.mp hin]
    exact hd
  · intro h
    refine ⟨w.map ([·]), by simp [← List.flatMap_def], List.forall_mem_map.mpr fun c hc => ?_⟩
    exact mem_oneOf.mpr ⟨c, h c hc, rfl⟩

theorem mem_ascii_iff {cs : List Char} {p : Char → Prop} (hp : ∀ c, p c → c.toNat < 128)
    (hcs : cs.all (·.toNat < 128) = true)
    (table : ∀ n < 128, Char.ofNat n ∈ cs ↔ p (Char.ofNat n)) (c : Char) : c ∈ cs ↔ p c := by
  have ascii : ∀ c ∈ cs, c.toNat < 128 := fun c hc =>
    of_decide_eq_true (List.all_eq_true.mp hcs c hc)
  by_cases h : c.toNat < 128
  · simpa [Char.ofNat_toNat] using table c.toNat h
  · exact iff_of_false (fun hc => h (ascii c hc)) fun hc => h (hp c hc)

theorem mem_letters {c : Char} : c ∈ letters ↔ letter c := by
  refine mem_ascii_iff (fun c hc => ?_) (by decide +kernel) (by decide +kernel) c
  rcases hc with hc | hc
  · exact Nat.lt_of_le_of_lt hc.2 (by decide)
  · exact Nat.lt_of_le_of_lt hc.2 (by decide)

theorem mem_digits {c : Char} : c ∈ digits ↔ digit c :=
  mem_ascii_iff (fun _ hc => Nat.lt_of_le_of_lt hc.2 (by decide)) (by decide +kernel)
    (by decide +kernel) c

theorem mem_upToTwo {w : List Char} :
    w ∈ ((1 + char '_') * (1 + char '_')).matches' ↔ ∃ k ≤ 2, w = List.replicate k '_' := by
  have optional (w : List Char) : w ∈ (1 + char '_').matches' ↔ w = [] ∨ w = ['_'] := by
    rw [RegularExpression.matches'_add, Language.mem_add, RegularExpression.matches'_epsilon,
      RegularExpression.matches'_char, Language.mem_one]
    exact or_congr_right Set.mem_singleton_iff
  simp only [RegularExpression.matches'_mul, Language.mem_mul, optional]
  constructor
  · rintro ⟨a, rfl | rfl, b, rfl | rfl, rfl⟩
    · exact ⟨0, by decide, rfl⟩
    · exact ⟨1, by decide, rfl⟩
    · exact ⟨1, by decide, rfl⟩
    · exact ⟨2, by decide, rfl⟩
  · rintro ⟨k, hk, rfl⟩
    match k, hk with
    | 0, _ => exact ⟨[], .inl rfl, [], .inl rfl, rfl⟩
    | 1, _ => exact ⟨['_'], .inr rfl, [], .inl rfl, rfl⟩
    | 2, _ => exact ⟨['_'], .inr rfl, ['_'], .inr rfl, rfl⟩

theorem word_iff {c : Char} : c ∈ letters ++ digits ++ ['_'] ↔ Rule.isWordChar c = true := by
  simp [isWordChar_iff, mem_letters, mem_digits]

theorem mem_identifierExpression {cs : List Char} :
    cs ∈ identifierExpression.matches' ↔ Rule.isIdentifier cs = true := by
  have alnum {c : Char} : c ∈ letters ++ digits ↔ c.isAlphanum = true := by
    simp [Char.isAlphanum, isAlpha_iff, isDigit_iff, mem_letters, mem_digits]
  rw [identifierExpression, RegularExpression.matches'_mul, RegularExpression.matches'_add,
    RegularExpression.matches'_mul]
  simp only [Language.mem_mul, Language.mem_add, mem_upToTwo, mem_star_oneOf, mem_oneOf, word_iff,
    alnum, mem_letters]
  constructor
  · rintro ⟨start, ⟨_, ⟨k, hk, rfl⟩, _, ⟨c, hc, rfl⟩, rfl⟩ | ⟨c, hc, rfl⟩, rest, hrest, rfl⟩
    · have hu : c ≠ '_' := by
        rintro rfl
        cases hc
      simpa [Rule.isIdentifier, hc, hu, hk] using hrest
    · have hc : c.isAlpha = true := isAlpha_iff.mpr hc
      have hu : c ≠ '_' := by
        rintro rfl
        cases hc
      simpa [Rule.isIdentifier, Char.isAlphanum, hc, hu] using hrest
  · intro h
    obtain ⟨hstart, hsolid⟩ := Bool.and_eq_true_iff.mp h
    cases hd : cs.dropWhile (· == '_') with
    | nil => simp [hd] at hsolid
    | cons c rest =>
      rw [hd] at hsolid
      obtain ⟨hc, hrest⟩ := Bool.and_eq_true_iff.mp hsolid
      have front : cs.takeWhile (· == '_') = List.replicate (cs.takeWhile (· == '_')).length '_' :=
        List.eq_replicate_of_mem fun c hc => by simpa using List.mem_takeWhile_imp hc
      refine ⟨_, .inl ⟨_, ⟨_, of_decide_eq_true hstart, front⟩, _, ⟨c, hc, rfl⟩, rfl⟩, rest,
        List.all_eq_true.mp hrest, ?_⟩
      rw [List.append_assoc, List.singleton_append, ← hd, List.takeWhile_append_dropWhile]

theorem mem_enumMemberExpression {cs : List Char} :
    cs ∈ enumMemberExpression.matches' ↔ Rule.isEnumMember cs = true := by
  simp only [enumMemberExpression, RegularExpression.matches'_mul, Language.mem_mul, mem_star_oneOf,
    mem_oneOf, word_iff, mem_letters, ← isAlpha_iff]
  constructor
  · rintro ⟨_, ⟨_, ⟨c, hc, rfl⟩, more, hmore, rfl⟩, rest, hrest, rfl⟩
    have hword : ∀ c ∈ more ++ rest, Rule.isWordChar c = true := by
      intro c hc
      rcases List.mem_append.mp hc with hc | hc
      · simp [Rule.isWordChar, Char.isAlphanum, hmore c hc]
      · exact hrest c hc
    exact Bool.and_eq_true_iff.mpr ⟨hc, List.all_eq_true.mpr hword⟩
  · intro h
    cases cs with
    | nil => cases h
    | cons c rest =>
      obtain ⟨hc, hr⟩ := Bool.and_eq_true_iff.mp h
      exact ⟨[c], ⟨[c], ⟨c, hc, rfl⟩, [], by simp, rfl⟩, rest, List.all_eq_true.mp hr, rfl⟩

end Grammar

/-! Parsing a token. -/

/-- The value is a text that the rule generates. -/
def Value.Generated (rule : Rule) (value : Value) : Prop := ∃ s, value = .str s ∧ rule.Generates s

namespace Token
variable {rule : Rule}

theorem parse_of_generates (rule : Rule) {s : String} (h : rule.Generates s) :
    parse rule (.str s) = .ok ⟨s⟩ := by
  simp [parse, read?, Rule.generates_iff.mp h]

theorem parse_of_not_generates {value : Value}
    (h : ¬ value.Generated rule) : parse rule value = .error ⟨value, rule⟩ := by
  unfold parse
  split
  · rename_i s
    have hs : ¬ rule.accepts s.toList = true := fun ha => h ⟨s, rfl, Rule.generates_iff.mpr ha⟩
    simp [read?, hs]
  · rfl

theorem parse_eq_ok_iff_generates {value : Value} {token : Token rule} :
    parse rule value = .ok token ↔ ∃ s, value = .str s ∧ rule.Generates s ∧ token = ⟨s⟩ := by
  constructor
  · intro h
    by_cases hg : value.Generated rule
    · obtain ⟨s, rfl, hs⟩ := hg
      rw [parse_of_generates rule hs] at h
      exact ⟨s, rfl, hs, (Except.ok.inj h).symm⟩
    · rw [parse_of_not_generates hg] at h
      cases h
  · rintro ⟨s, rfl, hs, rfl⟩
    exact parse_of_generates rule hs

theorem parse_eq_error_iff_generates {value : Value} {refusal : Refusal} :
    parse rule value = .error refusal ↔ ¬ value.Generated rule ∧ refusal = ⟨value, rule⟩ := by
  constructor
  · intro h
    by_cases hg : value.Generated rule
    · obtain ⟨s, rfl, hs⟩ := hg
      rw [parse_of_generates rule hs] at h
      cases h
    · rw [parse_of_not_generates hg] at h
      exact ⟨hg, (Except.error.inj h).symm⟩
  · rintro ⟨hg, rfl⟩
    exact parse_of_not_generates hg

theorem isOk_parse_iff {value : Value} : (parse rule value).isOk = true ↔ value.Generated rule := by
  by_cases h : value.Generated rule
  · obtain ⟨s, rfl, hs⟩ := h
    rw [parse_of_generates rule hs]
    exact iff_of_true rfl ⟨s, rfl, hs⟩
  · rw [parse_of_not_generates h]
    exact iff_of_false (by simp [Except.isOk, Except.toBool]) h

end Token

instance (rule : Rule) (value : Value) : Decidable (value.Generated rule) :=
  decidable_of_iff _ Token.isOk_parse_iff

example : (Value.str "a._b#__C$d").Generated .shapeId := by decide

example : ¬ (Value.str "a#b#C").Generated .absoluteId := by decide

theorem Value.generated_str_iff {rule : Rule} {s : String} :
    (Value.str s).Generated rule ↔ rule.Generates s := by
  constructor
  · rintro ⟨t, he, ht⟩
    cases he
    exact ht
  · exact fun h => ⟨s, rfl, h⟩

theorem Value.generated_iff {rule : Rule} {value : Value} :
    value.Generated rule ↔ ∃ s, value = .str s ∧ rule.accepts s.toList = true := by
  simp only [Generated, Rule.generates_iff]

theorem isIdentifier_iff_generated {value : Value} :
    isIdentifier value = true ↔ value.Generated .identifier := by
  rw [Value.generated_iff]
  unfold isIdentifier
  split <;> simp_all

theorem isEnumMemberName_iff_generated {value : Value} :
    isEnumMemberName value = true ↔ value.Generated .enumMember := by
  rw [Value.generated_iff]
  unfold isEnumMemberName
  split <;> simp_all

namespace RootId

theorem parse_of_absolute {s : String} (h : Grammar.absoluteId s) :
    parse (.str s) = .ok (.absolute ⟨s⟩) := by
  rw [parse, Token.parse_of_generates .absoluteId h]

theorem parse_of_identifier {s : String} (h : Grammar.identifier s) :
    parse (.str s) = .ok (.relative ⟨s⟩) := by
  have apart : ¬ (Value.str s).Generated .absoluteId := by
    rintro ⟨t, he, ht⟩
    cases he
    have hf := Rule.isAbsoluteId_of_isIdentifier (Rule.generates_identifier_iff.mp h)
    have ht := Rule.generates_absoluteId_iff.mp ht
    rw [hf] at ht
    cases ht
  rw [parse, Token.parse_of_not_generates apart,
    Token.parse_of_generates .identifier h]

theorem parse_of_not_generates {value : Value}
    (h : ¬ value.Generated .rootId) :
    parse value = .error ⟨value, .rootId⟩ := by
  have absolute : ¬ value.Generated .absoluteId :=
    fun ⟨s, hv, hs⟩ => h ⟨s, hv, .inl hs⟩
  have identifier : ¬ value.Generated .identifier :=
    fun ⟨s, hv, hs⟩ => h ⟨s, hv, .inr hs⟩
  rw [parse, Token.parse_of_not_generates absolute, Token.parse_of_not_generates identifier]

theorem parse_eq_ok_iff_generates {value : Value} {id : RootId} :
    parse value = .ok id ↔ ∃ s, value = .str s ∧
      (Grammar.absoluteId s ∧ id = .absolute ⟨s⟩ ∨ Grammar.identifier s ∧ id = .relative ⟨s⟩) := by
  constructor
  · intro h
    by_cases hg : value.Generated .rootId
    · obtain ⟨s, rfl, hs | hs⟩ := hg
      · rw [parse_of_absolute hs] at h
        exact ⟨s, rfl, .inl ⟨hs, (Except.ok.inj h).symm⟩⟩
      · rw [parse_of_identifier hs] at h
        exact ⟨s, rfl, .inr ⟨hs, (Except.ok.inj h).symm⟩⟩
    · rw [parse_of_not_generates hg] at h
      cases h
  · rintro ⟨s, rfl, ⟨hs, rfl⟩ | ⟨hs, rfl⟩⟩
    · exact parse_of_absolute hs
    · exact parse_of_identifier hs

theorem parse_eq_error_iff_generates {value : Value} {refusal : Refusal} :
    parse value = .error refusal ↔ ¬ value.Generated .rootId ∧ refusal = ⟨value, .rootId⟩ := by
  constructor
  · intro h
    by_cases hg : value.Generated .rootId
    · obtain ⟨s, rfl, hs | hs⟩ := hg
      · rw [parse_of_absolute hs] at h
        cases h
      · rw [parse_of_identifier hs] at h
        cases h
    · rw [parse_of_not_generates hg] at h
      exact ⟨hg, (Except.error.inj h).symm⟩
  · rintro ⟨hg, rfl⟩
    exact parse_of_not_generates hg

end RootId

/-- Parsing accepts exactly the texts that a rule generates and leaves them unchanged; it refuses
any other value, and names the value and the rule. Among root ids the absolute ones are told apart
from the identifiers. -/
theorem parses_exactly_generated (value : Value) :
    (∀ rule, ∀ token : Token rule, Token.parse rule value = .ok token ↔
      ∃ s, value = .str s ∧ rule.Generates s ∧ token = ⟨s⟩) ∧
    (∀ rule refusal, Token.parse rule value = .error refusal ↔
      (¬ ∃ s, value = .str s ∧ rule.Generates s) ∧ refusal = ⟨value, rule⟩) ∧
    (∀ id, RootId.parse value = .ok id ↔ ∃ s, value = .str s ∧
      (Grammar.absoluteId s ∧ id = .absolute ⟨s⟩ ∨ Grammar.identifier s ∧ id = .relative ⟨s⟩)) ∧
    (∀ refusal, RootId.parse value = .error refusal ↔
      (¬ ∃ s, value = .str s ∧ Grammar.rootId s) ∧ refusal = ⟨value, .rootId⟩) ∧
    ∀ s, (Grammar.identifier s ↔ s.toList ∈ Grammar.identifierExpression.matches') ∧
      (Grammar.enumMember s ↔ s.toList ∈ Grammar.enumMemberExpression.matches') := by
  refine ⟨fun _ _ => Token.parse_eq_ok_iff_generates, fun _ _ => Token.parse_eq_error_iff_generates,
    fun _ => RootId.parse_eq_ok_iff_generates, fun _ => RootId.parse_eq_error_iff_generates,
    fun s => ⟨?_, ?_⟩⟩
  · rw [Grammar.mem_identifierExpression, Rule.generates_identifier_iff]
  · rw [Grammar.mem_enumMemberExpression, Rule.generates_enumMember_iff]

end ServiceModel
