import ServiceModel.Proofs.Identifier.Language
import ServiceModel.Proofs.Shape.Spelling

/-!
# Parts of identifiers

An identifier is put together from its parts with dots, a number sign and a dollar sign. Reading the
parts does not use the rules: a namespace ends at the first number sign and a name begins after the
last one. For an accepted text there is only one separator of each kind, so that the parts are the
ones it was put together from, and they are accepted themselves.
-/
namespace ServiceModel

namespace Token
variable {rule : Rule}

theorem accepted_iff_generates {token : Token rule} :
    token.Accepted ↔ rule.Generates token.text := by
  rw [accepted_iff, Rule.generates_iff]

theorem ofChars_toList (s : String) : (ofChars s.toList : Token rule) = ⟨s⟩ := by
  simp [ofChars]

theorem not_mem_of_accepted {token : Identifier} (h : token.Accepted) (sep : Char)
    (hsep : Rule.isWordChar sep = false) : sep ∉ token.text.toList :=
  Rule.not_mem_of_isIdentifier (accepted_iff.mp h) hsep

end Token

/-! Joining the parts. -/

def Namespace.join (segments : List Identifier) : String :=
  ".".intercalate (segments.map Token.text)

def AbsoluteId.join (path : String) (name : Identifier) : String := path ++ "#" ++ name.text

def RootId.join (path? : Option Namespace) (name : Identifier) : String :=
  match path? with
  | some path => AbsoluteId.join path.text name
  | none => name.text

def ShapeId.join (root : String) (member? : Option Identifier) : String :=
  match member? with
  | some member => root ++ "$" ++ member.text
  | none => root

def MemberSelector.join (member : Identifier) : String := "$" ++ member.text

/-! The parts of what was joined. -/

namespace Namespace
variable {segments : List Identifier}

theorem generates_join (hne : segments ≠ []) (h : ∀ segment ∈ segments, segment.Accepted) :
    Grammar.namespacePath (join segments) := by
  refine ⟨segments.map Token.text, by simpa using hne, List.forall_mem_map.mpr ?_, rfl⟩
  intro segment hs
  exact Token.accepted_iff_generates.mp (h segment hs)

theorem segments_join (hne : segments ≠ []) (h : ∀ segment ∈ segments, segment.Accepted) :
    Namespace.segments ⟨join segments⟩ = segments := by
  have dots : ∀ part ∈ (segments.map Token.text).map String.toList, '.' ∉ part := by
    rw [List.map_map]
    exact List.forall_mem_map.mpr fun segment hs => Token.not_mem_of_accepted (h segment hs) '.' rfl
  have cut := Text.pieces_intercalate (by simpa using hne) dots
  rw [Namespace.segments, join, String.toList_intercalate]
  refine (congrArg (List.map Token.ofChars) cut).trans ?_
  rw [List.map_map, List.map_map]
  exact List.map_id'' (fun segment => Token.ofChars_toList segment.text) segments

theorem exists_join_of_accepted {ns : Namespace} (h : ns.Accepted) :
    ∃ segments, segments ≠ [] ∧ (∀ segment ∈ segments, segment.Accepted) ∧
      ns = ⟨join segments⟩ := by
  obtain ⟨parts, hne, hp, ht⟩ := Token.accepted_iff_generates.mp h
  refine ⟨parts.map Token.mk, by simpa using hne, List.forall_mem_map.mpr fun part hpart => ?_, ?_⟩
  · exact Token.accepted_iff_generates.mpr (hp part hpart)
  · simp [join, List.map_map, Function.comp_def, ← ht]

end Namespace

namespace AbsoluteId
variable {path : Namespace} {name : Identifier}

theorem toList_join :
    (join path.text name).toList = path.text.toList ++ '#' :: name.text.toList := by
  simp [join, String.toList_append]

theorem generates_join (hp : path.Accepted) (hn : name.Accepted) :
    Grammar.absoluteId (join path.text name) :=
  ⟨_, _, Token.accepted_iff_generates.mp hp, Token.accepted_iff_generates.mp hn, rfl⟩

theorem namespacePart_join (hp : path.Accepted) : namespacePart ⟨join path.text name⟩ = path := by
  have sharp : '#' ∉ path.text.toList :=
    Rule.not_mem_of_isNamespace (Token.accepted_iff.mp hp) rfl (by decide)
  rw [namespacePart, toList_join, Text.before_append sharp, Token.ofChars_toList]

theorem name_join (hn : name.Accepted) : AbsoluteId.name ⟨join path.text name⟩ = name := by
  rw [AbsoluteId.name, toList_join, Text.afterLast_append (Token.not_mem_of_accepted hn '#' rfl),
    Token.ofChars_toList]

theorem isAbsolute_join : isAbsolute ⟨join path.text name⟩ = true := by
  simp [isAbsolute, toList_join]

theorem exists_join_of_accepted {id : AbsoluteId} (h : id.Accepted) :
    ∃ (path : Namespace) (name : Identifier), path.Accepted ∧ name.Accepted ∧
      id = ⟨join path.text name⟩ := by
  obtain ⟨path, name, hp, hn, ht⟩ := Token.accepted_iff_generates.mp h
  refine ⟨⟨path⟩, ⟨name⟩, Token.accepted_iff_generates.mpr hp,
    Token.accepted_iff_generates.mpr hn, ?_⟩
  simp [join, ← ht]

end AbsoluteId

namespace RootId
variable {name : Identifier}

theorem isAbsolute_of_accepted (hn : name.Accepted) :
    isAbsolute (.relative ⟨name.text⟩) = false := by
  simpa [isAbsolute, RootId.text] using Token.not_mem_of_accepted hn '#' rfl

theorem namespacePart?_of_accepted (hn : name.Accepted) :
    namespacePart? (.relative ⟨name.text⟩) = none := by
  simpa [namespacePart?] using Token.not_mem_of_accepted hn '#' rfl

theorem name_of_accepted (hn : name.Accepted) :
    RootId.name (.relative ⟨name.text⟩) = name := by
  simp only [RootId.name, RootId.text]
  rw [Text.afterLast_of_not_mem (Token.not_mem_of_accepted hn '#' rfl), Token.ofChars_toList]

theorem parse_eq_ok_iff_accepted {s : String} {id : RootId} : parse (.str s) = .ok id ↔
    (∃ absolute : AbsoluteId, absolute.Accepted ∧ s = absolute.text ∧ id = .absolute absolute) ∨
    ∃ name : Identifier, name.Accepted ∧ s = name.text ∧ id = .relative ⟨name.text⟩ := by
  rw [parse_eq_ok_iff_generates]
  constructor
  · rintro ⟨t, he, ⟨ht, rfl⟩ | ⟨ht, rfl⟩⟩
    all_goals cases he
    · exact .inl ⟨⟨s⟩, Token.accepted_iff_generates.mpr ht, rfl, rfl⟩
    · exact .inr ⟨⟨s⟩, Token.accepted_iff_generates.mpr ht, rfl, rfl⟩
  · rintro (⟨absolute, ha, rfl, rfl⟩ | ⟨name, hn, rfl, rfl⟩)
    · exact ⟨_, rfl, .inl ⟨Token.accepted_iff_generates.mp ha, rfl⟩⟩
    · exact ⟨_, rfl, .inr ⟨Token.accepted_iff_generates.mp hn, rfl⟩⟩

theorem ofChars_of_parse {s : String} {id : RootId} (h : parse (.str s) = .ok id) :
    ofChars s.toList = id := by
  rcases parse_eq_ok_iff_accepted.mp h with ⟨absolute, ha, rfl, rfl⟩ | ⟨name, hn, rfl, rfl⟩
  · obtain ⟨path, name, -, -, rfl⟩ := AbsoluteId.exists_join_of_accepted ha
    have sharp : '#' ∈ (AbsoluteId.join path.text name).toList := by simp [AbsoluteId.toList_join]
    simp [ofChars, sharp, Token.ofChars]
  · have sharp := Token.not_mem_of_accepted hn '#' rfl
    simp [ofChars, sharp, Token.ofChars]

end RootId

namespace ShapeId
variable {s : String} {root : RootId} {member? : Option Identifier}

theorem generates_of_parse (h : RootId.parse (.str s) = .ok root) : Grammar.rootId s := by
  obtain ⟨t, he, ht⟩ := RootId.parse_eq_ok_iff_generates.mp h
  cases he
  exact ht.imp And.left And.left

theorem generates_join (hr : RootId.parse (.str root.text) = .ok root)
    (hm : ∀ member ∈ member?, member.Accepted) : Grammar.shapeId (join root.text member?) := by
  have rooted := generates_of_parse hr
  cases member? with
  | none => exact ⟨_, rooted, .inl rfl⟩
  | some member =>
    have hm := Token.accepted_iff_generates.mp (hm member rfl)
    exact ⟨_, rooted, .inr ⟨_, hm, rfl⟩⟩

theorem not_mem_of_parse (h : RootId.parse (.str s) = .ok root) : '$' ∉ s.toList :=
  Rule.not_mem_of_isRootId (Rule.generates_rootId_iff.mp (generates_of_parse h))

theorem toList_join_some (text : String) (member : Identifier) :
    (join text (some member)).toList = text.toList ++ '$' :: member.text.toList := by
  simp [join, String.toList_append]

theorem root_join (hr : RootId.parse (.str root.text) = .ok root) :
    ShapeId.root ⟨join root.text member?⟩ = root := by
  have dollar := not_mem_of_parse hr
  cases member? with
  | none => rw [ShapeId.root, join, Text.before_of_not_mem dollar, RootId.ofChars_of_parse hr]
  | some member =>
    rw [ShapeId.root, toList_join_some, Text.before_append dollar, RootId.ofChars_of_parse hr]

theorem member?_join (hr : RootId.parse (.str root.text) = .ok root) :
    ShapeId.member? ⟨join root.text member?⟩ = member? := by
  have dollar := not_mem_of_parse hr
  cases member? with
  | none => rw [ShapeId.member?, join, Text.after?_of_not_mem dollar, Option.map_none]
  | some member =>
    rw [ShapeId.member?, toList_join_some, Text.after?_append dollar, Option.map_some,
      Token.ofChars_toList]

theorem exists_join_of_accepted {id : ShapeId} (h : id.Accepted) :
    ∃ root member?, RootId.parse (.str root.text) = .ok root ∧
      (∀ member ∈ member?, member.Accepted) ∧ id = ⟨join root.text member?⟩ := by
  obtain ⟨text, hroot, hm⟩ := Token.accepted_iff_generates.mp h
  obtain ⟨root, hr, rfl⟩ : ∃ root, RootId.parse (.str text) = .ok root ∧ root.text = text := by
    rcases hroot with ha | hi
    · exact ⟨_, RootId.parse_of_absolute ha, rfl⟩
    · exact ⟨_, RootId.parse_of_identifier hi, rfl⟩
  rcases hm with ht | ⟨member, hm, ht⟩
  · refine ⟨root, none, hr, by simp, ?_⟩
    simp [join, ← ht]
  · refine ⟨root, some ⟨member⟩, hr, ?_, ?_⟩
    · rintro _ ⟨⟩
      exact Token.accepted_iff_generates.mpr hm
    · simp [join, ← ht]

end ShapeId

/-! Each way of joining and its converse. -/

theorem Token.text_of_parse {rule : Rule} {s : String} {token : Token rule}
    (h : parse rule (.str s) = .ok token) : s = token.text ∧ token.Accepted := by
  obtain ⟨he, ha⟩ := parse_eq_ok_iff.mp h
  cases he
  exact ⟨rfl, ha⟩

theorem RootId.parse_text_absolute {id : AbsoluteId} (h : id.Accepted) :
    parse (.str (RootId.absolute id).text) = .ok (.absolute id) :=
  parse_of_absolute (Token.accepted_iff_generates.mp h)

theorem RootId.parse_text_relative {name : Identifier} (h : name.Accepted) :
    parse (.str (RootId.relative ⟨name.text⟩).text) = .ok (.relative ⟨name.text⟩) :=
  parse_of_identifier (Token.accepted_iff_generates.mp h)

theorem ShapeId.parse_join (root : RootId) {member? : Option Identifier}
    (hr : RootId.parse (.str root.text) = .ok root) (hm : ∀ member ∈ member?, member.Accepted) :
    ∃ id : ShapeId, Token.parse .shapeId (.str (join root.text member?)) = .ok id ∧
      id.root = root ∧ id.member? = member? :=
  ⟨⟨_⟩, Token.parse_of_generates .shapeId (generates_join hr hm), root_join hr,
    member?_join hr⟩

theorem ShapeId.parse_join_absolute {segments : List Identifier} {name : Identifier}
    {member? : Option Identifier} (hne : segments ≠ [])
    (hs : ∀ segment ∈ segments, segment.Accepted) (hn : name.Accepted)
    (hm : ∀ member ∈ member?, member.Accepted) :
    ∃ (id : ShapeId) (root : AbsoluteId),
      Token.parse .shapeId
        (.str (join (AbsoluteId.join (Namespace.join segments) name) member?)) = .ok id ∧
      id.root = .absolute root ∧ root.isAbsolute = true ∧
      root.namespacePart.segments = segments ∧ root.name = name ∧ id.member? = member? := by
  have hp : Token.Accepted (⟨Namespace.join segments⟩ : Namespace) :=
    Token.accepted_iff_generates.mpr (Namespace.generates_join hne hs)
  have ha : Token.Accepted (⟨AbsoluteId.join (Namespace.join segments) name⟩ : AbsoluteId) :=
    Token.accepted_iff_generates.mpr (AbsoluteId.generates_join hp hn)
  obtain ⟨id, hid, hroot, hmember⟩ := parse_join (.absolute _) (RootId.parse_text_absolute ha) hm
  have path : AbsoluteId.namespacePart ⟨AbsoluteId.join (Namespace.join segments) name⟩ =
      ⟨Namespace.join segments⟩ := AbsoluteId.namespacePart_join hp
  refine ⟨id, _, hid, hroot, AbsoluteId.isAbsolute_join, ?_, AbsoluteId.name_join hn, hmember⟩
  rw [path, Namespace.segments_join hne hs]

theorem ShapeId.parse_join_relative {name : Identifier} {member? : Option Identifier}
    (hn : name.Accepted) (hm : ∀ member ∈ member?, member.Accepted) :
    ∃ (id : ShapeId) (root : Token .rootId),
      Token.parse .shapeId (.str (join name.text member?)) = .ok id ∧
      id.root = .relative root ∧ id.root.isAbsolute = false ∧ id.root.namespacePart? = none ∧
      id.root.name = name ∧ id.member? = member? := by
  obtain ⟨id, hid, hroot, hmember⟩ := parse_join (.relative _) (RootId.parse_text_relative hn) hm
  refine ⟨id, _, hid, hroot, ?_, ?_, ?_, hmember⟩
  · rw [hroot, RootId.isAbsolute_of_accepted hn]
  · rw [hroot, RootId.namespacePart?_of_accepted hn]
  · rw [hroot, RootId.name_of_accepted hn]

theorem ShapeId.rejoin {id : ShapeId} (h : id.Accepted) :
    RootId.parse (.str id.root.text) = .ok id.root ∧ (∀ member ∈ id.member?, member.Accepted) ∧
      join id.root.text id.member? = id.text := by
  obtain ⟨root, member?, hr, hm, rfl⟩ := exists_join_of_accepted h
  rw [root_join hr, member?_join hr]
  exact ⟨hr, hm, rfl⟩

theorem AbsoluteId.rejoin {id : AbsoluteId} (h : id.Accepted) :
    id.namespacePart.Accepted ∧ id.name.Accepted ∧ id.isAbsolute = true ∧
      join id.namespacePart.text id.name = id.text := by
  obtain ⟨path, name, hp, hn, rfl⟩ := exists_join_of_accepted h
  rw [namespacePart_join hp, name_join hn]
  exact ⟨hp, hn, isAbsolute_join, rfl⟩

theorem RootId.rejoin {s : String} {id : RootId} (h : parse (.str s) = .ok id) :
    (∀ path ∈ id.namespacePart?, path.Accepted) ∧ id.name.Accepted ∧
      (id.isAbsolute = true ↔ ∃ absolute, id = .absolute absolute) ∧
      (id.namespacePart?.isSome = true ↔ ∃ absolute, id = .absolute absolute) ∧
      join id.namespacePart? id.name = s := by
  rcases parse_eq_ok_iff_accepted.mp h with ⟨absolute, ha, rfl, rfl⟩ | ⟨name, hn, rfl, rfl⟩
  · obtain ⟨hp, hn, hi, hj⟩ := AbsoluteId.rejoin ha
    refine ⟨?_, hn, iff_of_true hi ⟨_, rfl⟩, iff_of_true rfl ⟨_, rfl⟩, hj⟩
    rintro path ⟨⟩
    exact hp
  · rw [name_of_accepted hn, isAbsolute_of_accepted hn, namespacePart?_of_accepted hn]
    exact ⟨by simp, hn, by simp, by simp, rfl⟩

theorem Namespace.rejoin {ns : Namespace} (h : ns.Accepted) :
    ns.segments ≠ [] ∧ (∀ segment ∈ ns.segments, segment.Accepted) ∧
      join ns.segments = ns.text := by
  obtain ⟨segments, hne, hs, rfl⟩ := exists_join_of_accepted h
  rw [segments_join hne hs]
  exact ⟨hne, hs, rfl⟩

theorem MemberSelector.rejoin {selector : MemberSelector} (h : selector.Accepted) :
    selector.member.Accepted ∧ join selector.member = selector.text := by
  obtain ⟨text, hm, ht⟩ := Token.accepted_iff_generates.mp h
  have member : selector.member = ⟨text⟩ := by
    rw [MemberSelector.member, ht]
    simp [String.toList_append, Token.ofChars]
  rw [member]
  exact ⟨Token.accepted_iff_generates.mpr hm, ht.symm⟩

/-- Joining and reading the parts are inverse to each other, and the parts are accepted by the rules
of their own kinds. -/
theorem parts_rejoin :
    (∀ (segments : List Identifier) (name : Identifier) (member? : Option Identifier),
      segments ≠ [] → (∀ segment ∈ segments, segment.Accepted) → name.Accepted →
      (∀ member ∈ member?, member.Accepted) →
      ∃ (id : ShapeId) (root : AbsoluteId),
        Token.parse .shapeId
          (.str (ShapeId.join (AbsoluteId.join (Namespace.join segments) name) member?)) = .ok id ∧
        id.root = .absolute root ∧ root.isAbsolute = true ∧
        root.namespacePart.segments = segments ∧ root.name = name ∧ id.member? = member?) ∧
    (∀ (name : Identifier) (member? : Option Identifier), name.Accepted →
      (∀ member ∈ member?, member.Accepted) →
      ∃ (id : ShapeId) (root : Token .rootId),
        Token.parse .shapeId (.str (ShapeId.join name.text member?)) = .ok id ∧
        id.root = .relative root ∧ id.root.isAbsolute = false ∧ id.root.namespacePart? = none ∧
        id.root.name = name ∧ id.member? = member?) ∧
    (∀ (s : String) (id : ShapeId), Token.parse .shapeId (.str s) = .ok id →
      RootId.parse (.str id.root.text) = .ok id.root ∧
      (∀ member ∈ id.member?, member.Accepted) ∧ ShapeId.join id.root.text id.member? = s) ∧
    (∀ (s : String) (id : RootId), RootId.parse (.str s) = .ok id →
      (∀ path ∈ id.namespacePart?, path.Accepted) ∧ id.name.Accepted ∧
      (id.isAbsolute = true ↔ ∃ absolute, id = .absolute absolute) ∧
      (id.namespacePart?.isSome = true ↔ ∃ absolute, id = .absolute absolute) ∧
      RootId.join id.namespacePart? id.name = s) ∧
    (∀ (s : String) (id : AbsoluteId), Token.parse .absoluteId (.str s) = .ok id →
      id.namespacePart.Accepted ∧ id.name.Accepted ∧ id.isAbsolute = true ∧
      AbsoluteId.join id.namespacePart.text id.name = s) ∧
    (∀ (s : String) (path : Namespace), Token.parse .namespacePath (.str s) = .ok path →
      path.segments ≠ [] ∧ (∀ segment ∈ path.segments, segment.Accepted) ∧
      Namespace.join path.segments = s) ∧
    ∀ (s : String) (selector : MemberSelector),
      Token.parse .memberSelector (.str s) = .ok selector →
      selector.member.Accepted ∧ MemberSelector.join selector.member = s := by
  refine ⟨fun segments name member? hne hs hn hm => ShapeId.parse_join_absolute hne hs hn hm,
    fun name member? hn hm => ShapeId.parse_join_relative hn hm, ?shapeId,
    fun s id h => RootId.rejoin h, ?absoluteId, ?namespacePath, ?selector⟩
  case shapeId =>
    intro s id h
    obtain ⟨rfl, ha⟩ := Token.text_of_parse h
    exact ShapeId.rejoin ha
  case absoluteId =>
    intro s id h
    obtain ⟨rfl, ha⟩ := Token.text_of_parse h
    exact AbsoluteId.rejoin ha
  case namespacePath =>
    intro s path h
    obtain ⟨rfl, ha⟩ := Token.text_of_parse h
    exact Namespace.rejoin ha
  case selector =>
    intro s selector h
    obtain ⟨rfl, ha⟩ := Token.text_of_parse h
    exact MemberSelector.rejoin ha

theorem parts_rejoin_widget :
    (∃ (id : ShapeId) (root : AbsoluteId),
      Token.parse .shapeId (.str "com.example#Widget$size") = .ok id ∧ id.root = .absolute root ∧
      root.isAbsolute = true ∧ root.namespacePart.segments = [⟨"com"⟩, ⟨"example"⟩] ∧
      root.name = ⟨"Widget"⟩ ∧ id.member? = some ⟨"size"⟩) ∧
    (∃ (id : ShapeId) (root : Token .rootId),
      Token.parse .shapeId (.str "Widget$size") = .ok id ∧ id.root = .relative root ∧
      id.root.isAbsolute = false ∧ id.root.namespacePart? = none ∧ id.root.name = ⟨"Widget"⟩ ∧
      id.member? = some ⟨"size"⟩) ∧
    ShapeId.join "com.example#Widget" (some ⟨"size"⟩) = "com.example#Widget$size" ∧
    RootId.join (some ⟨"com.example"⟩) ⟨"Widget"⟩ = "com.example#Widget" ∧
    AbsoluteId.join "com.example" ⟨"Widget"⟩ = "com.example#Widget" ∧
    Namespace.join [⟨"com"⟩, ⟨"example"⟩] = "com.example" ∧
    MemberSelector.join ⟨"size"⟩ = "$size" := by
  have accepted : ∀ segment ∈ ["com", "example", "Widget", "size"],
      Token.Accepted (⟨segment⟩ : Identifier) := by
    intro segment hs
    apply Token.accepted_iff.mpr
    revert hs segment
    decide
  have size : ∀ member ∈ some (⟨"size"⟩ : Identifier), member.Accepted := by
    rintro _ ⟨⟩
    exact accepted _ (by decide)
  obtain ⟨absolute, relative, shapeId, rootId, absoluteId, namespacePath, selector⟩ := parts_rejoin
  refine ⟨absolute [⟨"com"⟩, ⟨"example"⟩] ⟨"Widget"⟩ (some ⟨"size"⟩) (by decide) ?_
      (accepted _ (by decide)) size,
    relative ⟨"Widget"⟩ (some ⟨"size"⟩) (accepted _ (by decide)) size,
    (shapeId "com.example#Widget$size" ⟨"com.example#Widget$size"⟩ (by rfl)).2.2,
    (rootId "com.example#Widget" (.absolute ⟨"com.example#Widget"⟩) (by rfl)).2.2.2.2,
    (absoluteId "com.example#Widget" ⟨"com.example#Widget"⟩ (by rfl)).2.2.2,
    (namespacePath "com.example" ⟨"com.example"⟩ (by rfl)).2.2,
    (selector "$size" ⟨"$size"⟩ (by rfl)).2⟩
  intro segment hs
  rcases List.mem_pair.mp hs with rfl | rfl
  · exact accepted _ (by decide)
  · exact accepted _ (by decide)

end ServiceModel
