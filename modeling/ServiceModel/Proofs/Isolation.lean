import ServiceModel.Proofs.Independence
import ServiceModel.Proofs.Lexical
import ServiceModel.Proofs.Structural

/-!
# The fields of a definition are validated independently

What is wrong with the value of a field is reported below that field. With another value there, all
other issues stay as they are and in their order: what is complained about elsewhere is the same,
and neither the order of complaints nor the removal of issues that are alike lets one field bear on
another.
-/
namespace ServiceModel

namespace Issue

/-- The issues at places that are not below this path. -/
def outside (path : Path) (issues : List Issue) : List Issue :=
  issues.filter fun issue => ¬ path <+: issue.path

theorem outside_append (path : Path) (issues others : List Issue) :
    outside path (issues ++ others) = outside path issues ++ outside path others :=
  List.filter_append _ _

theorem outside_flatMap {α : Type} (path : Path) (items : List α) (f : α → List Issue) :
    outside path (items.flatMap f) = items.flatMap fun a => outside path (f a) :=
  List.filter_flatMap

theorem outside_under (p q : Path) (issues : List Issue) :
    outside (p ++ q) (issues.map (under p)) = (outside q issues).map (under p) := by
  rw [outside, List.filter_map]
  simp only [Function.comp_def, under, List.prefix_append_right_inj]
  rfl

theorem outside_below (p : Path) (issues : List Issue) : outside p (issues.map (under p)) = [] := by
  refine List.filter_eq_nil_iff.mpr (List.forall_mem_map.mpr fun issue _ => ?_)
  simp [under]

end Issue

namespace Issue

theorem below_iff_of_alike {a b : Issue} (h : a.alike b = true) (name : String) :
    [.str name] <+: a.path ↔ [.str name] <+: b.path := by
  have hp : Value.equalAll a.path b.path = true := (Bool.and_eq_true_iff.mp h).2
  cases ha : a.path with
  | nil =>
    cases hb : b.path with
    | nil => rfl
    | cons y ys =>
      rw [ha, hb] at hp
      cases hp
  | cons x xs =>
    cases hb : b.path with
    | nil =>
      rw [ha, hb] at hp
      cases hp
    | cons y ys =>
      rw [ha, hb, Value.equalAll] at hp
      have hxy := (Bool.and_eq_true_iff.mp hp).1
      simp only [List.cons_prefix_cons, List.nil_prefix, and_true]
      constructor
      · rintro rfl
        exact (Value.str_equal_iff.mp hxy).symm
      · rintro rfl
        exact (Value.equal_str_iff.mp hxy).symm

theorem outside_firsts (name : String) (issues : List Issue) :
    outside [.str name] (firsts issues) = firsts (outside [.str name] issues) :=
  filter_firsts (fun _ _ h => by simp [below_iff_of_alike h]) issues

end Issue

/-! What the structural rules say about a mapping does not depend on the value of a field, except
below that field. -/

namespace Check
variable {es : Entries Value} {name : String}

theorem unexpected_insert {known : List String} (hk : name ∈ known) (es : Entries Value)
    (value : Value) : unexpected known (es.insert (.str name) value) = unexpected known es := by
  have expected : ∀ key : Key, key.same (.str name) = true →
      (known.any fun other => key.same (.str other)) = true :=
    fun key h => List.any_eq_true.mpr ⟨name, hk, h⟩
  unfold unexpected
  congr 1
  induction es with
  | nil => simp [Entries.insert, expected _ (Key.str_same_self name)]
  | cons e rest ih =>
    obtain ⟨k, v⟩ := e
    unfold Entries.insert
    split
    · rename_i hs
      simp [expected k hs]
    · rw [List.filter_cons, List.filter_cons, ih]

theorem missing_insert (hf : (es.field? name).isSome = true) (required : List String)
    (value : Value) : missing required (es.insert (.str name) value) = missing required es := by
  unfold missing
  congr 1
  refine List.filter_congr fun other _ => ?_
  rw [Entries.field?_insert]
  split
  · rename_i h
    rw [← h, Option.isNone_some, Option.isNone_eq_false_iff.mpr hf]
  · rfl

/-- The complaint is about something that is not below the field. -/
def outside (name : String) (cs : List Complaint) : List Complaint :=
  cs.filter fun c => ¬ [.str name] <+: c.issue.path

theorem outside_field (es : Entries Value) (check : Check) :
    outside name (field es name check) = [] := by
  unfold outside field
  cases es.field? name with
  | none => rfl
  | some value =>
    refine List.filter_eq_nil_iff.mpr (List.forall_mem_map.mpr fun c _ => ?_)
    simp [Complaint.issue_under, Issue.under]

theorem outside_record {fields : List (String × Check)} (required : List String)
    (hk : name ∈ fields.map (·.1)) (hf : (es.field? name).isSome = true) (value : Value) :
    outside name (record fields required (.map (es.insert (.str name) value))) =
      outside name (record fields required (.map es)) := by
  have below : outside name (fields.flatMap fun f => field (es.insert (.str name) value) f.1 f.2) =
      outside name (fields.flatMap fun f => field es f.1 f.2) := by
    rw [outside, outside, List.filter_flatMap, List.filter_flatMap]
    refine List.flatMap_congr fun f _ => ?_
    by_cases h : f.1 = name
    · exact h ▸ (outside_field _ f.2).trans (outside_field es f.2).symm
    · rw [field, field, Entries.field?_insert, if_neg (Ne.symm h)]
  rw [record, record, unexpected_insert hk, missing_insert hf]
  simp only [outside, List.filter_append] at below ⊢
  rw [below]

end Check

namespace ShapeType

/-- The field can stand in a definition of this type. -/
def HasField (type : ShapeType) (name : String) : Prop :=
  (name = "mixins" ∧ type.allowsMixins = true) ∨ ∃ field ∈ type.fields, field.name = name

theorem HasField.ne_type {type : ShapeType} {name : String} (h : type.HasField name) :
    name ≠ "type" := by
  rintro rfl
  rcases h with ⟨h, -⟩ | ⟨field, hf, hn⟩
  · exact absurd h (by decide)
  · revert field
    cases type <;> simp [fields, Field.needed, Field.optional]

theorem outside_structuralIssues [Visiting] {type : ShapeType} {name : String}
    (hk : type.HasField name)
    {es : Entries Value} (hf : (es.field? name).isSome = true) (value : Value) :
    Issue.outside [.str name] (type.structuralIssues (.map (es.insert (.str name) value))) =
      Issue.outside [.str name] (type.structuralIssues (.map es)) := by
  have listed (cs : List Complaint) : Issue.outside [.str name]
      ((Complaint.ordered cs).map Complaint.issue) =
        (Complaint.ordered (Check.outside name cs)).map Complaint.issue := by
    rw [Issue.outside, List.filter_map, Check.outside, Complaint.ordered, Complaint.ordered,
      ← Path.filter_sortBy]
    rfl
  have known : name ∈ (Check.fields type).map (·.1) := by
    rw [Check.fields]
    rcases hk with ⟨rfl, ha⟩ | ⟨field, hfield, rfl⟩
    · simp [ha]
    · simp only [List.map_append, List.map_map]
      exact List.mem_append_right _ (List.mem_map_of_mem hfield)
  rw [structuralIssues_eq, structuralIssues_eq, Issue.outside_firsts, Issue.outside_firsts, listed,
    listed, Check.ofShapeType, Check.outside_record _ known hf]

end ShapeType

/-! Each field is read for itself. -/

namespace Draft
variable {type : ShapeType} {name : String}

theorem outside_readMixins (es : Entries Value)
    (h : (readMixins type (.map es)).Ends) (value : Value)
    (h' : (readMixins type (.map (es.insert (.str name) value))).Ends) :
    Issue.outside [.str name] (readMixins type (.map (es.insert (.str name) value))).trace =
      Issue.outside [.str name] (readMixins type (.map es)).trace := by
  rw [readMixins_trace h, readMixins_trace h']
  by_cases hn : name = "mixins"
  · subst hn
    have below (fs : Entries Value) : Issue.outside [.str "mixins"] (Site.reports
        (if type.allowsMixins then Site.inField fs "mixins" Site.references else [])) = [] := by
      unfold Site.inField
      split
      · split
        · rw [Site.reports_under, Issue.outside_below]
        · rfl
      · rfl
    rw [below, below]
  · have same : Site.inField (es.insert (.str name) value) "mixins" Site.references =
        Site.inField es "mixins" Site.references := by
      rw [Site.inField, Site.inField, Entries.field?_insert, if_neg hn]
    rw [same]

theorem outside_readField (es : Entries Value) (field : Field) (value : Value) :
    Issue.outside [.str name] (readField (.map (es.insert (.str name) value)) field).trace =
      Issue.outside [.str name] (readField (.map es) field).trace := by
  by_cases hn : name = field.name
  · subst hn
    have below (fs : Entries Value) :
        Issue.outside [.str field.name] (readField (.map fs) field).trace = [] := by
      cases hf : fs.field? field.name with
      | some v => rw [readField_trace hf, Issue.outside_below]
      | none =>
        have look : Value.fieldOf? field.name (.map fs) = .ok none := congrArg Except.ok hf
        rw [readField, look]
        rfl
    rw [below, below]
  · have look : Value.fieldOf? field.name (.map (es.insert (.str name) value)) =
        Value.fieldOf? field.name (.map es) := by
      rw [Value.fieldOf?, Value.fieldOf?, Entries.field?_insert, if_neg hn]
    rw [readField, readField, look]

theorem outside_read {es : Entries Value} (h : (read type (.map es)).Ends) {value : Value}
    (h' : (read type (.map (es.insert (.str name) value))).Ends) :
    Issue.outside [.str name] (read type (.map (es.insert (.str name) value))).trace =
      Issue.outside [.str name] (read type (.map es)).trace := by
  obtain ⟨mixins, -, run⟩ := read_trace h
  obtain ⟨mixins', -, run'⟩ := read_trace h'
  rw [run, run', Issue.outside_append, Issue.outside_append, outside_readMixins es mixins value
    mixins', Issue.outside_flatMap, Issue.outside_flatMap]
  exact congrArg _ (List.flatMap_congr fun field _ => outside_readField es field value)

end Draft

/-! A definition with another value in a field. -/

namespace Value
variable {node value : Value} {es : Entries Value}

theorem IsMapping.withField (h : node.IsMapping es) (name : String) (value : Value) :
    (node.withField name value).IsMapping (es.insert (.str name) value) := by
  rcases h with rfl | rfl
  · exact .inl rfl
  · exact .inr rfl

/-- A test that a mapping passes for its keys alone holds at all nodes with the new value in it. -/
theorem IsMapping.everyNode_withField {test : Value → Bool} (h : node.IsMapping es) (name : String)
    (keys : test node = true → test (node.withField name value) = true)
    (hn : everyNode test node = true) (hv : everyNode test value = true) :
    everyNode test (node.withField name value) = true := by
  have values : (∀ e ∈ es, everyNode test e.2 = true) →
      ∀ e ∈ es.insert (.str name) value, everyNode test e.2 = true := by
    intro he e hmem
    have side := Entries.values_insert_subset es (.str name) value (List.mem_map_of_mem hmem)
    rcases List.mem_append.mp side with side | side
    · obtain ⟨d, hd, heq⟩ := List.mem_map.mp side
      exact heq ▸ he d hd
    · exact List.mem_singleton.mp side ▸ hv
  rcases h with rfl | rfl
  · obtain ⟨ht, he⟩ := (everyNode_map_iff es).mp hn
    exact (everyNode_map_iff _).mpr ⟨keys ht, values he⟩
  · obtain ⟨ht, he⟩ := (everyNode_frozen_iff es).mp hn
    exact (everyNode_frozen_iff _).mpr ⟨keys ht, values he⟩

theorem IsMapping.isPairFree_withField (h : node.IsMapping es) (name : String)
    (hn : node.isPairFree = true) (hv : value.isPairFree = true) :
    (node.withField name value).isPairFree = true := by
  refine h.everyNode_withField name (fun _ => ?_) hn hv
  rcases h with rfl | rfl <;> rfl

theorem IsMapping.isWellFormed_withField (h : node.IsMapping es) (name : String)
    (hn : node.isWellFormed = true) (hv : value.isWellFormed = true) :
    (node.withField name value).isWellFormed = true := by
  refine h.everyNode_withField name (fun hd => ?_) hn hv
  rcases h with rfl | rfl
  · exact Entries.distinct_insert hd _ _
  · exact Entries.distinct_insert hd _ _

end Value

namespace Shape
variable [Visiting]

/-- The issues of a definition without pair lists: those about its form, then those of what is
read. -/
theorem exists_issues {node : Value} {es : Entries Value} {type : ShapeType} {path : Path}
    (hw : node.isWellFormed = true) (hp : node.isPairFree = true) (hm : node.IsMapping es)
    (ht : es.field? "type" = some (.str type.tag))
    (hpath : ∀ token ∈ path, ∃ key : Key, token = key.toValue) :
    ∃ ps shape, (Value.map es).HasPlain (.map ps) ∧ (Draft.read type (.map es)).Ends ∧
      parse node path = ⟨(type.structuralIssues (.map ps) ++
        (Draft.read type (.map es)).trace).map (.under path), .ok shape⟩ := by
  have readable : Readable.definition node := Readable.definition_of_placed (.inl hp)
  obtain ⟨plain, shape, structural, hplain, hi, hread, run⟩ :=
    parse_of_readable hw readable hm.maps ht hpath
  obtain ⟨ps, hps, rfl⟩ := hm.maps.hasPlain_iff.mp hplain
  obtain rfl := Except.ok.inj (hi.symm.trans (structuralIssuesAt_of_keys type (.map ps) hpath))
  refine ⟨ps, shape, Value.hasPlain_map_iff.mpr ⟨ps, hps, rfl⟩, hread, ?_⟩
  rw [run, List.map_append]

end Shape

/-- Let a definition of a known type hold no pair list, and put another value without pair lists
into one of the fields of its type that it has. Both are parsed to the end, and the issues at places
that are not below the field are the same, in the same order. -/
theorem fields_isolated [Visiting] {type : ShapeType} {node value : Value} {es : Entries Value}
    {name : String} {path : Path} (hw : node.isWellFormed = true) (hp : node.isPairFree = true)
    (hm : node.IsMapping es) (ht : es.field? "type" = some (.str type.tag))
    (hk : type.HasField name) (hf : (es.field? name).isSome = true)
    (hvw : value.isWellFormed = true) (hvp : value.isPairFree = true)
    (hpath : ∀ token ∈ path, ∃ key : Key, token = key.toValue) :
    ∃ issues others shape other,
      Shape.parse node path = ⟨issues, .ok shape⟩ ∧
      Shape.parse (node.withField name value) path = ⟨others, .ok other⟩ ∧
      Issue.outside (path ++ [.str name]) others = Issue.outside (path ++ [.str name]) issues := by
  have ht' : (es.insert (.str name) value).field? "type" = some (.str type.tag) := by
    rw [Entries.field?_insert, if_neg hk.ne_type, ht]
  obtain ⟨ps, shape, hps, hread, run⟩ := Shape.exists_issues hw hp hm ht hpath
  obtain ⟨qs, other, hqs, hread', run'⟩ := Shape.exists_issues
    (hm.isWellFormed_withField name hw hvw) (hm.isPairFree_withField name hp hvp)
    (hm.withField name value) ht' hpath
  -- The plain form of the new definition is that of the old one with the new value's in the field.
  obtain ⟨plain, hplain⟩ := Value.exists_hasPlain_of_isWellFormed hvw
  obtain ⟨ps', hpoint, heq⟩ := Value.hasPlain_map_iff.mp hps
  obtain rfl := Value.map.inj heq
  have written := Value.hasPlain_map_iff.mpr ⟨_, hpoint.insert (.str name) hplain, rfl⟩
  obtain rfl := Value.map.inj (hqs.unique written)
  have present : (Entries.field? ps name).isSome = true := by
    obtain ⟨v, hv⟩ := Option.isSome_iff_exists.mp hf
    obtain ⟨p, hp, -⟩ := hpoint.field?_of_left hv
    rw [hp]
    rfl
  refine ⟨_, _, shape, other, run, run', ?_⟩
  rw [Issue.outside_under, Issue.outside_under, Issue.outside_append, Issue.outside_append,
    ShapeType.outside_structuralIssues hk present, Draft.outside_read hread hread']

open scoped Visiting in
/-- The key of a map is no reference at first and one with two faults then; a bad target in the
value and a field too many are reported beside either. -/
theorem fields_isolated_of_map : ∃ (node other : Value) (issues others : List Issue)
    (shape shape' : Option Shape),
    node = .frozen [(.str "type", .str "map"), (.str "key", .int 1), (.str "extra", .null),
      (.str "value", .map [(.str "target", .str "x y")])] ∧
    other = .frozen [(.str "type", .str "map"),
      (.str "key", .map [(.str "target", .int 2), (.str "z", .null)]), (.str "extra", .null),
      (.str "value", .map [(.str "target", .str "x y")])] ∧
    Shape.parse node [.str "p"] = ⟨issues, .ok shape⟩ ∧ issues.length = 3 ∧
    Shape.parse other [.str "p"] = ⟨others, .ok shape'⟩ ∧ others.length = 4 ∧
    Issue.outside [.str "p", .str "key"] others =
      [(Finding.fieldUnexpected (.str "extra")).issueAt [.str "p", .str "extra"],
        (Finding.badToken ⟨.str "x y", .absoluteId⟩).issueAt
          [.str "p", .str "value", .str "target"]] := by
  generalize hnode : Value.frozen [(.str "type", .str "map"), (.str "key", .int 1),
    (.str "extra", .null), (.str "value", .map [(.str "target", .str "x y")])] = node
  generalize hvalue : Value.map [(.str "target", .int 2), (.str "z", .null)] = value
  have hw : node.isWellFormed = true ∧ node.isPairFree = true := by
    subst hnode
    decide
  have hv : value.isWellFormed = true ∧ value.isPairFree = true := by
    subst hvalue
    decide
  have field : ShapeType.HasField .map "key" := .inr ⟨.needed "key" .reference, by decide, rfl⟩
  have hpath : ∀ token ∈ ([.str "p"] : Path), ∃ key : Key, token = key.toValue :=
    List.forall_mem_singleton.mpr ⟨.str "p", rfl⟩
  obtain ⟨issues, others, shape, shape', run, run', same⟩ := fields_isolated hw.1 hw.2
    (.inr hnode.symm) rfl field rfl hv.1 hv.2 hpath
  have before : Shape.parse node [.str "p"] =
      ⟨[(Finding.fieldUnexpected (.str "extra")).issueAt [.str "p", .str "extra"],
        (Finding.wrongType (.int 1) .object).issueAt [.str "p", .str "key"],
        (Finding.badToken ⟨.str "x y", .absoluteId⟩).issueAt
          [.str "p", .str "value", .str "target"]], .ok none⟩ := by
    subst hnode
    rfl
  obtain ⟨rfl, -⟩ := Traced.mk.inj (run.symm.trans before)
  refine ⟨node, node.withField "key" value, _, others, shape, shape', rfl, ?_, run, rfl, run', ?_,
    same.trans (by decide)⟩
  · subst hnode hvalue
    rfl
  · subst hnode hvalue
    obtain ⟨rfl, -⟩ := Traced.mk.inj run'
    rfl

end ServiceModel
