import ServiceModel.Proofs.Writing

/-!
# Reading what was written

An accepted shape or model can be written, and what is written is accepted again as the very same.
-/
namespace ServiceModel

/-- An accepted model can be written, and what is written is validated to that model, under any
settings and whatever the order of the workers. An accepted shape can be written, and what is
written is parsed to that shape, at any path. -/
theorem accepted_again [Visiting] :
    (∀ (arrival : Schedule) (settings : Settings) (document : Value) (model : Model)
      (issues : List Issue),
      (validateWith arrival settings document).outcome = .ok ⟨some model, issues⟩ →
        ∃ node, model.toNode = .ok node ∧ ∀ arrival' settings',
          (validateWith arrival' settings' node).outcome = .ok ⟨some model, []⟩) ∧
    ∀ (node : Value) (path : Path) (shape : Shape),
      (Shape.parse node path).outcome = .ok (some shape) →
        ∃ out, shape.toNode = .ok out ∧
          ∀ path', Shape.parse out path' = ⟨[], .ok (some shape)⟩ := by
  constructor
  · intro arrival settings document model issues h
    obtain ⟨-, entries, -, hm⟩ := validateWith_accepts_iff.mp h
    obtain ⟨node, hn, -, hs⟩ := hm.valid.exists_toNode
    exact ⟨node, hn, fun _ _ => validateWith_accepts_iff.mpr ⟨rfl, hs⟩⟩
  · intro node path shape h
    obtain ⟨-, es, -, hs⟩ := Shape.spelled_of_parse h
    obtain ⟨out, ho, hp, hs⟩ := hs.valid.exists_toNode
    exact ⟨out, ho, Shape.parse_of_spelled (Value.hasPlain_self hp) hs⟩

open scoped Visiting in
/-- A fixed document with a list in its metadata, and a union with an empty mapping of traits. -/
theorem accepted_again_union :
    (∃ node, Model.toNode ⟨"2.0", [(.str "k", .tuple [.null])],
        [(⟨"a#B"⟩, ⟨.simple .blob, [], []⟩)]⟩ = .ok node ∧ ∀ arrival settings,
      (validateWith arrival settings node).outcome = .ok
        ⟨some ⟨"2.0", [(.str "k", .tuple [.null])], [(⟨"a#B"⟩, ⟨.simple .blob, [], []⟩)]⟩, []⟩) ∧
    ∃ out, Shape.toNode ⟨.union, [],
        [("members", .memberMap .readOnly [(.identifier ⟨"x"⟩, some ⟨⟨⟨"a#B"⟩⟩, []⟩)])]⟩ = .ok out ∧
      ∀ path, Shape.parse out path = ⟨[], .ok (some ⟨.union, [],
        [("members", .memberMap .readOnly [(.identifier ⟨"x"⟩, some ⟨⟨⟨"a#B"⟩⟩, []⟩)])]⟩)⟩ :=
  ⟨accepted_again.1 .inOrder .standard
      (.frozen [(.str "shapes", .map [(.str "a#B", .map [(.str "type", .str "blob")])]),
        (.str "metadata", .map [(.str "k", .list [.null])]), (.str "smithy", .str "2.0")]) _ [] rfl,
    accepted_again.2 (.map [(.str "type", .str "union"), (.str "members", .frozen [(.str "x",
      .map [(.str "traits", .map []), (.str "target", .str "a#B")])])]) [] _ rfl⟩

end ServiceModel
