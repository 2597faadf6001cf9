import ServiceModel.Proofs.Shape.Collapse
import ServiceModel.Proofs.Value.Recast

/-!
# Definitions in other containers

The structural rules see the plain form of a definition, the readers the definition as it stands.
Each reader takes a list like a tuple and a map like a frozen one, so a definition of a known type
is parsed to the same as its plain form. As all recasts of a definition share that form, they are
all parsed to the same: shape, issues, and the words and values of the issues.
-/
namespace ServiceModel

theorem Value.Single.repeatsNoKey {value : Value} (h : value.Single) : value.RepeatsNoKey :=
  fun _ hl => ((IsMapping.of_lists h.pairFree hl).single_iff.mp h).1

namespace Shape
open Value
variable {node : Value} {type : ShapeType} {path : Path}

/-- Only a mapping has a field, so a definition with a known tag is classified by it. -/
theorem exists_classify (h : node.fieldOf? "type" = .ok (some (.str type.tag))) :
    ∃ es, classify node = .ok (.ok (type, es)) := by
  have nothing : ∀ items, fieldOf?.without "type" items ≠ .ok (some (.str type.tag)) := by
    intro items h
    unfold fieldOf?.without at h
    split at h <;> cases h
  cases node with
  | scalar s =>
    cases s with
    | str s =>
      rw [fieldOf?] at h
      split at h <;> cases h
    | _ => cases h
  | list items => exact absurd h (nothing items)
  | tuple items => exact absurd h (nothing items)
  | pairs items => exact absurd h (nothing items)
  | map es => exact ⟨es, classify_eq_ok_iff.mpr ⟨.map es, Except.ok.inj h⟩⟩
  | frozen es => exact ⟨es, classify_eq_ok_iff.mpr ⟨.frozen es, Except.ok.inj h⟩⟩

section
variable {es : Entries Value} (hs : node.Single) (hc : classify node = .ok (.ok (type, es)))
  (hpath : ∀ token ∈ path, ∃ key : Key, token = key.toValue)
include hs hc

/-- The type is a text, which no recast touches. -/
theorem classify_of_recast {other : Value} (h : node.Recast other) :
    ∃ fs, classify other = .ok (.ok (type, fs)) := by
  obtain ⟨hm, ht⟩ := classify_eq_ok_iff.mp hc
  obtain ⟨fs, ho, hr⟩ := (IsMapping.of_maps hs.pairFree hm).recast_iff.mp h
  obtain ⟨tag, htag, htext⟩ := hr.field?_of_left ht
  rcases htext with _ | ⟨hv, -, -⟩ | ⟨hv, -, -⟩
  · exact ⟨fs, classify_eq_ok_iff.mpr ⟨ho.maps, htag⟩⟩
  · cases hv
  · rcases hv with hv | hv <;> cases hv

include hpath

theorem parse_eq_of_hasPlain [Visiting] {plain : Value} (hp : node.HasPlain plain) :
    parse node path = parse plain path := by
  have readable := (Readable.definition_of_placed (.inl hs.pairFree)).2 type es hc
  have mapping := IsMapping.of_maps hs.pairFree (classify_eq_ok_iff.mp hc).1
  have once : NamesOnce type es := fun _ _ _ _ _ hv =>
    ((mapping.single_iff.mp hs).2 _ (Entries.mem_of_field? hv)).repeatsNoKey
  exact parse_congr hs.isDecoded hp hc readable once hpath

theorem parse_eq_of_recast [Visiting] {other : Value} (h : node.Recast other) :
    parse other path = parse node path := by
  obtain ⟨plain, hp⟩ := exists_hasPlain_of_isPairFree hs.pairFree
  obtain ⟨ho, hplain⟩ := h.single_and_hasPlain hs
  obtain ⟨fs, hf⟩ := classify_of_recast hs hc h
  rw [parse_eq_of_hasPlain hs hc hpath hp, parse_eq_of_hasPlain ho hf hpath (hplain plain hp)]

end

end Shape

/-- A definition that repeats no key and names a known type is parsed to its end, at every path of
keys, and so are its plain form, its fixed form and whatever else it can be recast as: to the same
shape, if there is one, and to the same issues in the same order. -/
theorem recasts_parse_same [Visiting] {node : Value} {type : ShapeType} {path : Path}
    (hs : node.Single) (ht : node.fieldOf? "type" = .ok (some (.str type.tag)))
    (hpath : ∀ token ∈ path, ∃ key : Key, token = key.toValue) :
    ∃ plain fixed result issues, node.HasPlain plain ∧ node.HasFixed fixed ∧
      Shape.parse node path = ⟨issues, .ok result⟩ ∧
      Shape.parse plain path = ⟨issues, .ok result⟩ ∧
      Shape.parse fixed path = ⟨issues, .ok result⟩ ∧
      ∀ other, node.Recast other → Shape.parse other path = ⟨issues, .ok result⟩ := by
  obtain ⟨es, hc⟩ := Shape.exists_classify ht
  obtain ⟨plain, hp⟩ := Value.exists_hasPlain_of_isPairFree hs.pairFree
  obtain ⟨fixed, hf, recast⟩ := hs.exists_fixed
  obtain ⟨result, hresult⟩ := (Shape.parse_ends_iff hs.wellFormed hpath).mpr
    (Readable.definition_of_placed (.inl hs.pairFree))
  have parsed : Shape.parse node path = ⟨(Shape.parse node path).trace, .ok result⟩ := by
    rw [← hresult]
  have same : ∀ other, node.Recast other →
      Shape.parse other path = ⟨(Shape.parse node path).trace, .ok result⟩ :=
    fun other h => (Shape.parse_eq_of_recast hs hc hpath h).trans parsed
  exact ⟨plain, fixed, result, _, hp, hf, parsed, same plain (hs.recast_of_hasPlain hp),
    same fixed recast, same⟩

open scoped Visiting in
/-- A tuple where a text belongs: the issue shows it as the list it is in the plain form. -/
theorem recasts_parse_same_list : ∃ node other : Value,
    node = .frozen [(.str "type", .str "list"), (.str "member", .map [
      (.str "target", .tuple [.int 1]),
      (.str "traits", .frozen [(.str "a#t", .list [.tuple []])])])] ∧
    other = .map [(.str "type", .str "list"), (.str "member", .frozen [
      (.str "target", .list [.int 1]),
      (.str "traits", .map [(.str "a#t", .list [.list []])])])] ∧
    node.Single ∧ node.fieldOf? "type" = .ok (some (.str ShapeType.list.tag)) ∧
    node.Recast other ∧ ∃ result issues, Issue.report issues =
      "  - InvalidValueTypeError: [1] is not of type 'string' (at shapes[0].member.target)" ∧
      Shape.parse node [.str "shapes", .int 0] = ⟨issues, .ok result⟩ ∧
      Shape.parse other [.str "shapes", .int 0] = ⟨issues, .ok result⟩ := by
  have recast : Value.Recast
      (.frozen [(.str "type", .str "list"), (.str "member", .map [
        (.str "target", .tuple [.int 1]),
        (.str "traits", .frozen [(.str "a#t", .list [.tuple []])])])])
      (.map [(.str "type", .str "list"), (.str "member", .frozen [
        (.str "target", .list [.int 1]),
        (.str "traits", .map [(.str "a#t", .list [.list []])])])]) := by
    have target : Value.Recast (.tuple [.int 1]) (.list [.int 1]) :=
      .sequence (.tuple _) (.list _) (.cons (.scalar _) .nil)
    have trait : Value.Recast (.list [.tuple []]) (.list [.list []]) :=
      .sequence (.list _) (.list _) (.cons (.sequence (.tuple _) (.list _) .nil) .nil)
    have traits : Value.Recast (.frozen [(.str "a#t", .list [.tuple []])])
        (.map [(.str "a#t", .list [.list []])]) :=
      .mapping (.inr rfl) (.inl rfl) (.cons (.intro _ trait) .nil)
    exact .mapping (.inr rfl) (.inl rfl) (.cons (.intro _ (.scalar _)) (.cons (.intro _ (.mapping
      (.inl rfl) (.inr rfl) (.cons (.intro _ target) (.cons (.intro _ traits) .nil)))) .nil))
  have single : Value.Single (.frozen [(.str "type", .str "list"), (.str "member", .map [
      (.str "target", .tuple [.int 1]),
      (.str "traits", .frozen [(.str "a#t", .list [.tuple []])])])]) := ⟨rfl, by decide⟩
  have keys : ∀ token ∈ [Value.str "shapes", .int 0], ∃ key : Key, token = key.toValue :=
    List.forall_mem_cons.mpr ⟨⟨.str "shapes", rfl⟩, List.forall_mem_singleton.mpr ⟨.int 0, rfl⟩⟩
  obtain ⟨plain, fixed, result, issues, -, -, parsed, -, -, same⟩ :=
    @recasts_parse_same _ _ .list _ single rfl keys
  refine ⟨_, _, rfl, rfl, single, rfl, recast, result, issues, ?_, parsed, same _ recast⟩
  have found := congrArg (fun reading : Reading (Option Shape) => Issue.report reading.trace) parsed
  exact found.symm.trans (by decide)

end ServiceModel
