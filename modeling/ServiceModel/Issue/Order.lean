import ServiceModel.Issue.Path

/-!
# In the order of paths

What is said about nodes is put in the order of their paths, token by token in their text form. A
node comes before what is below it, and what is said of nodes whose paths read alike stays in order.
-/
namespace ServiceModel.Path

def tokensLe : List String → List String → Bool
  | [], _ => true
  | _ :: _, [] => false
  | a :: as, b :: bs => if a < b then true else if b < a then false else tokensLe as bs

theorem tokensLe_total (as bs : List String) : tokensLe as bs = true ∨ tokensLe bs as = true := by
  induction as generalizing bs with
  | nil => simp [tokensLe]
  | cons a as ih =>
    cases bs with
    | nil => simp [tokensLe]
    | cons b bs =>
      by_cases hab : a < b
      · simp [tokensLe, hab]
      · by_cases hba : b < a
        · simp [tokensLe, hba]
        · simpa [tokensLe, hab, hba] using ih bs

theorem tokensLe_trans {as bs cs : List String} (h : tokensLe as bs = true)
    (h' : tokensLe bs cs = true) : tokensLe as cs = true := by
  induction as generalizing bs cs with
  | nil => simp [tokensLe]
  | cons a as ih =>
    cases bs with
    | nil => simp [tokensLe] at h
    | cons b bs =>
      cases cs with
      | nil => simp [tokensLe] at h'
      | cons c cs =>
        unfold tokensLe at h h' ⊢
        by_cases hab : a < b
        · by_cases hbc : b < c
          · simp [String.lt_trans hab hbc]
          · by_cases hcb : c < b
            · simp [hbc, hcb] at h'
            · have : b = c := Std.Trichotomous.trichotomous b c hbc hcb
              subst this
              simp [hab]
        · by_cases hba : b < a
          · simp [hab, hba] at h
          · have : a = b := Std.Trichotomous.trichotomous a b hab hba
            subst this
            by_cases hbc : a < c
            · simp [hbc]
            · by_cases hcb : c < a
              · simp [hbc, hcb] at h'
              · simp [hbc, hcb] at h' ⊢
                simp at h
                exact ih h h'

def le (p q : Path) : Bool := tokensLe (p.map Value.text) (q.map Value.text)

theorem le_total (p q : Path) : le p q = true ∨ le q p = true := tokensLe_total _ _

theorem le_trans {p q r : Path} (h : le p q = true) (h' : le q r = true) : le p r = true :=
  tokensLe_trans h h'

section
variable {α : Type} (node : α → Path)

/-- Puts an item before the first one that its node does not come after. -/
def place (a : α) : List α → List α
  | [] => [a]
  | b :: rest => if le (node a) (node b) then a :: b :: rest else b :: place a rest

/-- The items in the order of their nodes. -/
def sortBy : List α → List α
  | [] => []
  | a :: rest => place node a (sortBy rest)

theorem place_perm (a : α) (items : List α) : (place node a items).Perm (a :: items) := by
  induction items with
  | nil => exact .refl _
  | cons b rest ih =>
    unfold place
    split
    · exact .refl _
    · exact (ih.cons b).trans (.swap a b rest)

theorem sortBy_perm (items : List α) : (sortBy node items).Perm items := by
  induction items with
  | nil => exact .nil
  | cons a rest ih => exact (place_perm node a (sortBy node rest)).trans (ih.cons a)

theorem place_pairwise (a : α) {items : List α}
    (h : items.Pairwise fun b c => le (node b) (node c) = true) :
    (place node a items).Pairwise fun b c => le (node b) (node c) = true := by
  induction items with
  | nil => simp [place]
  | cons b rest ih =>
    have hp := List.pairwise_cons.mp h
    unfold place
    split
    · rename_i hab
      refine List.pairwise_cons.mpr ⟨fun x hx => ?_, h⟩
      rcases List.mem_cons.mp hx with rfl | hx
      · exact hab
      · exact le_trans hab (hp.1 x hx)
    · rename_i hab
      refine List.pairwise_cons.mpr ⟨fun x hx => ?_, ih hp.2⟩
      rcases List.mem_cons.mp ((place_perm node a rest).mem_iff.mp hx) with rfl | hx
      · exact (le_total _ _).resolve_left hab
      · exact hp.1 x hx

theorem sortBy_pairwise (items : List α) :
    (sortBy node items).Pairwise fun a b => le (node a) (node b) = true := by
  induction items with
  | nil => exact .nil
  | cons a rest ih => exact place_pairwise node a ih

end

end ServiceModel.Path
