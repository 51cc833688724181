import Mathlib.Data.List.Forall2

namespace ContractSim

variable {α β γ : Type} {first : α → β → Prop} {second : β → γ → Prop} {both : α → γ → Prop}

theorem forall₂_comp (hboth : ∀ a b c, first a b → second b c → both a c) {left : List α}
    {middle : List β} {right : List γ} (hfirst : List.Forall₂ first left middle)
    (hsecond : List.Forall₂ second middle right) : List.Forall₂ both left right := by
  induction hfirst generalizing right with
  | nil =>
      cases hsecond
      exact .nil
  | cons hhead _ ih =>
      obtain _ | ⟨hother, hrest⟩ := hsecond
      exact .cons (hboth _ _ _ hhead hother) (ih hrest)

theorem map_eq_of_forall₂ {δ : Type} {left : List α} {right : List β} (view : α → δ)
    (other : β → δ) (hview : ∀ a b, first a b → other b = view a)
    (hrelated : List.Forall₂ first left right) : right.map other = left.map view := by
  induction hrelated with
  | nil => rfl
  | cons hhead _ ih => rw [List.map_cons, List.map_cons, hview _ _ hhead, ih]

theorem eq_of_forall₂ {related : α → α → Prop} (heq : ∀ a b, related a b → b = a)
    {left right : List α} (hrelated : List.Forall₂ related left right) : right = left := by
  have hmap := map_eq_of_forall₂ (fun a => a) (fun b => b) heq hrelated
  rwa [List.map_id', List.map_id'] at hmap

-- What passes a test on which both sides agree.
theorem forall₂_filter (test : α → Bool) (check : β → Bool)
    (hcheck : ∀ a b, first a b → check b = test a) {left : List α} {right : List β}
    (hrelated : List.Forall₂ first left right) :
    List.Forall₂ (fun a b => test a = true ∧ first a b) (left.filter test)
      (right.filter check) := by
  have htests : ∀ a b, first a b → (test a = true ↔ check b = true) := by
    intro a b hab
    rw [hcheck a b hab]
  refine (List.forall₂_and_left _ _).mpr ⟨?_, List.rel_filter htests hrelated⟩
  exact fun a hmem => (List.mem_filter.mp hmem).2

theorem exists_append_of_forall₂ {left more : List α} {right : List β}
    (hrelated : List.Forall₂ first (left ++ more) right) :
    ∃ start rest, right = start ++ rest ∧ List.Forall₂ first left start ∧
      List.Forall₂ first more rest :=
  ⟨right.take left.length, right.drop left.length, (List.take_append_drop _ _).symm,
    (List.forall₂_take_append right left more hrelated.flip).flip,
    (List.forall₂_drop_append right left more hrelated.flip).flip⟩

theorem exists_getElem?_of_forall₂ {left : List α} {right : List β}
    (hrelated : List.Forall₂ first left right) {index : Nat} {value : α}
    (hvalue : left[index]? = some value) :
    ∃ other, right[index]? = some other ∧ first value other := by
  induction hrelated generalizing index with
  | nil => cases hvalue
  | @cons head other _ _ hhead _ ih =>
      cases index with
      | zero =>
          cases hvalue
          exact ⟨other, rfl, hhead⟩
      | succ index => exact ih hvalue

theorem forall_mem_of_forall₂ {goal : β → Prop} {start : α → Prop} {left : List α}
    {right : List β} (hrelated : List.Forall₂ first left right)
    (hkeep : ∀ a b, first a b → start a → goal b) (hall : ∀ a ∈ left, start a) :
    ∀ b ∈ right, goal b := by
  induction hrelated with
  | nil => exact fun _ hmem => absurd hmem List.not_mem_nil
  | @cons head other _ _ hhead _ ih =>
      intro value hmem
      rcases List.mem_cons.mp hmem with rfl | hmem
      · exact hkeep _ _ hhead (hall head List.mem_cons_self)
      · exact ih (fun a ha => hall a (List.mem_cons_of_mem head ha)) value hmem

theorem pairwise_of_forall₂ {start : α → α → Prop} {goal : β → β → Prop} {left : List α}
    {right : List β} (hrelated : List.Forall₂ first left right)
    (hkeep : ∀ a b c d, first a c → first b d → start a b → goal c d)
    (hpairwise : left.Pairwise start) : right.Pairwise goal := by
  induction hrelated with
  | nil => exact .nil
  | cons hhead htail ih =>
      obtain ⟨hall, hrest⟩ := List.pairwise_cons.mp hpairwise
      refine .cons ?_ (ih hrest)
      exact forall_mem_of_forall₂ htail (fun b d hbd => hkeep _ b _ d hhead hbd) hall

end ContractSim
