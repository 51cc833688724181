namespace ContractSim

-- Changes the first element that passes a test; a list without one stays as it is.
def updateFirst {α : Type} (test : α → Bool) (change : α → α) : List α → List α
  | [] => []
  | head :: tail => if test head then change head :: tail else head :: updateFirst test change tail

-- The number of elements stays the same.
@[simp]
theorem length_updateFirst {α : Type} (test : α → Bool) (change : α → α) (values : List α) :
    (updateFirst test change values).length = values.length := by
  induction values with
  | nil => rfl
  | cons head tail ih =>
      simp only [updateFirst]
      split <;> simp [ih]

-- A list without a matching element stays as it is.
theorem updateFirst_eq_self {α : Type} (test : α → Bool) (change : α → α) (values : List α)
    (hnone : values.find? test = none) : updateFirst test change values = values := by
  induction values with
  | nil => rfl
  | cons head tail ih =>
      rw [List.find?_cons] at hnone
      cases htest : test head with
      | true => simp [htest] at hnone
      | false =>
          simp only [htest] at hnone
          simp [updateFirst, htest, ih hnone]

end ContractSim
