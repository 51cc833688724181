import Mathlib.Tactic.SplitIfs

namespace ContractSim.Action

variable {ε σ α β : Type}

-- Actions change a state and may fail. These equations run them step by step.

@[simp]
theorem run_pure (value : α) (state : σ) :
    (pure value : ExceptT ε (StateM σ) α).run state = (.ok value, state) := rfl

@[simp]
theorem run_get (state : σ) :
    (get : ExceptT ε (StateM σ) σ).run state = (.ok state, state) := rfl

@[simp]
theorem run_modify (change : σ → σ) (state : σ) :
    (modify change : ExceptT ε (StateM σ) PUnit).run state = (.ok ⟨⟩, change state) := rfl

theorem run_bind (action : ExceptT ε (StateM σ) α) (next : α → ExceptT ε (StateM σ) β)
    (state : σ) :
    (action >>= next).run state =
      match action.run state with
      | (.ok value, after) => (next value).run after
      | (.error error, after) => (.error error, after) := by
  change (match action.run state with
    | (result, after) => (ExceptT.bindCont next result : StateM σ (Except ε β)) after) = _
  rcases action.run state with ⟨result, after⟩
  cases result with
  | ok value => rfl
  | error error => rfl

-- An action that succeeds hands its value and its state on.
theorem run_bind_of_ok {action : ExceptT ε (StateM σ) α} {next : α → ExceptT ε (StateM σ) β}
    {state after : σ} {value : α} (haction : action.run state = (.ok value, after)) :
    (action >>= next).run state = (next value).run after := by
  rw [run_bind, haction]

-- An action that fails ends the whole.
theorem run_bind_of_error {action : ExceptT ε (StateM σ) α} {next : α → ExceptT ε (StateM σ) β}
    {state after : σ} {error : ε} (haction : action.run state = (.error error, after)) :
    (action >>= next).run state = (.error error, after) := by
  rw [run_bind, haction]

-- An action that only looks at the state. It may fail.
def ReadOnly (action : ExceptT ε (StateM σ) α) : Prop := ∀ state, (action.run state).2 = state

-- An action that does not fail.
def Answers (action : ExceptT ε (StateM σ) α) : Prop :=
  ∀ state, ∃ value after, action.run state = (.ok value, after)

-- An action that fails only before it has changed anything.
def Atomic (action : ExceptT ε (StateM σ) α) : Prop :=
  ∀ state error after, action.run state = (.error error, after) → after = state

section Atomic

variable {action : ExceptT ε (StateM σ) α} {next : α → ExceptT ε (StateM σ) β}

theorem ReadOnly.atomic (hread : ReadOnly action) : Atomic action := by
  intro state error after hrun
  have hsame := hread state
  rw [hrun] at hsame
  exact hsame

theorem Answers.atomic (hanswers : Answers action) : Atomic action := by
  intro state error after hrun
  obtain ⟨value, final, hok⟩ := hanswers state
  rw [hok] at hrun
  cases hrun

theorem Answers.bind (hanswers : Answers action) (hnext : ∀ value, Answers (next value)) :
    Answers (action >>= next) := by
  intro state
  obtain ⟨value, after, hrun⟩ := hanswers state
  rw [run_bind_of_ok hrun]
  exact hnext value after

-- Looking comes before changing.
theorem ReadOnly.bind_atomic (hread : ReadOnly action) (hnext : ∀ value, Atomic (next value)) :
    Atomic (action >>= next) := by
  intro state error final hfinal
  have hsame := hread state
  rcases hrun : action.run state with ⟨result, after⟩
  rw [hrun] at hsame
  obtain rfl : after = state := hsame
  cases result with
  | error cause =>
      rw [run_bind_of_error hrun] at hfinal
      cases hfinal
      rfl
  | ok value =>
      rw [run_bind_of_ok hrun] at hfinal
      exact hnext value after error final hfinal

-- What follows a change does not fail.
theorem Atomic.bind_answers (hatomic : Atomic action) (hnext : ∀ value, Answers (next value)) :
    Atomic (action >>= next) := by
  intro state error final hfinal
  rcases hrun : action.run state with ⟨result, after⟩
  cases result with
  | error cause =>
      rw [run_bind_of_error hrun] at hfinal
      cases hfinal
      exact hatomic state error final hrun
  | ok value =>
      obtain ⟨answer, last, hok⟩ := hnext value after
      rw [run_bind_of_ok hrun, hok] at hfinal
      cases hfinal

theorem readOnly_pure (value : α) : ReadOnly (pure value : ExceptT ε (StateM σ) α) :=
  fun _ => rfl

theorem readOnly_get : ReadOnly (get : ExceptT ε (StateM σ) σ) := fun _ => rfl

theorem answers_get : Answers (get : ExceptT ε (StateM σ) σ) := fun state => ⟨state, state, rfl⟩

theorem answers_pure (value : α) : Answers (pure value : ExceptT ε (StateM σ) α) :=
  fun state => ⟨value, state, rfl⟩

end Atomic

-- Every value that an action gives has a property.
def Yields (property : α → Prop) (action : ExceptT ε (StateM σ) α) : Prop :=
  ∀ state value after, action.run state = (.ok value, after) → property value

section Yields

variable {property : β → Prop}

theorem yields_pure {value : β} (hvalue : property value) :
    Yields property (pure value : ExceptT ε (StateM σ) β) := by
  rintro _ _ _ ⟨⟩
  exact hvalue

-- The last part of an action gives the value.
theorem yields_bind {action : ExceptT ε (StateM σ) α} {next : α → ExceptT ε (StateM σ) β}
    (hnext : ∀ value, Yields property (next value)) : Yields property (action >>= next) := by
  intro state value final hfinal
  rcases hrun : action.run state with ⟨result, after⟩
  cases result with
  | error error =>
      rw [run_bind_of_error hrun] at hfinal
      cases hfinal
  | ok first =>
      rw [run_bind_of_ok hrun] at hfinal
      exact hnext first after value final hfinal

end Yields

-- Related states get the same answer, and are related still.
def Agrees (related : σ → σ → Prop) (action : ExceptT ε (StateM σ) α) : Prop :=
  ∀ left right, related left right →
    (action.run right).1 = (action.run left).1 ∧
      related (action.run left).2 (action.run right).2

section Agrees

variable {related : σ → σ → Prop} {action : ExceptT ε (StateM σ) α}
  {next : α → ExceptT ε (StateM σ) β}

theorem agrees_pure (value : α) : Agrees related (pure value : ExceptT ε (StateM σ) α) :=
  fun _ _ hrelated => ⟨rfl, hrelated⟩

theorem Agrees.bind (haction : Agrees related action)
    (hnext : ∀ value, Agrees related (next value)) : Agrees related (action >>= next) := by
  intro left right hrelated
  obtain ⟨hanswer, hafter⟩ := haction left right hrelated
  rcases hleft : action.run left with ⟨result, leftAfter⟩
  rcases hright : action.run right with ⟨other, rightAfter⟩
  rw [hleft, hright] at hanswer hafter
  obtain rfl : other = result := hanswer
  cases other with
  | error error =>
      rw [run_bind_of_error hleft, run_bind_of_error hright]
      exact ⟨rfl, hafter⟩
  | ok value =>
      rw [run_bind_of_ok hleft, run_bind_of_ok hright]
      exact hnext value leftAfter rightAfter hafter

-- What follows a look at the state does not depend on where related states differ.
theorem agrees_get_bind {next : σ → ExceptT ε (StateM σ) β}
    (hnext : ∀ left right, related left right →
      next right = next left ∧ Agrees related (next left)) :
    Agrees related ((get : ExceptT ε (StateM σ) σ) >>= next) := by
  intro left right hrelated
  obtain ⟨hsame, hagrees⟩ := hnext left right hrelated
  rw [run_bind_of_ok (run_get left), run_bind_of_ok (run_get right), hsame]
  exact hagrees left right hrelated

end Agrees

end ContractSim.Action
