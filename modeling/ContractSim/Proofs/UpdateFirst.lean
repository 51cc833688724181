import ContractSim.UpdateFirst
import Mathlib.Algebra.GroupWithZero.Nat
import Mathlib.Data.List.Forall2
import Mathlib.Data.List.Induction

namespace ContractSim

variable {α β : Type} (test : α → Bool) (change : α → α)

-- The first match is the changed one, as long as the change does not undo the match.
theorem find?_updateFirst_self (values : List α)
    (hkeep : ∀ value, test value = true → test (change value) = true) :
    (updateFirst test change values).find? test = (values.find? test).map change := by
  induction values with
  | nil => rfl
  | cons head tail ih =>
      cases htest : test head with
      | true => simp [updateFirst, htest, hkeep head htest]
      | false => simp [updateFirst, htest, ih]

-- The first match of a test that the changed element passes neither before nor after stays.
theorem find?_updateFirst_other (other : α → Bool) (values : List α)
    (hbefore : ∀ value, test value = true → other value = false)
    (hafter : ∀ value, test value = true → other (change value) = false) :
    (updateFirst test change values).find? other = values.find? other := by
  induction values with
  | nil => rfl
  | cons head tail ih =>
      cases htest : test head with
      | true => simp [updateFirst, htest, hbefore head htest, hafter head htest]
      | false => simp only [updateFirst, htest, Bool.false_eq_true, ite_false, List.find?_cons, ih]

-- A view that the change leaves alone is the same all over the list.
theorem map_updateFirst_of_eq (view : α → β) (values : List α)
    (hview : ∀ value, test value = true → view (change value) = view value) :
    (updateFirst test change values).map view = values.map view := by
  induction values with
  | nil => rfl
  | cons head tail ih =>
      cases htest : test head with
      | true => simp [updateFirst, htest, hview head htest]
      | false => simp [updateFirst, htest, ih]

theorem forall_mem_updateFirst {property : α → Prop} {values : List α}
    (hall : ∀ value ∈ values, property value)
    (hchange : ∀ value, property value → property (change value)) :
    ∀ value ∈ updateFirst test change values, property value := by
  induction values with
  | nil => exact hall
  | cons head tail ih =>
      obtain ⟨hhead, htail⟩ := List.forall_mem_cons.mp hall
      simp only [updateFirst]
      split_ifs
      · exact List.forall_mem_cons.mpr ⟨hchange head hhead, htail⟩
      · exact List.forall_mem_cons.mpr ⟨hhead, ih htail⟩

-- A filter that drops the changed element, before and after, sees no change.
theorem filter_updateFirst (keep : α → Bool) (values : List α)
    (hbefore : ∀ value, test value = true → keep value = false)
    (hafter : ∀ value, test value = true → keep (change value) = false) :
    (updateFirst test change values).filter keep = values.filter keep := by
  induction values with
  | nil => rfl
  | cons head tail ih =>
      cases htest : test head with
      | true => simp [updateFirst, htest, hbefore head htest, hafter head htest]
      | false =>
          simp only [updateFirst, htest, Bool.false_eq_true, ite_false, List.filter_cons, ih]

-- Among the matches alone the change is the same.
theorem filter_updateFirst_self (values : List α)
    (hkeep : ∀ value, test value = true → test (change value) = true) :
    (updateFirst test change values).filter test =
      updateFirst test change (values.filter test) := by
  induction values with
  | nil => rfl
  | cons head tail ih =>
      cases htest : test head with
      | true => simp [updateFirst, htest, hkeep head htest]
      | false => simp [updateFirst, htest, ih]

-- Changes in different places can be made in either order.
theorem updateFirst_comm (other : α → Bool) (next : α → α) (values : List α)
    (hapart : ∀ value, test value = true → other value = false)
    (hchange : ∀ value, test value = true → other (change value) = false)
    (hnext : ∀ value, other value = true → test (next value) = false) :
    updateFirst other next (updateFirst test change values) =
      updateFirst test change (updateFirst other next values) := by
  induction values with
  | nil => rfl
  | cons head tail ih =>
      cases htest : test head with
      | true => simp [updateFirst, htest, hapart head htest, hchange head htest]
      | false =>
          cases hother : other head with
          | true => simp [updateFirst, htest, hother, hnext head hother]
          | false => simp [updateFirst, htest, hother, ih]

-- A sum over the list changes as the first match does.
theorem sum_updateFirst (weight : α → Nat) (values : List α) (found : α)
    (hfound : values.find? test = some found) :
    ((updateFirst test change values).map weight).sum + weight found =
      (values.map weight).sum + weight (change found) := by
  induction values with
  | nil => simp at hfound
  | cons head tail ih =>
      rw [List.find?_cons] at hfound
      cases htest : test head with
      | true =>
          simp only [htest, Option.some.injEq] at hfound
          subst hfound
          simp only [updateFirst, htest, ite_true, List.map_cons, List.sum_cons]
          omega
      | false =>
          simp only [htest] at hfound
          have htail := ih hfound
          simp only [updateFirst, htest, Bool.false_eq_true, ite_false, List.map_cons,
            List.sum_cons]
          omega

-- All elements but the first match stay in place as they are.
theorem forall₂_updateFirst {related : α → α → Prop} (hrefl : ∀ value, related value value)
    {values : List α} {found : α} (hfound : values.find? test = some found)
    (hchange : related found (change found)) :
    List.Forall₂ related values (updateFirst test change values) := by
  induction values with
  | nil => cases hfound
  | cons head tail ih =>
      rw [List.find?_cons] at hfound
      cases htest : test head with
      | true =>
          simp only [htest, Option.some.injEq] at hfound
          subst hfound
          simp only [updateFirst, htest, ite_true]
          exact .cons hchange (List.forall₂_same.mpr fun value _ => hrefl value)
      | false =>
          simp only [htest] at hfound
          simp only [updateFirst, htest, Bool.false_eq_true, ite_false]
          exact .cons (hrefl head) (ih hfound)

-- Lists that agree place by place are changed in the same place.
theorem forall₂_updateFirst_both {related : α → α → Prop} {left right : List α}
    (hrelated : List.Forall₂ related left right)
    (htest : ∀ a b, related a b → test b = test a)
    (hchange : ∀ a b, related a b → test a = true → related (change a) (change b)) :
    List.Forall₂ related (updateFirst test change left) (updateFirst test change right) := by
  induction hrelated with
  | nil => exact .nil
  | @cons head other _ _ hhead hrest ih =>
      simp only [updateFirst, htest head other hhead]
      split_ifs with hfound
      · exact .cons (hchange head other hhead hfound) hrest
      · exact .cons hhead ih

theorem updateFirst_append_cons (before after : List α) (found : α)
    (hbefore : ∀ value ∈ before, test value = false) (hfound : test found = true) :
    updateFirst test change (before ++ found :: after) = before ++ change found :: after := by
  induction before with
  | nil => simp [updateFirst, hfound]
  | cons head tail ih =>
      have hhead := hbefore head List.mem_cons_self
      have htail := ih fun value hmem => hbefore value (List.mem_cons_of_mem _ hmem)
      simp [updateFirst, hhead, htail]

theorem exists_find?_of_any {test : α → Bool} {values : List α} (hany : values.any test = true) :
    ∃ found, values.find? test = some found := by
  rw [← Option.isSome_iff_exists, List.find?_isSome]
  exact List.any_eq_true.mp hany

theorem exists_split_of_find? {test : α → Bool} {values : List α} {found : α}
    (hfound : values.find? test = some found) :
    ∃ before after, values = before ++ found :: after ∧
      (∀ value ∈ before, test value = false) ∧ test found = true := by
  rw [List.find?_eq_some_iff_append] at hfound
  obtain ⟨htest, before, after, rfl, hbefore⟩ := hfound
  refine ⟨before, after, rfl, ?_, htest⟩
  intro value hmem
  simpa using hbefore value hmem

section Keys

variable {κ : Type} [BEq κ] [LawfulBEq κ] {key : α → κ} {values : List α}

-- Values with keys of their own are found once.
theorem filter_key_eq_singleton (hnodup : (values.map key).Nodup) {value : α}
    (hmem : value ∈ values) : values.filter (key · == key value) = [value] := by
  induction values with
  | nil => cases hmem
  | cons head tail ih =>
      rw [List.map_cons, List.nodup_cons] at hnodup
      obtain ⟨hhead, htail⟩ := hnodup
      rw [List.filter_cons]
      rcases List.mem_cons.mp hmem with rfl | hrest
      · have hothers : tail.filter (key · == key value) = [] := by
          rw [List.filter_eq_nil_iff]
          intro other hother hsame
          exact hhead (List.mem_map.mpr ⟨other, hother, eq_of_beq hsame⟩)
        rw [if_pos (beq_self_eq_true _), hothers]
      · have hne : ¬(key head == key value) = true := by
          intro hsame
          exact hhead (eq_of_beq hsame ▸ List.mem_map_of_mem hrest)
        rw [if_neg hne, ih htail hrest]

theorem find?_key_eq_some (hnodup : (values.map key).Nodup) {value : α} (hmem : value ∈ values) :
    values.find? (key · == key value) = some value := by
  rw [← List.head?_filter, filter_key_eq_singleton hnodup hmem, List.head?_cons]

-- They are found in any order.
theorem find?_key_of_perm {others : List α} (hnodup : (values.map key).Nodup)
    (hperm : others.Perm values) (wanted : κ) :
    others.find? (key · == wanted) = values.find? (key · == wanted) := by
  have hfilter := hperm.filter (key · == wanted)
  rw [← List.head?_filter, ← List.head?_filter]
  cases hfound : values.find? (key · == wanted) with
  | none =>
      rw [← List.head?_filter, List.head?_eq_none_iff] at hfound
      rw [hfound] at hfilter ⊢
      rw [hfilter.eq_nil]
  | some value =>
      have htest := List.find?_some hfound
      obtain rfl : key value = wanted := eq_of_beq htest
      rw [filter_key_eq_singleton hnodup (List.mem_of_find?_eq_some hfound)] at hfilter ⊢
      rw [List.perm_singleton.mp hfilter]

end Keys

section DistinctKeys

variable {κ : Type} [DecidableEq κ]

theorem eraseDups_concat (keys : List κ) (key : κ) :
    (keys ++ [key]).eraseDups =
      if key ∈ keys then keys.eraseDups else keys.eraseDups ++ [key] := by
  rw [List.eraseDups_append]
  by_cases hmem : key ∈ keys
  · simp [List.removeAll, hmem]
  · simp [List.removeAll, hmem, List.eraseDups_cons]

theorem nodup_eraseDups (keys : List κ) : keys.eraseDups.Nodup := by
  induction keys using List.reverseRecOn with
  | nil => exact List.nodup_nil
  | append_singleton keys key ih =>
      rw [eraseDups_concat]
      split_ifs with hmem
      · exact ih
      · rw [List.nodup_append]
        refine ⟨ih, List.pairwise_singleton _ key, ?_⟩
        intro other hother last hlast
        rw [List.mem_singleton.mp hlast]
        rintro rfl
        exact hmem (List.mem_eraseDups.mp hother)

-- Among entries with keys of their own, the first match is the only one.
theorem updateFirst_map {test : α → Bool} {entry : κ → α} {key : κ} (change : α → α)
    (htest : ∀ other, test (entry other) = decide (other = key)) {keys : List κ}
    (hnodup : keys.Nodup) :
    updateFirst test change (keys.map entry) =
      keys.map fun other => if other = key then change (entry other) else entry other := by
  induction keys with
  | nil => rfl
  | cons head tail ih =>
      obtain ⟨hhead, htail⟩ := List.nodup_cons.mp hnodup
      rw [List.map_cons, List.map_cons, updateFirst, htest]
      by_cases hkey : head = key
      · have hothers : ∀ other ∈ tail,
            entry other = if other = key then change (entry other) else entry other := by
          intro other hmem
          rw [if_neg]
          rintro rfl
          exact hhead (hkey ▸ hmem)
        simp only [hkey, decide_true, ite_true]
        rw [List.map_congr_left hothers]
      · simp only [hkey, decide_false, Bool.false_eq_true, ite_false]
        rw [ih htail]

end DistinctKeys

end ContractSim
