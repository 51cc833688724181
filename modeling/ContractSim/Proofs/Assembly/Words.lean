import ContractSim.Assembly.Token
import Mathlib.Data.List.Forall2

namespace ContractSim.Token

open ContractSim.Text

-- Characters that stand for themselves in a word, inside parentheses and outside.
def isPlain (c : Char) : Bool := c != '(' && c != ')' && !isBlank c

theorem isPlain_iff {c : Char} : isPlain c = true ↔ c ≠ '(' ∧ c ≠ ')' ∧ isBlank c = false := by
  simp [isPlain, and_assoc]

theorem not_parenthesis_of_isBlank {c : Char} (hblank : isBlank c = true) :
    c ≠ '(' ∧ c ≠ ')' := by
  constructor
  · rintro rfl
    exact absurd hblank (by decide)
  · rintro rfl
    exact absurd hblank (by decide)

theorem splitFrom_blank {c : Char} (hblank : isBlank c = true) (current rest : List Char) :
    splitFrom 0 current (c :: rest) = (splitFrom 0 [] rest).map (closeWord current) := by
  obtain ⟨hopen, hclose⟩ := not_parenthesis_of_isBlank hblank
  rw [splitFrom, if_neg hopen, if_neg hclose, if_pos hblank]

theorem splitFrom_inner_blank {c : Char} (hblank : isBlank c = true) (depth : Nat)
    (current rest : List Char) :
    splitFrom (depth + 1) current (c :: rest) = splitFrom (depth + 1) current rest := by
  obtain ⟨hopen, hclose⟩ := not_parenthesis_of_isBlank hblank
  rw [splitFrom, if_neg hopen, if_neg hclose, if_pos hblank]

theorem splitFrom_open (depth : Nat) (current rest : List Char) :
    splitFrom depth current ('(' :: rest) = splitFrom (depth + 1) ('(' :: current) rest := by
  cases depth with
  | zero => rw [splitFrom, if_pos rfl]
  | succ outer => rw [splitFrom, if_pos rfl]

theorem splitFrom_close (depth : Nat) (current rest : List Char) :
    splitFrom (depth + 1) current (')' :: rest) = splitFrom depth (')' :: current) rest := by
  rw [splitFrom, if_neg (by decide), if_pos rfl]

theorem splitFrom_plain_cons {c : Char} (hplain : isPlain c = true) (depth : Nat)
    (current rest : List Char) :
    splitFrom depth current (c :: rest) = splitFrom depth (c :: current) rest := by
  obtain ⟨hopen, hclose, hblank⟩ := isPlain_iff.mp hplain
  have hword := Bool.eq_false_iff.mp hblank
  cases depth with
  | zero => rw [splitFrom, if_neg hopen, if_neg hclose, if_neg hword]
  | succ outer => rw [splitFrom, if_neg hopen, if_neg hclose, if_neg hword]

-- Plain characters are collected one after another.
theorem splitFrom_plain {text : List Char} (hplain : ∀ c ∈ text, isPlain c = true) (depth : Nat)
    (current rest : List Char) :
    splitFrom depth current (text ++ rest) = splitFrom depth (text.reverse ++ current) rest := by
  induction text generalizing current with
  | nil => rfl
  | cons c text ih =>
      obtain ⟨hc, htext⟩ := List.forall_mem_cons.mp hplain
      rw [List.cons_append, splitFrom_plain_cons hc, ih htext, List.reverse_cons,
        List.append_assoc, List.singleton_append]

-- Blanks in front of a line are passed over.
theorem splitWords_dropBlanks (text : List Char) :
    splitWords (dropBlanks text) = splitWords text := by
  induction text with
  | nil => rfl
  | cons c rest ih =>
      unfold splitWords dropBlanks at *
      rw [List.dropWhile_cons]
      split_ifs with hblank
      · have hclosed : closeWord [] = id := rfl
        rw [splitFrom_blank hblank, hclosed, Option.map_id, id, ih]
      · rfl

-- A blank behind a line closes a word that is closed there anyway.
theorem splitFrom_append_blank {c : Char} (hblank : isBlank c = true) (depth : Nat)
    (current text : List Char) :
    splitFrom depth current (text ++ [c]) = splitFrom depth current text := by
  fun_induction splitFrom depth current text with
  | case1 current => exact splitFrom_blank hblank current []
  | case2 depth current => exact splitFrom_inner_blank hblank depth current []
  | case3 depth current rest ih =>
      rw [List.cons_append, splitFrom_open]
      exact ih
  | case4 current rest _ => rw [List.cons_append, splitFrom, if_neg (by decide), if_pos rfl]
  | case5 current rest outer _ ih =>
      rw [List.cons_append, splitFrom_close]
      exact ih
  | case6 current other rest _ _ hother ih =>
      rw [List.cons_append, splitFrom_blank hother, ih]
  | case7 current other rest _ _ hother inner ih =>
      rw [List.cons_append, splitFrom_inner_blank hother]
      exact ih
  | case8 depth current other rest hopen hclose hother ih =>
      have hplain := isPlain_iff.mpr ⟨hopen, hclose, Bool.eq_false_iff.mpr hother⟩
      rw [List.cons_append, splitFrom_plain_cons hplain]
      exact ih

theorem splitFrom_append_blanks {blanks : List Char} (hblanks : ∀ c ∈ blanks, isBlank c = true)
    (depth : Nat) (current text : List Char) :
    splitFrom depth current (text ++ blanks) = splitFrom depth current text := by
  induction blanks generalizing text with
  | nil => rw [List.append_nil]
  | cons c rest ih =>
      obtain ⟨hc, hrest⟩ := List.forall_mem_cons.mp hblanks
      rw [List.append_cons, ih hrest, splitFrom_append_blank hc]

-- The blanks at the ends of a line have no part in its words.
theorem splitWords_trim (text : List Char) : splitWords (trim text) = splitWords text := by
  have hends : dropBlanks text =
      trim text ++ ((dropBlanks text).reverse.takeWhile isBlank).reverse := by
    rw [trim, ← List.reverse_append]
    unfold dropBlanks
    rw [List.takeWhile_append_dropWhile, List.reverse_reverse]
  have hblanks : ∀ c ∈ ((dropBlanks text).reverse.takeWhile isBlank).reverse,
      isBlank c = true := by
    intro c hmem
    exact List.all_eq_true.mp List.all_takeWhile c (List.mem_reverse.mp hmem)
  have htrim := splitFrom_append_blanks hblanks 0 [] (trim text)
  rw [← hends] at htrim
  calc splitWords (trim text) = splitWords (dropBlanks text) := htrim.symm
    _ = splitWords text := splitWords_dropBlanks text

-- A word that has been begun comes first.
theorem exists_first_word {depth : Nat} {current text : List Char} {words : List (List Char)}
    (hsplit : splitFrom depth current text = some words) (hcurrent : current ≠ []) :
    ∃ rest others, words = (current.reverse ++ rest) :: others := by
  have hopen : ∀ following, closeWord current following = current.reverse :: following := by
    intro following
    rw [closeWord, if_neg (mt List.isEmpty_iff.mp hcurrent)]
  fun_induction splitFrom depth current text generalizing words with
  | case1 current =>
      cases hsplit
      exact ⟨[], [], by simp [hopen]⟩
  | case2 => cases hsplit
  | case3 depth current rest ih =>
      obtain ⟨more, others, rfl⟩ := ih hsplit (List.cons_ne_nil _ _) (fun _ => rfl)
      exact ⟨'(' :: more, others, by simp⟩
  | case4 => cases hsplit
  | case5 current rest outer _ ih =>
      obtain ⟨more, others, rfl⟩ := ih hsplit (List.cons_ne_nil _ _) (fun _ => rfl)
      exact ⟨')' :: more, others, by simp⟩
  | case6 current c rest _ _ _ ih =>
      obtain ⟨following, -, rfl⟩ := Option.map_eq_some_iff.mp hsplit
      exact ⟨[], following, by simp [hopen]⟩
  | case7 current c rest _ _ _ inner ih => exact ih hsplit hcurrent hopen
  | case8 depth current c rest _ _ _ ih =>
      obtain ⟨more, others, rfl⟩ := ih hsplit (List.cons_ne_nil _ _) (fun _ => rfl)
      exact ⟨c :: more, others, by simp⟩

-- What a line ends with, its last word ends with.
theorem exists_last_word {depth : Nat} {current text : List Char} {words : List (List Char)}
    {last : Char} (hsplit : splitFrom depth current text = some words)
    (hlast : text.getLast? = some last) (hblank : isBlank last = false) :
    ∃ word, words.getLast? = some word ∧ word.getLast? = some last := by
  -- A word that the line ends in is closed right behind its last character.
  have hends : ∀ {depth current c words}, splitFrom depth (c :: current) [] = some words →
      ∃ word, words.getLast? = some word ∧ word.getLast? = some c := by
    intro depth current c words hclosed
    cases depth with
    | zero =>
        cases hclosed
        exact ⟨(c :: current).reverse, rfl, by simp⟩
    | succ outer => cases hclosed
  fun_induction splitFrom depth current text generalizing words with
  | case1 => cases hlast
  | case2 => cases hlast
  | case3 depth current rest ih =>
      cases rest with
      | nil =>
          cases hlast
          exact hends hsplit
      | cons next rest => exact ih hsplit hlast
  | case4 => cases hsplit
  | case5 current rest outer _ ih =>
      cases rest with
      | nil =>
          cases hlast
          exact hends hsplit
      | cons next rest => exact ih hsplit hlast
  | case6 current c rest _ _ hc ih =>
      cases rest with
      | nil =>
          cases hlast
          exact absurd hc (Bool.eq_false_iff.mp hblank)
      | cons next rest =>
          obtain ⟨following, hfollowing, rfl⟩ := Option.map_eq_some_iff.mp hsplit
          obtain ⟨word, hword, hends⟩ := ih hfollowing hlast
          refine ⟨word, ?_, hends⟩
          unfold closeWord
          split_ifs
          · exact hword
          · rw [List.getLast?_cons, hword]
            rfl
  | case7 current c rest _ _ hc inner ih =>
      cases rest with
      | nil => cases hsplit
      | cons next rest => exact ih hsplit hlast
  | case8 depth current c rest _ _ _ ih =>
      cases rest with
      | nil =>
          cases hlast
          exact hends hsplit
      | cons next rest => exact ih hsplit hlast

-- A text is read as one word, whatever follows it.
def Spells (text word : List Char) : Prop :=
  ∀ rest, splitFrom 0 [] (text ++ rest) = splitFrom 0 word.reverse rest

theorem spells_plain {text : List Char} (hplain : ∀ c ∈ text, isPlain c = true) :
    Spells text text := by
  intro rest
  rw [splitFrom_plain hplain, List.append_nil]

-- Texts with a space between neighbours are read word by word.
theorem splitWords_unwords {texts words : List (List Char)}
    (hspells : List.Forall₂ Spells texts words) (hwords : ∀ word ∈ words, word ≠ []) :
    splitWords (unwords texts) = some words := by
  induction hspells with
  | nil => rfl
  | @cons text word texts words hfirst hrest ih =>
      obtain ⟨hword, hothers⟩ := List.forall_mem_cons.mp hwords
      have hclose : ∀ following, closeWord word.reverse following = word :: following := by
        intro following
        have hopen : word.reverse.isEmpty = false := by simp [hword]
        rw [closeWord, hopen, List.reverse_reverse]
        rfl
      cases hrest with
      | nil =>
          have hend := hfirst []
          rw [List.append_nil] at hend
          rw [unwords, splitWords, hend, splitFrom, hclose]
      | @cons other _ others _ hnext hmore =>
          have hblank : isBlank ' ' = true := by decide
          have htail := ih hothers
          rw [splitWords] at htail
          have hunwords : unwords (text :: other :: others) =
              text ++ ' ' :: unwords (other :: others) := rfl
          rw [hunwords, splitWords, hfirst, splitFrom_blank hblank, htail, Option.map_some, hclose]

end ContractSim.Token
