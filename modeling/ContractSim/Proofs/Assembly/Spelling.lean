import ContractSim.Proofs.Assembly.Words
import ContractSim.Proofs.Pointwise
import ContractSim.Proofs.Text.Numeral
import ContractSim.Proofs.Word
import Mathlib.Data.List.TakeWhile

namespace ContractSim.Token

open ContractSim.Text

theorem name?_eq_some_iff {text : List Char} {name : String} :
    name? text = some name ↔ isName name.toList = true ∧ text = name.toList := by
  unfold name?
  constructor
  · intro hname
    split_ifs at hname with hvalid
    cases hname
    rw [String.toList_ofList]
    exact ⟨hvalid, rfl⟩
  · rintro ⟨hvalid, rfl⟩
    rw [if_pos hvalid, String.ofList_toList]

theorem valueName?_eq_some_iff {text : List Char} {name : String} :
    valueName? text = some name ↔ isName name.toList = true ∧ text = '$' :: name.toList := by
  unfold valueName?
  split
  · rw [name?_eq_some_iff, List.cons.injEq, and_iff_right rfl]
  · rename_i hmark
    refine ⟨nofun, ?_⟩
    rintro ⟨-, rfl⟩
    exact absurd rfl (hmark name.toList)

theorem inParentheses?_eq_some_iff {text inner : List Char} :
    inParentheses? text = some inner ↔ text = '(' :: (inner ++ [')']) := by
  unfold inParentheses?
  split
  · rename_i rest
    split_ifs with hlast
    · have hrest : rest = rest.dropLast ++ [')'] := by
        obtain ⟨init, rfl⟩ := List.getLast?_eq_some_iff.mp hlast
        rw [List.dropLast_concat]
      rw [Option.some.injEq, List.cons.injEq, and_iff_right rfl]
      constructor
      · rintro rfl
        exact hrest
      · rintro rfl
        exact List.dropLast_concat
    · refine ⟨nofun, ?_⟩
      intro hsame
      rw [List.cons.injEq] at hsame
      rw [hsame.2] at hlast
      exact absurd List.getLast?_concat hlast
  · rename_i hopen
    refine ⟨nofun, ?_⟩
    rintro rfl
    exact absurd rfl (hopen _)

-- The characters of a name.
theorem forall_mem_of_isName {text : List Char} (hname : isName text = true) :
    ∀ c ∈ text, isNameRest c = true := by
  cases text with
  | nil => cases hname
  | cons c rest =>
      rw [isName, Bool.and_eq_true, List.all_eq_true] at hname
      refine List.forall_mem_cons.mpr ⟨?_, hname.2⟩
      have hstart := hname.1
      unfold isNameStart at hstart
      unfold isNameRest
      rw [Bool.or_eq_true] at hstart ⊢
      refine hstart.imp_left ?_
      intro halpha
      rw [Char.isAlphanum, halpha, Bool.true_or]

theorem not_mem_of_isName {text : List Char} (hname : isName text = true) {c : Char}
    (hc : isNameRest c = false) : c ∉ text := by
  intro hmem
  rw [forall_mem_of_isName hname c hmem] at hc
  cases hc

theorem toNat_of_isNameRest {c : Char} (hc : isNameRest c = true) :
    48 ≤ c.toNat ∧ c.toNat ≤ 122 := by
  unfold isNameRest Char.isAlphanum Char.isAlpha Char.isUpper Char.isLower Char.isDigit at hc
  simp only [Bool.or_eq_true, Bool.and_eq_true, decide_eq_true_eq, beq_iff_eq, ge_iff_le,
    UInt32.le_iff_toNat_le] at hc
  rcases hc with ((hupper | hlower) | hdigit) | rfl
  · change 65 ≤ c.toNat ∧ c.toNat ≤ 90 at hupper
    omega
  · change 97 ≤ c.toNat ∧ c.toNat ≤ 122 at hlower
    omega
  · change 48 ≤ c.toNat ∧ c.toNat ≤ 57 at hdigit
    omega
  · decide

theorem isPlain_of_isNameRest {c : Char} (hc : isNameRest c = true) : isPlain c = true := by
  obtain ⟨hlow, hhigh⟩ := toNat_of_isNameRest hc
  refine isPlain_iff.mpr ⟨?_, ?_, ?_⟩
  · rintro rfl
    exact absurd hlow (by decide)
  · rintro rfl
    exact absurd hlow (by decide)
  · simp [isBlank]
    omega

-- The word that spells an address.
def addressSpelling (base : String) (offset : Option String) : List Char :=
  '$' :: base.toList ++ (offset.map fun name => '+' :: '$' :: name.toList).getD []

theorem address?_addressSpelling {base : String} {offset : Option String}
    (hbase : isName base.toList = true) (hoffset : ∀ name ∈ offset, isName name.toList = true) :
    address? (addressSpelling base offset) = some (base, offset) := by
  have hbefore : ∀ c ∈ '$' :: base.toList, (c != '+') = true := by
    refine List.forall_mem_cons.mpr ⟨by decide, ?_⟩
    intro c hmem
    have hplus := not_mem_of_isName hbase (c := '+') (by decide)
    rw [bne_iff_ne]
    rintro rfl
    exact hplus hmem
  have hvalue := valueName?_eq_some_iff.mpr ⟨hbase, rfl⟩
  unfold address? addressSpelling
  cases offset with
  | none =>
      rw [Option.map_none, Option.getD_none, List.append_nil, List.dropWhile_eq_nil_iff.mpr hbefore,
        hvalue]
      rfl
  | some name =>
      have hname := valueName?_eq_some_iff.mpr ⟨hoffset name rfl, rfl⟩
      rw [Option.map_some, Option.getD_some, List.dropWhile_append_of_pos hbefore,
        List.takeWhile_append_of_pos hbefore]
      simp [hvalue, hname]

theorem address?_eq_some_iff {text : List Char} {base : String} {offset : Option String} :
    address? text = some (base, offset) ↔
      isName base.toList = true ∧ (∀ name ∈ offset, isName name.toList = true) ∧
        text = addressSpelling base offset := by
  constructor
  · have hsplit := List.takeWhile_append_dropWhile (p := (· != '+')) (l := text)
    unfold address?
    cases hplus : text.dropWhile (· != '+') with
    | nil =>
        simp only [Option.map_eq_some_iff, valueName?_eq_some_iff, Prod.mk.injEq]
        rintro ⟨name, ⟨hname, rfl⟩, rfl, rfl⟩
        exact ⟨hname, nofun, (List.append_nil _).symm⟩
    | cons mark rest =>
        have hmark : mark = '+' := by
          have hhead := List.head_dropWhile_not (p := (· != '+')) (l := text) (by simp [hplus])
          simpa [hplus] using hhead
        rw [hplus, hmark] at hsplit
        simp only [Option.bind_eq_bind, Option.bind_eq_some_iff, valueName?_eq_some_iff,
          Option.some.injEq, Prod.mk.injEq]
        rintro ⟨_, ⟨hbase, hfirst⟩, name, ⟨hname, rfl⟩, rfl, rfl⟩
        rw [hfirst] at hsplit
        refine ⟨hbase, ?_, hsplit.symm⟩
        intro other hother
        cases hother
        exact hname
  · rintro ⟨hbase, hoffset, rfl⟩
    exact address?_addressSpelling hbase hoffset

-- The word that spells a token.
def spelling : Token → List Char
  | .word text => text.toList
  | .cell name => '@' :: name.toList
  | .value name => '$' :: name.toList
  | .cellPointer base offset => '@' :: '(' :: (addressSpelling base offset ++ [')'])
  | .valuePointer base offset => '$' :: '(' :: (addressSpelling base offset ++ [')'])
  | .label name => ':' :: name.toList
  | .literal number => '#' :: hexDigits 16 number.toNat

-- The names of a token are names, and so is a plain word.
def WellFormed : Token → Prop
  | .word name | .cell name | .value name | .label name => isName name.toList = true
  | .cellPointer base offset | .valuePointer base offset =>
      isName base.toList = true ∧ ∀ name ∈ offset, isName name.toList = true
  | .literal _ => True

-- The same word, up to the case of the sixteen digits of a literal.
def SameWord (word other : List Char) : Prop :=
  word = other ∨
    ∃ digits others, word = '#' :: digits ∧ other = '#' :: others ∧ digits.length = 16 ∧
      digits.map Char.toLower = others.map Char.toLower

theorem literal?_eq_some_iff {digits : List Char} {number : Word} :
    literal? digits = some number ↔
      digits.length = 16 ∧ digits.map Char.toLower = hexDigits 16 number.toNat := by
  unfold literal?
  split_ifs with hlength
  · have hread : readDigits 16 Word.modulus 0 digits = .ok number.toNat ↔
        digits.map Char.toLower = hexDigits 16 number.toNat := by
      have hzero : number.toNat / 16 ^ 16 = 0 := Nat.div_eq_of_lt (Word.toNat_lt_modulus number)
      rw [readDigits_eq_ok_iff (by rw [hlength]; decide), hlength, and_iff_left hzero]
    rw [and_iff_right hlength, ← hread]
    split
    · rename_i value hvalue
      have hword : value < Word.modulus := by
        have hbound := (readDigits_eq_ok_iff (by rw [hlength]; decide)).mp hvalue
        rw [hlength] at hbound
        exact Nat.lt_of_div_eq_zero (by decide) hbound.2
      rw [hvalue, Option.some.injEq, Except.ok.injEq]
      constructor
      · rintro rfl
        exact (Word.toNat_ofNat hword).symm
      · rintro rfl
        exact UInt64.ofNat_toNat
    · rename_i fault hfault
      rw [hfault]
      exact ⟨nofun, nofun⟩
  · exact ⟨nofun, fun hspelled => absurd hspelled.1 hlength⟩

theorem map_toLower_hexDigits (width value : Nat) :
    (hexDigits width value).map Char.toLower = hexDigits width value := by
  have hdigit : ∀ digit < 16, (hexDigit digit).toLower = hexDigit digit := by decide
  have hsame : (hexDigits width value).map Char.toLower = (hexDigits width value).map id := by
    apply List.map_congr_left
    intro c hmem
    obtain ⟨digit, hlt, rfl⟩ := exists_of_mem_hexDigits hmem
    exact hdigit digit hlt
  rw [hsame, List.map_id]

theorem SameWord.eq_of_head {text : List Char} {c : Char} {rest : List Char}
    (hsame : SameWord text (c :: rest)) (hc : c ≠ '#') : text = c :: rest := by
  rcases hsame with rfl | ⟨digits, others, -, hother, -⟩
  · rfl
  · exact absurd (List.cons.inj hother).1 hc

theorem SameWord.eq_of_isName {text name : List Char} (hsame : SameWord text name)
    (hname : isName name = true) : text = name := by
  rcases hsame with rfl | ⟨digits, others, -, rfl, -⟩
  · rfl
  · exact absurd hname Bool.false_ne_true

theorem SameWord.exists_digits {text : List Char} {number : Nat}
    (hsame : SameWord text ('#' :: hexDigits 16 number)) :
    ∃ digits, text = '#' :: digits ∧ digits.length = 16 ∧
      digits.map Char.toLower = hexDigits 16 number := by
  rcases hsame with rfl | ⟨digits, others, rfl, hothers, hlength, hlower⟩
  · exact ⟨_, rfl, length_hexDigits 16 _, map_toLower_hexDigits 16 _⟩
  · cases hothers
    exact ⟨digits, rfl, hlength, hlower.trans (map_toLower_hexDigits 16 _)⟩

theorem inParentheses?_eq_none_of_isName {text : List Char} (hname : isName text = true) :
    inParentheses? text = none := by
  cases hinner : inParentheses? text with
  | none => rfl
  | some inner =>
      have hopen : '(' ∈ text := by simp [inParentheses?_eq_some_iff.mp hinner]
      exact absurd hopen (not_mem_of_isName hname (by decide))

-- A word is read as the token that it spells.
theorem ofWord?_of_sameWord {text : List Char} {token : Token} (hform : token.WellFormed)
    (hsame : SameWord text token.spelling) : ofWord? text = some token := by
  cases token with
  | word name =>
      rw [hsame.eq_of_isName hform]
      have hmark : ∀ c rest, name.toList = c :: rest → isNameStart c = true := by
        intro c rest hname
        have hvalid : isName name.toList = true := hform
        rw [hname, isName, Bool.and_eq_true] at hvalid
        exact hvalid.1
      unfold ofWord?
      split
      · exact absurd (hmark _ _ (by assumption)) (by decide)
      · exact absurd (hmark _ _ (by assumption)) (by decide)
      · exact absurd (hmark _ _ (by assumption)) (by decide)
      · exact absurd (hmark _ _ (by assumption)) (by decide)
      · rw [spelling, String.ofList_toList]
  | cell name =>
      rw [hsame.eq_of_head (by decide), ofWord?]
      simp only [inParentheses?_eq_none_of_isName hform, name?_eq_some_iff.mpr ⟨hform, rfl⟩,
        Option.map_some]
  | value name =>
      rw [hsame.eq_of_head (by decide), ofWord?]
      simp only [inParentheses?_eq_none_of_isName hform, name?_eq_some_iff.mpr ⟨hform, rfl⟩,
        Option.map_some]
  | cellPointer base offset =>
      rw [hsame.eq_of_head (by decide), ofWord?]
      simp only [inParentheses?_eq_some_iff.mpr rfl, address?_addressSpelling hform.1 hform.2,
        Option.map_some]
  | valuePointer base offset =>
      rw [hsame.eq_of_head (by decide), ofWord?]
      simp only [inParentheses?_eq_some_iff.mpr rfl, address?_addressSpelling hform.1 hform.2,
        Option.map_some]
  | label name =>
      rw [hsame.eq_of_head (by decide), ofWord?, name?_eq_some_iff.mpr ⟨hform, rfl⟩,
        Option.map_some]
  | literal number =>
      obtain ⟨digits, rfl, hspelled⟩ := hsame.exists_digits
      rw [ofWord?, literal?_eq_some_iff.mpr hspelled, Option.map_some]

theorem sameWord_of_ofWord? {text : List Char} {token : Token} (hread : ofWord? text = some token)
    (hplain : ∀ name, token = .word name → isName name.toList = true) :
    token.WellFormed ∧ SameWord text token.spelling := by
  unfold ofWord? at hread
  split at hread
  · split at hread
    · rename_i inner hinner
      obtain ⟨⟨base, offset⟩, haddress, rfl⟩ := Option.map_eq_some_iff.mp hread
      obtain ⟨hbase, hoffset, rfl⟩ := address?_eq_some_iff.mp haddress
      rw [inParentheses?_eq_some_iff.mp hinner]
      exact ⟨⟨hbase, hoffset⟩, Or.inl rfl⟩
    · obtain ⟨name, hname, rfl⟩ := Option.map_eq_some_iff.mp hread
      obtain ⟨hvalid, rfl⟩ := name?_eq_some_iff.mp hname
      exact ⟨hvalid, Or.inl rfl⟩
  · split at hread
    · rename_i inner hinner
      obtain ⟨⟨base, offset⟩, haddress, rfl⟩ := Option.map_eq_some_iff.mp hread
      obtain ⟨hbase, hoffset, rfl⟩ := address?_eq_some_iff.mp haddress
      rw [inParentheses?_eq_some_iff.mp hinner]
      exact ⟨⟨hbase, hoffset⟩, Or.inl rfl⟩
    · obtain ⟨name, hname, rfl⟩ := Option.map_eq_some_iff.mp hread
      obtain ⟨hvalid, rfl⟩ := name?_eq_some_iff.mp hname
      exact ⟨hvalid, Or.inl rfl⟩
  · obtain ⟨name, hname, rfl⟩ := Option.map_eq_some_iff.mp hread
    obtain ⟨hvalid, rfl⟩ := name?_eq_some_iff.mp hname
    exact ⟨hvalid, Or.inl rfl⟩
  · obtain ⟨number, hnumber, rfl⟩ := Option.map_eq_some_iff.mp hread
    obtain ⟨hlength, hdigits⟩ := literal?_eq_some_iff.mp hnumber
    refine ⟨trivial, Or.inr ⟨_, _, rfl, rfl, hlength, ?_⟩⟩
    rw [hdigits, map_toLower_hexDigits]
  · cases hread
    exact ⟨hplain _ rfl, Or.inl String.toList_ofList.symm⟩

-- An address in a printed line has blanks around its plus sign.
def addressText (base : String) (offset : Option String) : List Char :=
  '$' :: base.toList ++ (offset.map fun name => ' ' :: '+' :: ' ' :: '$' :: name.toList).getD []

-- A token as a printed line shows it.
def printed : Token → List Char
  | .cellPointer base offset => '@' :: '(' :: (addressText base offset ++ [')'])
  | .valuePointer base offset => '$' :: '(' :: (addressText base offset ++ [')'])
  | token => token.spelling

theorem splitFrom_addressText {base : String} {offset : Option String}
    (hbase : isName base.toList = true) (hoffset : ∀ name ∈ offset, isName name.toList = true)
    (depth : Nat) (current rest : List Char) :
    splitFrom (depth + 1) current (addressText base offset ++ rest) =
      splitFrom (depth + 1) ((addressSpelling base offset).reverse ++ current) rest := by
  have hplain : ∀ name : String, isName name.toList = true → ∀ c ∈ '$' :: name.toList,
      isPlain c = true := by
    intro name hname
    refine List.forall_mem_cons.mpr ⟨by decide, ?_⟩
    intro c hmem
    exact isPlain_of_isNameRest (forall_mem_of_isName hname c hmem)
  unfold addressText addressSpelling
  rw [List.append_assoc, splitFrom_plain (hplain base hbase), List.reverse_append,
    List.append_assoc]
  cases offset with
  | none => rfl
  | some name =>
      have hname := splitFrom_plain (hplain name (hoffset name rfl)) (depth + 1)
        ('+' :: (('$' :: base.toList).reverse ++ current)) rest
      simp only [Option.map_some, Option.getD_some, List.cons_append] at hname ⊢
      rw [splitFrom_inner_blank (by decide), splitFrom_plain_cons (by decide),
        splitFrom_inner_blank (by decide), hname]
      simp

theorem spells_printed {token : Token} (hform : token.WellFormed) :
    Spells token.printed token.spelling := by
  have hname : ∀ name : List Char, isName name = true → ∀ c ∈ name, isPlain c = true := by
    intro name hvalid c hmem
    exact isPlain_of_isNameRest (forall_mem_of_isName hvalid c hmem)
  have hpointer : ∀ {mark : Char} {base : String} {offset : Option String}, isPlain mark = true →
      isName base.toList = true → (∀ name ∈ offset, isName name.toList = true) →
      Spells (mark :: '(' :: (addressText base offset ++ [')']))
        (mark :: '(' :: (addressSpelling base offset ++ [')'])) := by
    intro mark base offset hmark hbase hoffset rest
    rw [List.cons_append, List.cons_append, splitFrom_plain_cons hmark, splitFrom_open,
      List.append_assoc, splitFrom_addressText hbase hoffset, List.singleton_append,
      splitFrom_close]
    simp
  cases token with
  | word name => exact spells_plain (hname _ hform)
  | cell name => exact spells_plain (List.forall_mem_cons.mpr ⟨by decide, hname _ hform⟩)
  | value name => exact spells_plain (List.forall_mem_cons.mpr ⟨by decide, hname _ hform⟩)
  | label name => exact spells_plain (List.forall_mem_cons.mpr ⟨by decide, hname _ hform⟩)
  | cellPointer base offset => exact hpointer (by decide) hform.1 hform.2
  | valuePointer base offset => exact hpointer (by decide) hform.1 hform.2
  | literal number =>
      have hdigit : ∀ digit < 16, isPlain (hexDigit digit) = true := by decide
      refine spells_plain (List.forall_mem_cons.mpr ⟨by decide, ?_⟩)
      intro c hmem
      obtain ⟨digit, hlt, rfl⟩ := exists_of_mem_hexDigits hmem
      exact hdigit digit hlt

theorem spelling_ne_nil {token : Token} (hform : token.WellFormed) : token.spelling ≠ [] := by
  cases token with
  | word name =>
      intro hempty
      rw [WellFormed, show name.toList = [] from hempty] at hform
      cases hform
  | cell | value | label | cellPointer | valuePointer | literal => exact List.cons_ne_nil _ _

theorem getLast?_cons_ne {mark c : Char} {rest : List Char} (hrest : rest ≠ [])
    (hc : c ∉ rest) : (mark :: rest).getLast? ≠ some c := by
  rw [List.getLast?_cons_of_ne_nil hrest]
  intro hlast
  exact hc (List.mem_of_getLast? hlast)

-- A word that spells a token has no mark of a directive in front and none of a label behind.
theorem marks_of_sameWord {text : List Char} {token : Token} (hform : token.WellFormed)
    (hsame : SameWord text token.spelling) :
    text.head? ≠ some '^' ∧ text.getLast? ≠ some ':' := by
  have hmark : ∀ {c : Char} (rest : List Char), c ≠ '^' → (c :: rest).head? ≠ some '^' := by
    intro c rest hc hhead
    exact hc (Option.some.inj hhead)
  have hnamed : ∀ c (name : String), isName name.toList = true →
      (c :: name.toList).getLast? ≠ some ':' := by
    intro c name hname
    refine getLast?_cons_ne ?_ (not_mem_of_isName hname (by decide))
    intro hempty
    rw [hempty] at hname
    cases hname
  have hclosed : ∀ text : List Char, (text ++ [')']).getLast? ≠ some ':' := by
    intro text
    rw [List.getLast?_concat]
    decide
  cases token with
  | word name =>
      rw [hsame.eq_of_isName hform]
      constructor
      · intro hhead
        exact not_mem_of_isName hform (by decide) (List.mem_of_mem_head? hhead)
      · intro hlast
        exact not_mem_of_isName hform (by decide) (List.mem_of_getLast? hlast)
  | cell name =>
      rw [hsame.eq_of_head (by decide)]
      exact ⟨hmark _ (by decide), hnamed _ _ hform⟩
  | value name =>
      rw [hsame.eq_of_head (by decide)]
      exact ⟨hmark _ (by decide), hnamed _ _ hform⟩
  | label name =>
      rw [hsame.eq_of_head (by decide)]
      exact ⟨hmark _ (by decide), hnamed _ _ hform⟩
  | cellPointer base offset =>
      rw [hsame.eq_of_head (by decide)]
      exact ⟨hmark _ (by decide), hclosed ('@' :: '(' :: addressSpelling base offset)⟩
  | valuePointer base offset =>
      rw [hsame.eq_of_head (by decide)]
      exact ⟨hmark _ (by decide), hclosed ('$' :: '(' :: addressSpelling base offset)⟩
  | literal number =>
      obtain ⟨digits, rfl, hlength, hdigits⟩ := hsame.exists_digits
      refine ⟨hmark _ (by decide), getLast?_cons_ne ?_ ?_⟩
      · rintro rfl
        cases hlength
      · intro hcolon
        have hlower := List.mem_map_of_mem (f := Char.toLower) hcolon
        rw [hdigits] at hlower
        obtain ⟨digit, hlt, hwritten⟩ := exists_of_mem_hexDigits hlower
        have hdigit : ∀ digit < 16, Char.toLower ':' ≠ hexDigit digit := by decide
        exact hdigit digit hlt hwritten

theorem mapM_ofWord?_eq_some_iff {words : List (List Char)} {tokens : List Token} :
    words.mapM ofWord? = some tokens ↔
      List.Forall₂ (fun word token => ofWord? word = some token) words tokens := by
  induction words generalizing tokens with
  | nil =>
      rw [List.mapM_nil, Option.pure_def, Option.some.injEq, eq_comm, List.forall₂_nil_left_iff]
  | cons word rest ih =>
      simp only [List.mapM_cons, Option.bind_eq_bind, Option.bind_eq_some_iff, Option.pure_def,
        Option.some.injEq, ih, List.forall₂_cons_left_iff]
      constructor
      · rintro ⟨token, htoken, others, hothers, rfl⟩
        exact ⟨token, others, htoken, hothers, rfl⟩
      · rintro ⟨token, others, htoken, hothers, rfl⟩
        exact ⟨token, htoken, others, hothers, rfl⟩

-- A line is read as the tokens that its words spell.
theorem scan_eq_some_iff {text : List Char} {tokens : List Token}
    (hplain : ∀ name, .word name ∈ tokens → isName name.toList = true) :
    scan text = some tokens ↔
      (∀ token ∈ tokens, token.WellFormed) ∧
        ∃ words, splitWords text = some words ∧
          List.Forall₂ SameWord words (tokens.map spelling) := by
  simp only [scan, Option.bind_eq_bind, Option.bind_eq_some_iff, mapM_ofWord?_eq_some_iff,
    List.forall₂_map_right_iff]
  constructor
  · rintro ⟨words, hwords, hread⟩
    have htokens : ∀ token ∈ tokens, ∀ name, token = .word name → isName name.toList = true := by
      rintro token hmem name rfl
      exact hplain name hmem
    have hboth := (List.forall₂_and_left _ _).mpr ⟨htokens, hread.flip⟩
    have hspelled : List.Forall₂ (fun token word => token.WellFormed ∧ SameWord word token.spelling)
        tokens words := by
      refine hboth.imp ?_
      rintro token word ⟨hname, hword⟩
      exact sameWord_of_ofWord? hword hname
    obtain ⟨hform, hsame⟩ := (List.forall₂_and_left _ _).mp hspelled
    exact ⟨hform, words, hwords, hsame.flip⟩
  · rintro ⟨hform, words, hwords, hsame⟩
    have hboth := (List.forall₂_and_left _ _).mpr ⟨hform, hsame.flip⟩
    have hread : List.Forall₂ (fun token word => ofWord? word = some token) tokens words := by
      refine hboth.imp ?_
      rintro token word ⟨hvalid, hword⟩
      exact ofWord?_of_sameWord hvalid hword
    exact ⟨words, hwords, hread.flip⟩

theorem marks_of_sameWords {words : List (List Char)} {tokens : List Token}
    (hform : ∀ token ∈ tokens, token.WellFormed)
    (hsame : List.Forall₂ SameWord words (tokens.map spelling)) :
    ∀ word ∈ words, word.head? ≠ some '^' ∧ word.getLast? ≠ some ':' := by
  rw [List.forall₂_map_right_iff] at hsame
  exact forall_mem_of_forall₂ hsame.flip
    (fun token word hword hvalid => marks_of_sameWord hvalid hword) hform

end ContractSim.Token
