import ContractSim.Proofs.Text.Positional
import ContractSim.Proofs.Word
import ContractSim.Scenario.Literal

namespace ContractSim.Literal

open ContractSim.Text

-- One to eight decimal places of a coin, and the smallest amounts that they stand for.
inductive Places : List Char → Nat → Prop
  | intro {digits : List Char} (hsome : digits ≠ []) (hfew : digits.length ≤ 8)
      (hdigits : DigitsOf 10 digits) :
      Places digits (number 10 digits * 10 ^ (8 - digits.length))

-- An amount in coins: whole ones, places behind a point, or both.
inductive Amount : List Char → Nat → Prop
  | whole {whole : List Char} {coins : Nat} (hwhole : Numeral 10 whole coins) :
      Amount whole (coins * 10 ^ 8)
  | pointed {whole : List Char} {coins : Nat} (hwhole : Numeral 10 whole coins) :
      Amount (whole ++ ['.']) (coins * 10 ^ 8)
  | mixed {whole places : List Char} {coins units : Nat} (hwhole : Numeral 10 whole coins)
      (hplaces : Places places units) :
      Amount (whole ++ '.' :: places) (coins * 10 ^ 8 + units)
  | fraction {places : List Char} {units : Nat} (hplaces : Places places units) :
      Amount ('.' :: places) units

-- The texts that are numbers of a scenario, in lower case, with their values.
inductive Stands : List Char → Nat → Prop
  | decimal {numeral mark : List Char} {value : Nat} (hnumeral : Numeral 10 numeral value)
      (hmark : mark = [] ∨ mark = ['n']) : Stands (numeral ++ mark) value
  | hexadecimal {numeral mark : List Char} {value : Nat} (hnumeral : Numeral 16 numeral value)
      (hmark : mark = [] ∨ mark = ['n']) : Stands ('0' :: 'x' :: numeral ++ mark) value
  | coins {amount : List Char} {value : Nat} (hamount : Amount (trim amount) value) :
      Stands (amount ++ ['s', 'i', 'g', 'n', 'a']) value

section Ending

variable {ending text front : List Char}

theorem before?_eq_some_iff : before? ending text = some front ↔ text = front ++ ending := by
  unfold before?
  by_cases hending : ending <:+ text
  · obtain ⟨rest, rfl⟩ := hending
    simp
  · rw [← List.isSuffixOf_iff_suffix] at hending
    rw [if_neg hending]
    simp only [reduceCtorEq, false_iff]
    rintro rfl
    rw [List.isSuffixOf_iff_suffix] at hending
    exact hending (List.suffix_append _ _)

theorem before?_eq_none_of_not_mem {c : Char} (hending : c ∈ ending) (htext : c ∉ text) :
    before? ending text = none := by
  rw [Option.eq_none_iff_forall_ne_some]
  intro front hfront
  rw [before?_eq_some_iff.mp hfront] at htext
  exact htext (List.mem_append_right _ hending)

-- A mark goes, and without one the text stays.
theorem dropMark_append {mark : List Char} (hmark : mark = [] ∨ mark = ['n'])
    (htext : 'n' ∉ text) : dropMark (text ++ mark) = text := by
  rcases hmark with rfl | rfl
  · rw [dropMark, List.append_nil, before?_eq_none_of_not_mem List.mem_cons_self htext]
    rfl
  · rw [dropMark, before?_eq_some_iff.mpr rfl]
    rfl

theorem exists_mark (text : List Char) :
    ∃ mark, (mark = [] ∨ mark = ['n']) ∧ text = dropMark text ++ mark := by
  cases hbefore : before? ['n'] text with
  | none => exact ⟨[], Or.inl rfl, by rw [dropMark, hbefore]; simp⟩
  | some front =>
      refine ⟨['n'], Or.inr rfl, ?_⟩
      rw [dropMark, hbefore]
      exact before?_eq_some_iff.mp hbefore

end Ending

section Words

theorem word_of_le {value : Nat} (hvalue : Word.modulus ≤ value) :
    word value = .error .outOfRange := if_neg (by omega)

theorem word_eq_ok_iff {value : Nat} {result : Word} :
    word value = .ok result ↔ value = result.toNat := by
  unfold word
  have hlt := result.toNat_lt_modulus
  split_ifs with hvalue
  · rw [Except.ok.injEq, ← UInt64.toNat_inj, Word.toNat_ofNat hvalue]
  · simp only [false_iff]
    omega

-- Reading below a bound and asking for a word is asking for a word, if the bound is no word.
theorem bind_ofNumeral {bound value : Nat} {read : Except NumeralError Nat} {next : Nat → Nat}
    (hread : read = if value < bound then .ok value else .error .overflow)
    (hnext : bound ≤ value → Word.modulus ≤ next value) :
    (do word (next (← ofNumeral read))) = word (next value) := by
  rw [hread]
  by_cases hvalue : value < bound
  · rw [if_pos hvalue]
    rfl
  · rw [if_neg hvalue, word_of_le (hnext (by omega))]
    rfl

end Words

section Coins

variable {text whole rest fraction : List Char}

theorem digitsOf_ten_iff (digits : List Char) :
    DigitsOf 10 digits ↔ digits.all Char.isDigit = true := by
  rw [List.all_eq_true]
  refine forall₂_congr fun c _ => ?_
  rw [digit?_ten]
  split_ifs with hdigit
  · simp [hdigit]
  · simp [hdigit]

-- Eight places are read as they are, and fewer as if zeros stood behind them.
theorem readNumeral_places (hfew : fraction.length ≤ 8) (hdigits : DigitsOf 10 fraction) :
    readNumeral 10 coinBound (fraction ++ List.replicate (coinDecimals - fraction.length) '0') =
      .ok (number 10 fraction * 10 ^ (8 - fraction.length)) := by
  have hfilled : DigitsOf 10 (fraction ++ List.replicate (8 - fraction.length) '0') := by
    refine List.forall_mem_append.mpr ⟨hdigits, ?_⟩
    intro c hc
    rw [List.eq_of_mem_replicate hc]
    decide
  have hlength : (fraction ++ List.replicate (8 - fraction.length) '0').length = 8 := by
    rw [List.length_append, List.length_replicate]
    omega
  have hsome : fraction ++ List.replicate (8 - fraction.length) '0' ≠ [] := by
    intro hnil
    rw [hnil] at hlength
    cases hlength
  have hlt := number_lt hfilled
  rw [hlength, number_append_zeros] at hlt
  have hbound : (10 : Nat) ^ 8 < coinBound := by decide
  have hread := @readNumeral_of_numeral 10 coinBound _ _ (by decide) (.plain hsome hfilled)
  rw [number_append_zeros, if_pos (by omega)] at hread
  exact hread

-- What is left of a point and what is right of it.
theorem takeWhile_point (hwhole : '.' ∉ whole)
    (hrest : rest = [] ∧ fraction = [] ∨ rest = '.' :: fraction) :
    (whole ++ rest).takeWhile (· != '.') = whole ∧
      ((whole ++ rest).dropWhile (· != '.')).drop 1 = fraction := by
  have hplain : ∀ c ∈ whole, (c != '.') = true := by
    intro c hc
    simp only [bne_iff_ne]
    rintro rfl
    exact hwhole hc
  rw [List.takeWhile_append_of_pos hplain, List.dropWhile_append_of_pos hplain]
  rcases hrest with ⟨rfl, rfl⟩ | rfl
  · simp
  · simp

-- Both sides of the point have to be sound before they are put together.
theorem coins_eq {text whole fraction : List Char}
    (hwhole : text.takeWhile (· != '.') = whole)
    (hfraction : (text.dropWhile (· != '.')).drop 1 = fraction) :
    coins text =
      if (whole = [] ∧ fraction = []) ∨ 8 < fraction.length ∨ ¬ DigitsOf 10 fraction then
        .error .invalid
      else
        (wholeCoins whole).bind fun coins =>
          word (coins * 10 ^ 8 + number 10 fraction * 10 ^ (8 - fraction.length)) := by
  have hwrong : (coinDecimals < fraction.length ∨ (!fraction.all Char.isDigit) = true) ↔
      (8 < fraction.length ∨ ¬ DigitsOf 10 fraction) := by
    simp [digitsOf_ten_iff, coinDecimals]
  unfold coins
  rw [hwhole, hfraction]
  by_cases hnone : whole = [] ∧ fraction = []
  · rw [if_pos (by simpa using hnone), if_pos (Or.inl hnone)]
    rfl
  by_cases hbad : 8 < fraction.length ∨ ¬ DigitsOf 10 fraction
  · rw [if_neg (by simpa using hnone), if_pos (hwrong.mpr hbad), if_pos (Or.inr hbad)]
    rfl
  · have hfew : fraction.length ≤ 8 := by
      by_contra hmany
      exact hbad (Or.inl (by omega))
    have hdigits : DigitsOf 10 fraction := by
      by_contra hother
      exact hbad (Or.inr hother)
    rw [if_neg (by simpa using hnone), if_neg (mt hwrong.mp hbad),
      if_neg (not_or.mpr ⟨hnone, hbad⟩)]
    have hunits : coinUnits = 10 ^ 8 := rfl
    simp only [readNumeral_places hfew hdigits, hunits, ofNumeral, bind, Except.bind]

-- Whole coins past the bound are too many for a word, whatever the places are.
theorem bind_wholeCoins {coins : Nat} (units : Nat)
    (hwhole : whole = [] ∧ coins = 0 ∨ Numeral 10 whole coins) :
    ((wholeCoins whole).bind fun coins => word (coins * 10 ^ 8 + units)) =
      word (coins * 10 ^ 8 + units) := by
  rcases hwhole with ⟨rfl, rfl⟩ | hnumeral
  · rfl
  · have hsome : whole.isEmpty = false := by
      cases hnumeral with
      | plain hsome _ => simpa using hsome
      | signed hsome _ => rfl
    have hread : wholeCoins whole = ofNumeral (readNumeral 10 coinBound whole) := by
      rw [wholeCoins, hsome]
      rfl
    rw [hread]
    have hmany : coinBound ≤ coins → Word.modulus ≤ coins * 10 ^ 8 + units := by
      unfold coinBound Word.modulus
      omega
    exact bind_ofNumeral (readNumeral_of_numeral (by decide) hnumeral) hmany

theorem coins_of_parts {coins units : Nat} (hplain : '.' ∉ whole)
    (hwhole : whole = [] ∧ coins = 0 ∨ Numeral 10 whole coins)
    (hrest : rest = [] ∧ fraction = [] ∨ rest = '.' :: fraction)
    (hsome : whole ≠ [] ∨ fraction ≠ []) (hfew : fraction.length ≤ 8)
    (hdigits : DigitsOf 10 fraction)
    (hunits : units = number 10 fraction * 10 ^ (8 - fraction.length)) :
    Literal.coins (whole ++ rest) = word (coins * 10 ^ 8 + units) := by
  obtain ⟨hleft, hright⟩ := takeWhile_point hplain hrest
  rw [coins_eq hleft hright, if_neg ?_, ← hunits]
  · exact bind_wholeCoins units hwhole
  · rintro (⟨rfl, rfl⟩ | hmany | hother)
    · simp at hsome
    · omega
    · exact hother hdigits

theorem coins_of_amount {value : Nat} (hamount : Amount text value) :
    coins text = word value := by
  have hpoint : ∀ {whole coins}, Numeral 10 whole coins → '.' ∉ whole :=
    fun hnumeral => not_mem_of_numeral hnumeral (by decide) (by decide)
  have hnone : DigitsOf 10 [] := List.forall_mem_nil _
  cases hamount with
  | whole hwhole =>
      have hcoins := coins_of_parts (hpoint hwhole) (.inr hwhole) (.inl ⟨rfl, rfl⟩)
        (.inl hwhole.ne_nil) (Nat.zero_le _) hnone rfl
      simpa [number] using hcoins
  | pointed hwhole =>
      have hcoins := coins_of_parts (hpoint hwhole) (.inr hwhole) (.inr rfl)
        (.inl hwhole.ne_nil) (Nat.zero_le _) hnone rfl
      simpa [number] using hcoins
  | mixed hwhole hplaces =>
      obtain ⟨hsome, hfew, hdigits⟩ := hplaces
      exact coins_of_parts (hpoint hwhole) (.inr hwhole) (.inr rfl) (.inr hsome) hfew hdigits rfl
  | fraction hplaces =>
      obtain ⟨hsome, hfew, hdigits⟩ := hplaces
      have hcoins := coins_of_parts List.not_mem_nil (.inl ⟨rfl, rfl⟩) (.inr rfl) (.inr hsome)
        hfew hdigits rfl
      simpa using hcoins

theorem eq_nil_or_numeral_of_wholeCoins {count : Nat} (hok : wholeCoins whole = .ok count) :
    whole = [] ∨ ∃ coins, Numeral 10 whole coins := by
  unfold wholeCoins at hok
  split_ifs at hok with hempty
  · exact .inl (List.isEmpty_iff.mp hempty)
  · cases hread : readNumeral 10 coinBound whole with
    | error error =>
        rw [hread] at hok
        cases error with
        | invalid => cases hok
        | overflow => cases hok
    | ok value => exact .inr (exists_numeral_of_readNumeral hread)

-- The text ends in front of the first point, or goes on with it.
theorem dropWhile_point (text : List Char) :
    text.dropWhile (· != '.') = [] ∨
      text.dropWhile (· != '.') = '.' :: (text.dropWhile (· != '.')).drop 1 := by
  have hhead := List.head?_dropWhile_not (· != '.') text
  cases hrest : text.dropWhile (· != '.') with
  | nil => exact .inl rfl
  | cons c tail =>
      rw [hrest] at hhead
      simp at hhead
      simp [hhead]

theorem exists_amount_of_coins {result : Word} (hok : coins text = .ok result) :
    ∃ value, Amount text value := by
  have htext := List.takeWhile_append_dropWhile (p := (· != '.')) (l := text)
  have hpoint := dropWhile_point text
  rw [coins_eq rfl rfl] at hok
  generalize text.takeWhile (· != '.') = whole at htext hok
  generalize text.dropWhile (· != '.') = rest at htext hpoint hok
  split_ifs at hok with hbad
  obtain ⟨hsome, hfew, hdigits⟩ : ¬(whole = [] ∧ rest.drop 1 = []) ∧
      ¬ 8 < (rest.drop 1).length ∧ DigitsOf 10 (rest.drop 1) := by
    simpa [not_or] using hbad
  obtain ⟨count, hcount⟩ : ∃ count, wholeCoins whole = .ok count := by
    cases hwhole : wholeCoins whole with
    | error error =>
        rw [hwhole] at hok
        cases hok
    | ok count => exact ⟨count, rfl⟩
  subst htext
  -- Either side of the point may be missing, but not both.
  rcases eq_nil_or_numeral_of_wholeCoins hcount with rfl | ⟨coins, hcoins⟩
  · have hfraction : rest.drop 1 ≠ [] := fun hnil => hsome ⟨rfl, hnil⟩
    rcases hpoint with rfl | hpoint
    · exact absurd rfl hfraction
    · rw [hpoint]
      exact ⟨_, .fraction ⟨hfraction, by omega, hdigits⟩⟩
  · rcases hpoint with rfl | hpoint
    · rw [List.append_nil]
      exact ⟨_, .whole hcoins⟩
    · rw [hpoint]
      by_cases hfraction : rest.drop 1 = []
      · rw [hfraction]
        exact ⟨_, .pointed hcoins⟩
      · exact ⟨_, .mixed hcoins ⟨hfraction, by omega, hdigits⟩⟩

end Coins

section Plain

variable {text : List Char} {value : Nat}

theorem plain_of_decimal (hnumeral : Numeral 10 text value) : plain text = word value := by
  have hread := @readNumeral_of_numeral 10 Word.modulus _ _ (by decide) hnumeral
  unfold plain
  split
  · have hx := not_mem_of_numeral hnumeral (by decide : hexDigit? 'x' = none) (by decide)
    simp at hx
  · exact @bind_ofNumeral _ _ _ id hread id

theorem plain_of_hexadecimal (hnumeral : Numeral 16 text value) :
    plain ('0' :: 'x' :: text) = word value :=
  @bind_ofNumeral _ _ _ id (@readNumeral_of_numeral 16 Word.modulus _ _ (by decide) hnumeral) id

theorem exists_numeral_of_bind {base bound : Nat} {result : Word}
    (hok : (do word (← ofNumeral (readNumeral base bound text))) = .ok result) :
    ∃ value, Numeral base text value := by
  cases hread : readNumeral base bound text with
  | error error =>
      rw [hread] at hok
      cases error with
      | invalid => cases hok
      | overflow => cases hok
  | ok value => exact exists_numeral_of_readNumeral hread

theorem exists_numeral_of_plain {result : Word} (hok : plain text = .ok result) :
    (∃ value, Numeral 10 text value) ∨
      ∃ digits value, text = '0' :: 'x' :: digits ∧ Numeral 16 digits value := by
  unfold plain at hok
  split at hok
  · rename_i digits
    obtain ⟨value, hnumeral⟩ := exists_numeral_of_bind hok
    exact .inr ⟨digits, value, rfl, hnumeral⟩
  · exact .inl (exists_numeral_of_bind hok)

end Plain

section Parse

variable {text : String} {value : Nat}

-- The name of a coin has letters that no other number has.
theorem before?_coin_eq_none {text : List Char} (htext : 's' ∉ text) :
    before? ['s', 'i', 'g', 'n', 'a'] text = none :=
  before?_eq_none_of_not_mem List.mem_cons_self htext

theorem not_mem_mark {c : Char} {mark : List Char} (hmark : mark = [] ∨ mark = ['n'])
    (hc : c ≠ 'n') : c ∉ mark := by
  rcases hmark with rfl | rfl
  · exact List.not_mem_nil
  · simpa using hc

theorem parse_eq (text : String) :
    parse text =
      match before? ['s', 'i', 'g', 'n', 'a'] (normalize text) with
      | some amount => coins (trim amount)
      | none => plain (dropMark (normalize text)) := rfl

theorem parse_of_stands (hstands : Stands (normalize text) value) :
    parse text = word value := by
  rw [parse_eq]
  generalize normalize text = spelled at hstands
  cases hstands with
  | @decimal numeral mark _ hnumeral hmark =>
      have hs : 's' ∉ numeral ++ mark :=
        List.not_mem_append (not_mem_of_numeral hnumeral (by decide) (by decide))
          (not_mem_mark hmark (by decide))
      have hn : 'n' ∉ numeral := not_mem_of_numeral hnumeral (by decide) (by decide)
      rw [before?_coin_eq_none hs, dropMark_append hmark hn]
      exact plain_of_decimal hnumeral
  | @hexadecimal numeral mark _ hnumeral hmark =>
      have hs : 's' ∉ '0' :: 'x' :: numeral ++ mark := by
        have hnumeral' : 's' ∉ numeral := not_mem_of_numeral hnumeral (by decide) (by decide)
        have hmark' := not_mem_mark hmark (by decide : 's' ≠ 'n')
        simp [hnumeral', hmark']
      have hn : 'n' ∉ '0' :: 'x' :: numeral := by
        have hnumeral' : 'n' ∉ numeral := not_mem_of_numeral hnumeral (by decide) (by decide)
        simp [hnumeral']
      rw [before?_coin_eq_none hs, dropMark_append hmark hn]
      exact plain_of_hexadecimal hnumeral
  | coins hamount =>
      rw [before?_eq_some_iff.mpr rfl]
      exact coins_of_amount hamount

theorem exists_stands_of_parse {result : Word} (hok : parse text = .ok result) :
    ∃ value, Stands (normalize text) value := by
  rw [parse_eq] at hok
  generalize normalize text = spelled at hok ⊢
  cases hbefore : before? ['s', 'i', 'g', 'n', 'a'] spelled with
  | some amount =>
      simp only [hbefore] at hok
      obtain ⟨value, hamount⟩ := exists_amount_of_coins hok
      rw [before?_eq_some_iff.mp hbefore]
      exact ⟨value, .coins hamount⟩
  | none =>
      simp only [hbefore] at hok
      obtain ⟨mark, hmark, hspelled⟩ := exists_mark spelled
      rw [hspelled]
      rcases exists_numeral_of_plain hok with ⟨value, hnumeral⟩ | ⟨digits, value, hplain, hnumeral⟩
      · exact ⟨value, .decimal hnumeral hmark⟩
      · rw [hplain]
        exact ⟨value, .hexadecimal hnumeral hmark⟩

-- A text that is a number is read as its exact value, or refused as out of range if the value is
-- no word; every other text is refused.
theorem literals_are_exact_or_rejected (text : String) :
    (∀ result : Word, parse text = .ok result ↔ Stands (normalize text) result.toNat) ∧
    (∀ value, Stands (normalize text) value → 2 ^ 64 ≤ value →
      parse text = .error .outOfRange) ∧
    ((∀ value, ¬ Stands (normalize text) value) → ∃ error, parse text = .error error) := by
  refine ⟨?_, ?_, ?_⟩
  · intro result
    constructor
    · intro hok
      obtain ⟨value, hstands⟩ := exists_stands_of_parse hok
      rw [parse_of_stands hstands, word_eq_ok_iff] at hok
      exact hok ▸ hstands
    · intro hstands
      rw [parse_of_stands hstands, word_eq_ok_iff]
  · intro value hstands hlarge
    rw [parse_of_stands hstands]
    exact word_of_le hlarge
  · intro hnone
    cases hresult : parse text with
    | error error => exact ⟨error, rfl⟩
    | ok result =>
        obtain ⟨value, hstands⟩ := exists_stands_of_parse hresult
        exact absurd hstands (hnone value)

-- The least amount in coins that is no word, with a place too many behind it, and a hexadecimal
-- number with everything that may stand around its digits.
theorem literals_are_exact_or_rejected_limits :
    (Stands (normalize "184_467_440_737.09551616 Signa") (2 ^ 64) ∧
      parse "184_467_440_737.09551616 Signa" = .error .outOfRange) ∧
    ((∀ value, ¬ Stands (normalize "184_467_440_737.095516160 Signa") value) ∧
      ∃ error, parse "184_467_440_737.095516160 Signa" = .error error) ∧
    Stands (normalize "\t0X+F_Fn ") 255 ∧ parse "\t0X+F_Fn " = .ok 255 := by
  have hlarge : Stands (normalize "184_467_440_737.09551616 Signa") (2 ^ 64) := by
    have hwhole : Numeral 10 "184467440737".toList 184467440737 :=
      .plain (by decide) (by decide)
    have hplaces : Places "09551616".toList 9551616 := .intro (by decide) (by decide) (by decide)
    exact @Stands.coins "184467440737.09551616 ".toList _ (.mixed hwhole hplaces)
  have hother : ∀ value, ¬ Stands (normalize "184_467_440_737.095516160 Signa") value := by
    intro value hstands
    have hinvalid : parse "184_467_440_737.095516160 Signa" = .error .invalid := by decide
    rw [parse_of_stands hstands, word] at hinvalid
    split_ifs at hinvalid
    cases hinvalid
  have hhexadecimal : Stands (normalize "\t0X+F_Fn ") 255 := by
    have hnumeral : Numeral 16 "+ff".toList 255 := .signed (by decide) (by decide)
    exact .hexadecimal hnumeral (.inr rfl)
  exact ⟨⟨hlarge, (literals_are_exact_or_rejected _).2.1 _ hlarge (by decide)⟩,
    ⟨hother, (literals_are_exact_or_rejected _).2.2 hother⟩, hhexadecimal,
    ((literals_are_exact_or_rejected _).1 255).mpr hhexadecimal⟩

end Parse

end ContractSim.Literal
