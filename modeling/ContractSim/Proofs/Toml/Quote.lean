import ContractSim.Proofs.Hex
import ContractSim.Toml.Parser
import ContractSim.Toml.Printer

namespace ContractSim.Toml

open ContractSim.Text

-- Hexadecimal digits of upper case are read as the number whose last digits they are.
theorem hexValue?_hexDigits (width value : Nat) :
    hexValue? ((hexDigits width value).map Char.toUpper) = some (value % 16 ^ width) := by
  have hupper : ∀ digit < 16, hexDigit? (hexDigit digit).toUpper = some digit := by decide
  induction width generalizing value with
  | zero => rw [Nat.pow_zero, Nat.mod_one]; rfl
  | succ width ih =>
      have hfront := ih (value / 16)
      have hdigit := hupper (value % 16) (Nat.mod_lt _ (by decide))
      rw [hexValue?] at hfront ⊢
      rw [hexDigits, List.map_append, List.foldlM_append, hfront]
      have hvalue : 16 * (value / 16 % 16 ^ width) + value % 16 = value % 16 ^ (width + 1) := by
        rw [Nat.pow_succ', Nat.mod_mul]
        omega
      simp [hdigit, hvalue]

-- An escape behind its backslash that is read as a character. It does not look like the end of a
-- line.
structure Escapes (c : Char) (spelled : List Char) : Prop where
  reads (rest : List Char) : escape? (spelled ++ rest) = some (c, rest)
  stays (rest : List Char) : newline? (skipSpaces (spelled ++ rest)) = none

-- A character that may stand for itself in a string with escapes.
structure Plain (c : Char) : Prop where
  plain : isPlain c = true
  noEscape : c ≠ '\\'

theorem escapes_quote : Escapes '"' ['"'] := ⟨fun _ => rfl, fun _ => rfl⟩

theorem escapes_code {c : Char} (hcode : c.toNat < 128) :
    Escapes c ('u' :: (hexDigits 4 c.toNat).map Char.toUpper) := by
  have hlength : ((hexDigits 4 c.toNat).map Char.toUpper).length = 4 := by
    rw [List.length_map, length_hexDigits]
  constructor
  · intro rest
    have htake : ((hexDigits 4 c.toNat).map Char.toUpper ++ rest).take 4 =
        (hexDigits 4 c.toNat).map Char.toUpper :=
      List.take_left' hlength
    have hdrop : ((hexDigits 4 c.toNat).map Char.toUpper ++ rest).drop 4 = rest :=
      List.drop_left' hlength
    have hroom : ¬((hexDigits 4 c.toNat).map Char.toUpper ++ rest).length < 4 := by
      rw [List.length_append, hlength]
      omega
    have hvalue : c.toNat % 16 ^ 4 = c.toNat := Nat.mod_eq_of_lt (by omega)
    have hscalar : scalarChar? c.toNat = some c := by
      rw [scalarChar?, if_pos (by omega), Char.ofNat_toNat]
    rw [List.cons_append, escape?, htake, hdrop, hexValue?_hexDigits, hvalue, if_neg hroom]
    simp [hscalar]
  · intro rest
    rfl

-- A character other than a double quote stands for itself, ends a line, or is escaped.
theorem escapeChar_cases (long : Bool) {c : Char} (hquote : c ≠ '"') :
    (escapeChar long c = [c] ∧ Plain c) ∨
    (escapeChar long c = [c] ∧ c = '\n' ∧ long = true) ∨
    ∃ spelled, escapeChar long c = '\\' :: spelled ∧ Escapes c spelled := by
  unfold escapeChar
  split
  case h_1 => exact .inr (.inr ⟨['t'], rfl, fun _ => rfl, fun _ => rfl⟩)
  case h_2 =>
    cases long with
    | true => exact .inr (.inl ⟨rfl, rfl, rfl⟩)
    | false => exact .inr (.inr ⟨['n'], rfl, fun _ => rfl, fun _ => rfl⟩)
  case h_3 => exact .inr (.inr ⟨['r'], rfl, fun _ => rfl, fun _ => rfl⟩)
  case h_4 => exact .inr (.inr ⟨['\\'], rfl, fun _ => rfl, fun _ => rfl⟩)
  case h_5 htab hend hreturn hescape =>
    split_ifs with hback hfeed hcontrol
    · have hc : c = Char.ofNat 8 := by rw [← hback, Char.ofNat_toNat]
      subst hc
      exact .inr (.inr ⟨['b'], rfl, fun _ => rfl, fun _ => rfl⟩)
    · have hc : c = Char.ofNat 12 := by rw [← hfeed, Char.ofNat_toNat]
      subst hc
      exact .inr (.inr ⟨['f'], rfl, fun _ => rfl, fun _ => rfl⟩)
    · exact .inr (.inr ⟨_, rfl, escapes_code (by omega)⟩)
    · refine .inl ⟨rfl, ?_, hescape⟩
      have hrange : 32 ≤ c.toNat ∧ c.toNat ≠ 127 := by omega
      simp [isPlain, hrange]

theorem isPlain_of_not_isControl {c : Char} (hcontrol : isControl c = false) (hend : c ≠ '\n') :
    isPlain c = true := by
  by_cases htab : c = '\t'
  · subst htab
    rfl
  · have hcode : 32 ≤ c.toNat ∧ c.toNat ≠ 127 := by simpa [isControl, htab, hend] using hcontrol
    simp [isPlain, hcode]

theorem newline?_of_ne {c : Char} {after : List Char} (hend : c ≠ '\n') (hreturn : c ≠ '\r') :
    newline? (c :: after) = none := by
  rw [newline?.eq_def]
  split
  case h_1 h => exact absurd (List.cons.inj h).1 hend
  case h_2 h => exact absurd (List.cons.inj h).1 hreturn
  case h_3 => rfl

section Short

variable {c : Char} {spelled after text rest : List Char} {bound : Nat}

theorem basic?_escape (hescapes : Escapes c spelled)
    (hafter : basic? bound after = some (text, rest)) :
    basic? (bound + 1) ('\\' :: (spelled ++ after)) = some (c :: text, rest) := by
  rw [basic?, hescapes.reads]
  simp [hafter]

theorem basic?_plain (hplain : Plain c) (hquote : c ≠ '"')
    (hafter : basic? bound after = some (text, rest)) :
    basic? (bound + 1) (c :: after) = some (c :: text, rest) := by
  rw [basic?, if_pos hplain.plain, hafter]
  · rfl
  · exact hquote
  · exact hplain.noEscape

-- A string on one line is read back from its spelling, up to the closing quote.
theorem basic?_escapeFrom {run : Nat} (hbound : (escapeFrom false run text).length < bound) :
    basic? bound (escapeFrom false run text ++ '"' :: rest) = some (text, rest) := by
  induction text generalizing run bound with
  | nil =>
      cases bound with
      | zero => omega
      | succ bound => rfl
  | cons c text ih =>
      cases bound with
      | zero => omega
      | succ bound =>
          rw [escapeFrom] at hbound ⊢
          by_cases hquote : c = '"'
          · subst hquote
            have hnone : ¬run < freeQuotes false := Nat.not_lt_zero _
            rw [if_pos rfl, if_neg hnone, List.length_cons, List.length_cons] at hbound
            rw [if_pos rfl, if_neg hnone]
            have hrest : basic? bound (escapeFrom false 0 text ++ '"' :: rest) =
                some (text, rest) :=
              ih (by omega)
            exact (basic?_escape escapes_quote hrest :)
          · rw [if_neg hquote, List.length_append] at hbound
            rw [if_neg hquote, List.append_assoc]
            rcases escapeChar_cases false hquote with
              ⟨hself, hplain⟩ | ⟨-, -, hlong⟩ | ⟨spelled, hspelled, hescapes⟩
            · rw [hself, List.length_singleton] at hbound
              rw [hself]
              exact basic?_plain hplain hquote (ih (by omega))
            · cases hlong
            · rw [hspelled, List.length_cons] at hbound
              rw [hspelled]
              exact basic?_escape hescapes (ih (by omega))

end Short

section Long

-- How a text is spelled between triples of a quote, behind a run of at most two of these quotes.
inductive Long (quote : Char) (escapes : Bool) : Nat → List Char → List Char → Prop
  | done {run : Nat} (hrun : run ≤ 2) : Long quote escapes run [] []
  | mark {run : Nat} {text code : List Char} (htext : Long quote escapes (run + 1) text code) :
      Long quote escapes run (quote :: text) (quote :: code)
  | plain {run : Nat} {c : Char} {text code : List Char} (hrun : run ≤ 2) (hquote : c ≠ quote)
      (hplain : isPlain c = true) (hescape : escapes = true → c ≠ '\\')
      (htext : Long quote escapes 0 text code) : Long quote escapes run (c :: text) (c :: code)
  | line {run : Nat} {text code : List Char} (hrun : run ≤ 2)
      (htext : Long quote escapes 0 text code) :
      Long quote escapes run ('\n' :: text) ('\n' :: code)
  | escape {run : Nat} {c : Char} {text spelled code : List Char} (hrun : run ≤ 2)
      (hescapes : escapes = true) (hspelled : Escapes c spelled)
      (htext : Long quote escapes 0 text code) :
      Long quote escapes run (c :: text) ('\\' :: spelled ++ code)

variable {quote c : Char} {escapes : Bool} {after text code rest : List Char} {bound run : Nat}

theorem newline?_of_plain (hplain : isPlain c = true) : newline? (c :: after) = none :=
  newline?_of_ne (by rintro rfl; cases hplain) (by rintro rfl; cases hplain)

theorem long?_plain (hplain : isPlain c = true) (hescape : escapes = true → c ≠ '\\')
    (hopen : c = quote → after.take 2 ≠ [quote, quote])
    (hafter : long? quote escapes bound after = some (text, rest)) :
    long? quote escapes (bound + 1) (c :: after) = some (c :: text, rest) := by
  have hclose : ¬(c = quote ∧ after.take 2 = [quote, quote]) := fun h => hopen h.1 h.2
  have hback : ¬(c = '\\' ∧ escapes) := fun h => hescape h.2 h.1
  rw [long?, if_neg hclose, if_neg hback, newline?_of_plain hplain]
  simp [hplain, hafter]

theorem long?_line (hquote : quote ≠ '\n')
    (hafter : long? quote escapes bound after = some (text, rest)) :
    long? quote escapes (bound + 1) ('\n' :: after) = some ('\n' :: text, rest) := by
  have hclose : ¬('\n' = quote ∧ after.take 2 = [quote, quote]) := fun h => hquote h.1.symm
  have hback : ¬('\n' = '\\' ∧ escapes) := fun h => absurd h.1 (by decide)
  rw [long?, if_neg hclose, if_neg hback]
  simp [newline?, hafter]

theorem long?_escape {spelled : List Char} (hquote : quote ≠ '\\') (hescapes : escapes = true)
    (hspelled : Escapes c spelled) (hafter : long? quote escapes bound after = some (text, rest)) :
    long? quote escapes (bound + 1) ('\\' :: (spelled ++ after)) = some (c :: text, rest) := by
  have hclose : ¬('\\' = quote ∧ (spelled ++ after).take 2 = [quote, quote]) :=
    fun h => hquote h.1.symm
  rw [long?, if_neg hclose, if_pos ⟨rfl, hescapes⟩, hspelled.stays, hspelled.reads]
  simp [hafter]

-- Quotes that do not end the string are read as themselves, once something else follows.
theorem long?_marks (hplain : isPlain quote = true) (hescape : quote ≠ '\\') (hrun : run ≤ 2)
    (hc : c ≠ quote) (hafter : long? quote escapes bound (c :: after) = some (text, rest)) :
    long? quote escapes (bound + run) (List.replicate run quote ++ c :: after) =
      some (List.replicate run quote ++ text, rest) := by
  induction run with
  | zero => exact hafter
  | succ run ih =>
      refine long?_plain hplain (fun _ => hescape) (fun _ => ?_) (ih (by omega))
      have hone : run = 0 ∨ run = 1 := by omega
      rcases hone with rfl | rfl
      · simp [hc]
      · simp [hc]

-- A string on several lines is read back from its spelling, up to the closing triple. What a run
-- of quotes means shows only where it ends, so the induction keeps the run in front of the rest.
theorem long?_of_long (hplain : isPlain quote = true) (hescape : quote ≠ '\\')
    (hlong : Long quote escapes run text code) (hbound : run + code.length < bound) :
    long? quote escapes bound
        (List.replicate run quote ++ (code ++ quote :: quote :: quote :: '\n' :: rest)) =
      some (List.replicate run quote ++ text, '\n' :: rest) := by
  have hend : quote ≠ '\n' := by rintro rfl; cases hplain
  induction hlong generalizing bound with
  | @done run hrun =>
      obtain ⟨left, rfl⟩ := Nat.exists_eq_add_of_le' (show 1 ≤ bound by omega)
      have hfew : run = 0 ∨ run = 1 ∨ run = 2 := by omega
      rcases hfew with rfl | rfl | rfl
      · simp [long?, hend.symm]
      · simp [long?, hend.symm]
      · simp [long?]
  | @mark run text code htext ih =>
      rw [List.length_cons] at hbound
      have hread := @ih bound (by omega)
      rw [List.replicate_succ'] at hread
      simpa using hread
  | @plain run c text code hrun hquote hself hback htext ih =>
      rw [List.length_cons] at hbound
      obtain ⟨left, rfl⟩ := Nat.exists_eq_add_of_le (show run + 1 ≤ bound by omega)
      have hread := @ih left (by omega)
      have hnext := long?_plain hself hback (fun h => absurd h hquote) hread
      rw [show run + 1 + left = left + 1 + run by omega]
      exact long?_marks hplain hescape hrun hquote hnext
  | @line run text code hrun htext ih =>
      rw [List.length_cons] at hbound
      obtain ⟨left, rfl⟩ := Nat.exists_eq_add_of_le (show run + 1 ≤ bound by omega)
      have hread := @ih left (by omega)
      rw [show run + 1 + left = left + 1 + run by omega]
      exact long?_marks hplain hescape hrun hend.symm (long?_line hend hread)
  | @escape run c text spelled code hrun hescapes hspelled htext ih =>
      rw [List.length_append, List.length_cons] at hbound
      obtain ⟨left, rfl⟩ := Nat.exists_eq_add_of_le (show run + 1 ≤ bound by omega)
      have hread := @ih left (by omega)
      have hnext := long?_escape hescape hescapes hspelled hread
      rw [show run + 1 + left = left + 1 + run by omega, List.append_assoc]
      exact long?_marks hplain hescape hrun hescape.symm hnext

-- A text whose runs of double quotes are broken by escapes.
theorem long_escapeFrom (hrun : run ≤ 2) : Long '"' true run text (escapeFrom true run text) := by
  induction text generalizing run with
  | nil => exact .done hrun
  | cons c text ih =>
      rw [escapeFrom]
      by_cases hquote : c = '"'
      · subst hquote
        rw [if_pos rfl]
        by_cases hfree : run < freeQuotes true
        · rw [if_pos hfree]
          exact .mark (ih hfree)
        · rw [if_neg hfree]
          exact .escape hrun rfl escapes_quote (ih (by omega))
      · rw [if_neg hquote]
        have htext := ih (Nat.zero_le 2)
        rcases escapeChar_cases true hquote with
          ⟨hself, hplain⟩ | ⟨hself, rfl, -⟩ | ⟨spelled, hspelled, hescapes⟩
        · rw [hself]
          exact .plain hrun hquote hplain.plain (fun _ => hplain.noEscape) htext
        · rw [hself]
          exact .line hrun htext
        · rw [hspelled]
          exact .escape hrun rfl hescapes htext

theorem le_longestRunFrom (mark : Char) (run : Nat) (text : List Char) :
    run ≤ longestRunFrom mark run text := by
  induction text generalizing run with
  | nil => exact Nat.le_refl run
  | cons c text ih =>
      rw [longestRunFrom]
      split_ifs
      · exact Nat.le_of_succ_le (ih (run + 1))
      · exact Nat.le_max_left _ _

theorem not_mem_of_longestRun {mark : Char} (hnone : longestRun mark text = 0) : mark ∉ text := by
  rw [longestRun] at hnone
  induction text with
  | nil => exact List.not_mem_nil
  | cons c text ih =>
      rw [longestRunFrom] at hnone
      split_ifs at hnone with hc
      · have hle := le_longestRunFrom mark (0 + 1) text
        omega
      · rw [List.mem_cons, not_or]
        exact ⟨Ne.symm hc, ih (by omega)⟩

-- A text without control characters and without long runs of a quote stands for itself.
theorem long_self (hplain : ∀ c ∈ text, isControl c = false)
    (hshort : longestRunFrom quote run text ≤ 2) : Long quote false run text text := by
  induction text generalizing run with
  | nil => exact .done hshort
  | cons c text ih =>
      obtain ⟨hc, htext⟩ := List.forall_mem_cons.mp hplain
      rw [longestRunFrom] at hshort
      split_ifs at hshort with hquote
      · subst hquote
        exact .mark (ih htext hshort)
      · have hrun : run ≤ 2 := by omega
        have hrest := @ih 0 htext (by omega)
        by_cases hend : c = '\n'
        · subst hend
          exact .line hrun hrest
        · exact .plain hrun hquote (isPlain_of_not_isControl hc hend) nofun hrest

end Long

section Quote

variable {text rest : List Char}

-- A string between single quotes is read as it is.
theorem literal?_self (hplain : ∀ c ∈ text, isPlain c = true) (hquote : '\'' ∉ text) :
    literal? (text ++ '\'' :: rest) = some (text, rest) := by
  have hall : ∀ c ∈ text, (isPlain c && c != '\'') = true := by
    intro c hc
    have hne : c ≠ '\'' := fun h => hquote (h ▸ hc)
    simp [hplain c hc, hne]
  rw [literal?, List.dropWhile_append_of_pos hall, List.takeWhile_append_of_pos hall]
  exact congrArg (fun text => some (text, rest)) (List.append_nil text)

-- The line end that is written in front of a text of several lines is not read as part of it.
theorem skipFirstLine_of_long {quote : Char} {escapes : Bool} {code tail : List Char} {run : Nat}
    (hplain : isPlain quote = true) (hlong : Long quote escapes run text code) :
    skipFirstLine ((if text.contains '\n' then ['\n'] else []) ++ (code ++ quote :: tail)) =
      code ++ quote :: tail := by
  split_ifs with hlines
  · rfl
  · have hone : '\n' ∉ text := fun hmem => hlines (List.contains_iff_mem.mpr hmem)
    have hnone : newline? (code ++ quote :: tail) = none := by
      cases hlong with
      | done => exact newline?_of_plain hplain
      | mark => exact newline?_of_plain hplain
      | plain _ _ hself => exact newline?_of_plain hself
      | line => exact absurd List.mem_cons_self hone
      | escape => rfl
    rw [List.nil_append, skipFirstLine, hnone, Option.getD_none]

-- Two quotes that no third one follows are the whole of an empty string.
theorem string?_of_basic (body : List Char) (hopen : body.take 2 ≠ ['"', '"']) :
    string? ('"' :: body) = basic? (body.length + 1) body := by
  rw [string?.eq_def]
  split
  case h_1 rest h => exact absurd (by rw [(List.cons.inj h).2]; rfl) hopen
  case h_2 h => cases h
  case h_3 h => rw [(List.cons.inj h).2]
  case h_4 h => cases h
  case h_5 hbasic hliteral => exact absurd rfl (hbasic body)

theorem string?_of_literal (body : List Char) (hopen : body.take 2 ≠ ['\'', '\'']) :
    string? ('\'' :: body) = literal? body := by
  rw [string?.eq_def]
  split
  case h_1 h => cases h
  case h_2 rest h => exact absurd (by rw [(List.cons.inj h).2]; rfl) hopen
  case h_3 h => cases h
  case h_4 h => rw [(List.cons.inj h).2]
  case h_5 hliteral => exact absurd rfl (hliteral body)

-- A spelling on one line never starts with a plain double quote.
theorem head?_escapeFrom (run : Nat) (text : List Char) :
    (escapeFrom false run text).head? ≠ some '"' := by
  cases text with
  | nil => exact nofun
  | cons c text =>
      rw [escapeFrom]
      by_cases hquote : c = '"'
      · have hnone : ¬run < freeQuotes false := Nat.not_lt_zero run
        rw [if_pos hquote, if_neg hnone]
        simp
      · rw [if_neg hquote]
        rcases escapeChar_cases false hquote with
          ⟨hself, -⟩ | ⟨-, -, hlong⟩ | ⟨spelled, hspelled, -⟩
        · simp [hself, hquote]
        · cases hlong
        · simp [hspelled]

-- What stands between two quotes on one line does not look like more quotes.
theorem take_ne_of_head? (rest : List Char) {quote : Char} {code : List Char}
    (hend : quote ≠ '\n') (hcode : code.head? ≠ some quote) :
    (code ++ quote :: '\n' :: rest).take 2 ≠ [quote, quote] := by
  cases code with
  | nil => simp [hend.symm]
  | cons c after =>
      have hc : c ≠ quote := fun h => hcode (congrArg some h)
      simp [hc]

theorem of_styleOf_literal (hstyle : styleOf text = .literal) :
    (∀ c ∈ text, isPlain c = true) ∧ '\'' ∉ text := by
  rw [styleOf] at hstyle
  split_ifs at hstyle with hbasic hliteral
  simp only [Bool.and_eq_true, Bool.not_eq_true', decide_eq_true_eq] at hliteral
  obtain ⟨⟨hcontrol, hsingle⟩, hlines⟩ := hliteral
  refine ⟨fun c hc => ?_, not_mem_of_longestRun hsingle⟩
  refine isPlain_of_not_isControl (Bool.eq_false_iff.mpr (List.any_eq_false.mp hcontrol c hc)) ?_
  rintro rfl
  rw [List.contains_iff_mem.mpr hc] at hlines
  cases hlines

theorem of_styleOf_longLiteral (hstyle : styleOf text = .longLiteral) :
    Long '\'' false 0 text text := by
  rw [styleOf] at hstyle
  split_ifs at hstyle with hbasic hliteral hlong hlongLiteral
  simp only [Bool.and_eq_true, Bool.not_eq_true', decide_eq_true_eq] at hlongLiteral
  exact long_self (fun c hc => Bool.eq_false_iff.mpr (List.any_eq_false.mp hlongLiteral.1 c hc))
    hlongLiteral.2

-- A text is read back from what stands between two triples of a quote.
theorem long?_skipFirstLine {quote : Char} {escapes : Bool} {code : List Char}
    (hplain : isPlain quote = true) (hescape : quote ≠ '\\')
    (hlong : Long quote escapes 0 text code) (rest : List Char) :
    let body := (if text.contains '\n' then ['\n'] else []) ++
      (code ++ quote :: quote :: quote :: '\n' :: rest)
    long? quote escapes (body.length + 1) (skipFirstLine body) = some (text, '\n' :: rest) := by
  intro body
  have hbound : 0 + code.length < body.length + 1 := by
    simp only [body, List.length_append]
    omega
  rw [skipFirstLine_of_long hplain hlong]
  exact long?_of_long hplain hescape hlong hbound

-- Every string is read back from its spelling in quotes, up to the end of the line.
theorem string?_quote (text : String) (rest : List Char) :
    string? ((quote text).toList ++ '\n' :: rest) = some (text.toList, '\n' :: rest) := by
  rw [quote, String.toList_ofList]
  cases hstyle : styleOf text.toList with
  | basic =>
      have hbound : (escapeFrom false 0 text.toList).length <
          (escapeFrom false 0 text.toList ++ '"' :: '\n' :: rest).length + 1 := by
        rw [List.length_append]
        omega
      have hread := string?_of_basic _
        (take_ne_of_head? rest (by decide) (head?_escapeFrom 0 text.toList))
      rw [basic?_escapeFrom hbound] at hread
      simpa [StringStyle.quotes, StringStyle.isLong, StringStyle.hasEscapes] using hread
  | literal =>
      obtain ⟨hplain, hquote⟩ := of_styleOf_literal hstyle
      have hread := string?_of_literal _ (take_ne_of_head? rest (by decide)
        fun hhead => hquote (List.mem_of_head? hhead))
      rw [literal?_self hplain hquote] at hread
      simpa [StringStyle.quotes, StringStyle.isLong, StringStyle.hasEscapes] using hread
  | longBasic =>
      have hread := long?_skipFirstLine (by decide) (by decide)
        (@long_escapeFrom text.toList 0 (by decide)) rest
      simpa [StringStyle.quotes, StringStyle.isLong, StringStyle.hasEscapes, string?] using hread
  | longLiteral =>
      have hread := long?_skipFirstLine (by decide) (by decide)
        (of_styleOf_longLiteral hstyle) rest
      simpa [StringStyle.quotes, StringStyle.isLong, StringStyle.hasEscapes, string?] using hread

end Quote

end ContractSim.Toml
