import ContractSim.Proofs.Contract.Load

namespace ContractSim

namespace Text

theorem length_dropBlanks_le (text : List Char) : (dropBlanks text).length ≤ text.length :=
  (List.dropWhile_sublist isBlank).length_le

theorem length_trim_le (text : List Char) : (trim text).length ≤ text.length := by
  have hend := length_dropBlanks_le (dropBlanks text).reverse
  have hstart := length_dropBlanks_le text
  rw [List.length_reverse] at hend
  rw [trim, List.length_reverse]
  omega

theorem length_dropReturn_le (line : List Char) : (dropReturn line).length ≤ line.length := by
  unfold dropReturn
  split
  · exact Nat.le_succ _
  · exact Nat.le_refl _

-- All lines together are no longer than the text.
theorem sum_length_linesFrom_le (current text : List Char) :
    ((linesFrom current text).map List.length).sum ≤ current.length + text.length := by
  induction text generalizing current with
  | nil =>
      unfold linesFrom
      split_ifs
      · exact Nat.zero_le _
      · simp
  | cons c rest ih =>
      unfold linesFrom
      split_ifs
      · have hrest := ih []
        have hline := length_dropReturn_le current
        simp only [List.map_cons, List.sum_cons, List.length_reverse, List.length_cons,
          List.length_nil] at hrest ⊢
        omega
      · have hrest := ih (c :: current)
        simp only [List.length_cons] at hrest ⊢
        omega

end Text

namespace Token

-- The names of cells and values in a token.
def names : Token → List String
  | .cell name | .value name => [name]
  | .cellPointer base offset | .valuePointer base offset => base :: offset.toList
  | .word _ | .label _ | .literal _ => []

theorem length_pos_of_inParentheses? {text inner : List Char}
    (hinner : inParentheses? text = some inner) : 0 < text.length := by
  cases text with
  | nil => cases hinner
  | cons => exact Nat.succ_pos _

-- Each name has a sign of its own in front of it.
theorem length_names_le {text : List Char} {token : Token} (hword : ofWord? text = some token) :
    token.names.length ≤ text.length := by
  have hpair : ∀ (base : String) (offset : Option String), (base :: offset.toList).length ≤ 2 := by
    intro base offset
    cases offset with
    | none => exact Nat.le_succ 1
    | some name => exact Nat.le_refl 2
  unfold ofWord? at hword
  split at hword
  · split at hword
    · rename_i rest _ inner hinner
      obtain ⟨⟨base, offset⟩, -, rfl⟩ := Option.map_eq_some_iff.mp hword
      exact Nat.le_trans (hpair base offset)
        (Nat.succ_le_succ (length_pos_of_inParentheses? hinner))
    · obtain ⟨name, -, rfl⟩ := Option.map_eq_some_iff.mp hword
      exact Nat.succ_le_succ (Nat.zero_le _)
  · split at hword
    · rename_i rest _ inner hinner
      obtain ⟨⟨base, offset⟩, -, rfl⟩ := Option.map_eq_some_iff.mp hword
      exact Nat.le_trans (hpair base offset)
        (Nat.succ_le_succ (length_pos_of_inParentheses? hinner))
    · obtain ⟨name, -, rfl⟩ := Option.map_eq_some_iff.mp hword
      exact Nat.succ_le_succ (Nat.zero_le _)
  · obtain ⟨name, -, rfl⟩ := Option.map_eq_some_iff.mp hword
    exact Nat.zero_le _
  · obtain ⟨value, -, rfl⟩ := Option.map_eq_some_iff.mp hword
    exact Nat.zero_le _
  · cases hword
    exact Nat.zero_le _

theorem sum_length_closeWord (current : List Char) (following : List (List Char)) :
    ((closeWord current following).map List.length).sum =
      current.length + (following.map List.length).sum := by
  unfold closeWord
  split_ifs with hempty
  · rw [List.isEmpty_iff.mp hempty, List.length_nil, Nat.zero_add]
  · rw [List.map_cons, List.sum_cons, List.length_reverse]

-- All words together are no longer than the text.
theorem sum_length_splitFrom_le {depth : Nat} {current text : List Char}
    {words : List (List Char)} (hsplit : splitFrom depth current text = some words) :
    (words.map List.length).sum ≤ current.length + text.length := by
  fun_induction splitFrom depth current text generalizing words with
  | case1 current =>
      cases hsplit
      rw [sum_length_closeWord]
      exact Nat.le_refl _
  | case2 => cases hsplit
  | case3 depth current rest ih =>
      have hrest := ih hsplit
      simp only [List.length_cons] at hrest ⊢
      omega
  | case4 => cases hsplit
  | case5 current rest outer _ ih =>
      have hrest := ih hsplit
      simp only [List.length_cons] at hrest ⊢
      omega
  | case6 current c rest _ _ _ ih =>
      obtain ⟨following, hfollowing, rfl⟩ := Option.map_eq_some_iff.mp hsplit
      have hrest := ih hfollowing
      rw [sum_length_closeWord]
      simp only [List.length_cons, List.length_nil] at hrest ⊢
      omega
  | case7 current c rest _ _ _ inner ih =>
      have hrest := ih hsplit
      simp only [List.length_cons] at hrest ⊢
      omega
  | case8 depth current c rest _ _ _ ih =>
      have hrest := ih hsplit
      simp only [List.length_cons] at hrest ⊢
      omega

theorem length_names_mapM_le {words : List (List Char)} {tokens : List Token}
    (hwords : words.mapM ofWord? = some tokens) :
    (tokens.flatMap names).length ≤ (words.map List.length).sum := by
  induction words generalizing tokens with
  | nil =>
      cases hwords
      exact Nat.le_refl _
  | cons word rest ih =>
      simp only [List.mapM_cons, Option.bind_eq_bind, Option.bind_eq_some_iff,
        Option.pure_def, Option.some.injEq] at hwords
      obtain ⟨token, htoken, others, hothers, rfl⟩ := hwords
      have hfirst := length_names_le htoken
      have hrest := ih hothers
      rw [List.flatMap_cons, List.length_append, List.map_cons, List.sum_cons]
      omega

-- A line of code has no more names than characters.
theorem length_names_scan_le {text : List Char} {tokens : List Token}
    (hscan : scan text = some tokens) : (tokens.flatMap names).length ≤ text.length := by
  obtain ⟨words, hwords, htokens⟩ := Option.bind_eq_some_iff.mp hscan
  have hsplit := sum_length_splitFrom_le hwords
  have hnames := length_names_mapM_le htokens
  rw [List.length_nil, Nat.zero_add] at hsplit
  omega

end Token

namespace Instruction

open Token

theorem names_valueNames? {tokens : List Token} {arguments : List String}
    (hvalues : valueNames? tokens = some arguments) : arguments = tokens.flatMap names := by
  induction tokens generalizing arguments with
  | nil =>
      cases hvalues
      rfl
  | cons token rest ih =>
      unfold valueNames? at hvalues ih
      simp only [List.mapM_cons, Option.bind_eq_bind, Option.bind_eq_some_iff,
        Option.pure_def, Option.some.injEq] at hvalues
      obtain ⟨name, hname, others, hothers, rfl⟩ := hvalues
      cases token with
      | value =>
          cases hname
          rw [ih hothers]
          rfl
      | word | cell | cellPointer | valuePointer | label | literal => cases hname

-- An instruction has the names of its tokens.
theorem cellNames_ofOperands? {mnemonic : String} {operands : List Token}
    {instruction : Instruction} (hread : ofOperands? mnemonic operands = some instruction) :
    instruction.cellNames = operands.flatMap names := by
  unfold ofOperands? at hread
  split at hread
  · unfold ofBare? at hread
    split at hread
    all_goals cases hread
    all_goals rfl
  · unfold ofCell? at hread
    split at hread
    all_goals cases hread
    all_goals rfl
  · unfold ofValue? at hread
    split at hread
    all_goals cases hread
    all_goals rfl
  · unfold ofLabel? at hread
    split at hread
    all_goals cases hread
    all_goals rfl
  · split_ifs at hread
    cases hread
    rfl
  · unfold ofCellValue? at hread
    split_ifs at hread
    · cases hread
      rfl
    · obtain ⟨op, -, rfl⟩ := Option.map_eq_some_iff.mp hread
      rfl
  · split_ifs at hread
    cases hread
    rfl
  · split_ifs at hread
    cases hread
    rfl
  · split_ifs at hread
    cases hread
    rfl
  · split_ifs at hread
    cases hread
    rfl
  · unfold ofValueLabel? at hread
    split at hread
    all_goals cases hread
    all_goals rfl
  · split_ifs at hread
    cases hread
    rfl
  · obtain ⟨condition, -, rfl⟩ := Option.map_eq_some_iff.mp hread
    rfl
  · cases hread

theorem cellNames_ofCall? {result : Option String} {name : String} {arguments : List Token}
    {instruction : Instruction} (hread : ofCall? result name arguments = some instruction) :
    instruction.cellNames = result.toList ++ arguments.flatMap names := by
  simp only [ofCall?, Option.bind_eq_bind, Option.bind_eq_some_iff] at hread
  obtain ⟨values, hvalues, function, -, hcall⟩ := hread
  split_ifs at hcall
  cases hcall
  rw [cellNames, names_valueNames? hvalues]

theorem cellNames_ofTokens? {tokens : List Token} {instruction : Instruction}
    (hread : ofTokens? tokens = some instruction) :
    instruction.cellNames = tokens.flatMap names := by
  unfold ofTokens? at hread
  split at hread
  · exact cellNames_ofCall? hread
  · exact cellNames_ofCall? hread
  · have hnames := cellNames_ofOperands? hread
    exact hnames
  · cases hread

end Instruction

namespace Line

theorem length_names_ofTrimmed_le (text : List Char) :
    (ofTrimmed text).declared.length + (ofTrimmed text).used.length ≤ text.length := by
  unfold ofTrimmed
  split
  · exact Nat.le_refl 0
  · rename_i rest
    cases Directive.ofText rest with
    | declare name => exact Nat.succ_le_succ (Nat.zero_le _)
    | comment | const | setting | malformed | unknown => exact Nat.zero_le _
  · split_ifs
    · split
      · exact Nat.zero_le _
      · exact Nat.zero_le _
    · split
      · rename_i instruction hread
        obtain ⟨tokens, hscan, htokens⟩ := Option.bind_eq_some_iff.mp hread
        have hnames := Token.length_names_scan_le hscan
        rw [← Instruction.cellNames_ofTokens? htokens] at hnames
        exact Nat.le_trans (Nat.le_of_eq (Nat.zero_add _)) hnames
      · exact Nat.zero_le _

end Line

namespace Program

theorem length_names_lines_le (texts : List String) :
    (texts.flatMap fun text => (Line.parse text).declared).length +
        (texts.flatMap fun text => (Line.parse text).used).length ≤
      (texts.map String.length).sum := by
  induction texts with
  | nil => exact Nat.le_refl 0
  | cons text rest ih =>
      have htrim := Text.length_trim_le text.toList
      have hline := Line.length_names_ofTrimmed_le (Text.trim text.toList)
      rw [String.length_toList] at htrim
      simp only [List.flatMap_cons, List.length_append, List.map_cons, List.sum_cons, Line.parse]
        at ih ⊢
      omega

-- A source has no more names than characters.
theorem length_names_parse_le (source : String) : (parse source).names.length ≤ source.length := by
  have hnames := Header.length_foldl_addName_le []
    ((parse source).declaredNames ++ (parse source).cellNames)
  have hlines := length_names_lines_le (Text.lines source)
  have hsource := Text.sum_length_linesFrom_le [] source.toList
  have hdeclared : (parse source).declaredNames =
      (Text.lines source).flatMap fun text => (Line.parse text).declared := by
    rw [declaredNames, parse, ofLines, List.flatMap_map]
  have hused : (parse source).cellNames =
      (Text.lines source).flatMap fun text => (Line.parse text).used := by
    rw [cellNames_eq_flatMap_used, parse, ofLines, List.flatMap_map]
  have hlengths : ((Text.lines source).map String.length).sum =
      ((Text.linesFrom [] source.toList).map List.length).sum := by
    rw [Text.lines, List.map_map]
    congr 1
    apply List.map_congr_left
    intro line _
    exact String.length_ofList
  rw [hdeclared, hused, List.length_append, List.length_nil] at hnames
  rw [List.length_nil, String.length_toList] at hsource
  rw [names, hdeclared, hused]
  omega

end Program

end ContractSim
