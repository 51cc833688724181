import ContractSim.Proofs.Assembly.Spelling
import ContractSim.Assembly.Line

namespace ContractSim

open ContractSim.Text

namespace ApiFunction

theorem mem_all (function : ApiFunction) : function ∈ all := by
  cases function with
  | getLane register lane | setLane register lane =>
      cases register <;> cases lane <;> decide
  | setLowLanes register | setHighLanes register | clear register | copyTo register
  | isZero register => cases register <;> decide
  | bitwise op register => cases op <;> cases register <;> decide
  | wide op register => cases op <;> cases register <;> decide
  | hash algorithm | checkHash algorithm => cases algorithm <;> decide
  | _ => decide

theorem ofName?_eq_some_iff {name : String} {function : ApiFunction} :
    ofName? name = some function ↔ name = function.name := by
  have hread : ∀ function ∈ all, ofName? function.name = some function := by decide +kernel
  constructor
  · intro hname
    have hsame := List.find?_some hname
    exact (beq_iff_eq.mp hsame).symm
  · rintro rfl
    exact hread function (mem_all function)

theorem isName_name (function : ApiFunction) : Token.isName function.name.toList = true := by
  have hnames : ∀ function ∈ all, Token.isName function.name.toList = true := by decide +kernel
  exact hnames function (mem_all function)

end ApiFunction

namespace ArithOp

theorem ofMnemonic?_eq_some_iff {text : String} {op : ArithOp} :
    ofMnemonic? text = some op ↔ text = op.mnemonic := by
  constructor
  · intro hname
    have hsame := List.find?_some hname
    exact (beq_iff_eq.mp hsame).symm
  · rintro rfl
    cases op <;> decide

end ArithOp

namespace Comparison

theorem ofMnemonic?_eq_some_iff {text : String} {condition : Comparison} :
    ofMnemonic? text = some condition ↔ text = condition.mnemonic := by
  constructor
  · intro hname
    have hsame := List.find?_some hname
    exact (beq_iff_eq.mp hsame).symm
  · rintro rfl
    cases condition <;> decide

end Comparison

namespace Instruction

-- The names of labels in an instruction.
def labelNames : Instruction → List String
  | .jumpSub label | .jump label | .setHandler label => [label]
  | .branchZero _ label | .branchNotZero _ label | .branch _ _ _ label => [label]
  | _ => []

-- A call has the operands that its function takes.
def CallFits : Instruction → Prop
  | .call function result arguments => function.shape = ⟨result.isSome, arguments.length⟩
  | _ => True

-- All names are names, and a call has the operands that its function takes.
structure WellFormed (instruction : Instruction) : Prop where
  named : ∀ name ∈ instruction.cellNames ++ instruction.labelNames,
    Token.isName name.toList = true
  fits : instruction.CallFits

-- The tokens of an instruction.
def tokens : Instruction → List Token
  | .setValue target value => [.word "SET", .cell target, .literal value]
  | .copy target source => [.word "SET", .cell target, .value source]
  | .clear target => [.word "CLR", .cell target]
  | .increment target => [.word "INC", .cell target]
  | .decrement target => [.word "DEC", .cell target]
  | .complement target => [.word "NOT", .cell target]
  | .arith op target source => [.word op.mnemonic, .cell target, .value source]
  | .load target pointer => [.word "SET", .cell target, .valuePointer pointer none]
  | .loadIndexed target base offset =>
      [.word "SET", .cell target, .valuePointer base (some offset)]
  | .store pointer source => [.word "SET", .cellPointer pointer none, .value source]
  | .storeIndexed base offset source =>
      [.word "SET", .cellPointer base (some offset), .value source]
  | .push source => [.word "PSH", .value source]
  | .pop target => [.word "POP", .cell target]
  | .jumpSub label => [.word "JSR", .label label]
  | .ret => [.word "RET"]
  | .jump label => [.word "JMP", .label label]
  | .setHandler label => [.word "ERR", .label label]
  | .setRestart => [.word "PCS"]
  | .nop => [.word "NOP"]
  | .branchZero source label => [.word "BZR", .value source, .label label]
  | .branchNotZero source label => [.word "BNZ", .value source, .label label]
  | .branch condition left right label =>
      [.word condition.mnemonic, .value left, .value right, .label label]
  | .mulDiv target multiplier divisor =>
      [.word "MDV", .cell target, .value multiplier, .value divisor]
  | .sleep blocks => .word "SLP" :: blocks.toList.map .value
  | .finishIfZero source => [.word "FIZ", .value source]
  | .stopIfZero source => [.word "STZ", .value source]
  | .finish => [.word "FIN"]
  | .stop => [.word "STP"]
  | .call function result arguments =>
      .word "FUN" :: (result.toList.map .cell ++ .word function.name :: arguments.map .value)

theorem valueNames?_eq_some_iff {tokens : List Token} {names : List String} :
    valueNames? tokens = some names ↔ tokens = names.map .value := by
  unfold valueNames?
  induction tokens generalizing names with
  | nil =>
      rw [List.mapM_nil, Option.pure_def, Option.some.injEq, eq_comm, @eq_comm _ [],
        List.map_eq_nil_iff]
  | cons token rest ih =>
      simp only [List.mapM_cons, Option.bind_eq_bind, Option.bind_eq_some_iff, Option.pure_def,
        Option.some.injEq, ih]
      constructor
      · rintro ⟨name, hname, others, rfl, rfl⟩
        cases token with
        | value => cases hname; rfl
        | word | cell | cellPointer | valuePointer | label | literal => cases hname
      · intro hnames
        cases names with
        | nil => cases hnames
        | cons name others =>
            cases hnames
            exact ⟨name, rfl, others, rfl, rfl⟩

-- Operands that only one mnemonic takes.
theorem tokens_of_mnemonic {mnemonic word : String} {operands : List Token}
    {parsed instruction : Instruction}
    (hread : (if mnemonic = word then some parsed else none) = some instruction)
    (hfits : parsed.CallFits) (htokens : parsed.tokens = .word word :: operands) :
    instruction.CallFits ∧ instruction.tokens = .word mnemonic :: operands := by
  split_ifs at hread with hword
  cases hread
  rw [hword]
  exact ⟨hfits, htokens⟩

theorem tokens_of_ofOperands? {mnemonic : String} {operands : List Token}
    {instruction : Instruction} (hread : ofOperands? mnemonic operands = some instruction) :
    instruction.CallFits ∧ instruction.tokens = .word mnemonic :: operands := by
  unfold ofOperands? at hread
  split at hread
  · unfold ofBare? at hread
    split at hread
    all_goals cases hread
    all_goals exact ⟨trivial, rfl⟩
  · unfold ofCell? at hread
    split at hread
    all_goals cases hread
    all_goals exact ⟨trivial, rfl⟩
  · unfold ofValue? at hread
    split at hread
    all_goals cases hread
    all_goals exact ⟨trivial, rfl⟩
  · unfold ofLabel? at hread
    split at hread
    all_goals cases hread
    all_goals exact ⟨trivial, rfl⟩
  · exact tokens_of_mnemonic hread trivial rfl
  · unfold ofCellValue? at hread
    split_ifs at hread with hset
    · cases hread
      exact ⟨trivial, by rw [hset]; rfl⟩
    · obtain ⟨op, hop, rfl⟩ := Option.map_eq_some_iff.mp hread
      rw [ArithOp.ofMnemonic?_eq_some_iff.mp hop]
      exact ⟨trivial, rfl⟩
  · exact tokens_of_mnemonic hread trivial rfl
  · exact tokens_of_mnemonic hread trivial rfl
  · exact tokens_of_mnemonic hread trivial rfl
  · exact tokens_of_mnemonic hread trivial rfl
  · unfold ofValueLabel? at hread
    split at hread
    all_goals cases hread
    all_goals exact ⟨trivial, rfl⟩
  · exact tokens_of_mnemonic hread trivial rfl
  · obtain ⟨condition, hcondition, rfl⟩ := Option.map_eq_some_iff.mp hread
    rw [Comparison.ofMnemonic?_eq_some_iff.mp hcondition]
    exact ⟨trivial, rfl⟩
  · cases hread

theorem ofCall?_eq_some_iff {result : Option String} {name : String} {operands : List Token}
    {instruction : Instruction} :
    ofCall? result name operands = some instruction ↔
      ∃ function arguments, name = function.name ∧ operands = arguments.map .value ∧
        function.shape = ⟨result.isSome, arguments.length⟩ ∧
        instruction = .call function result arguments := by
  simp only [ofCall?, Option.bind_eq_bind, Option.bind_eq_some_iff, valueNames?_eq_some_iff,
    ApiFunction.ofName?_eq_some_iff]
  constructor
  · rintro ⟨arguments, rfl, function, rfl, hcall⟩
    split_ifs at hcall with hshape
    cases hcall
    exact ⟨function, arguments, rfl, rfl, hshape, rfl⟩
  · rintro ⟨function, arguments, rfl, rfl, hshape, rfl⟩
    exact ⟨arguments, rfl, function, rfl, if_pos hshape⟩

-- The tokens that are read as an instruction are its own.
theorem ofTokens?_eq_some_iff {tokens : List Token} {instruction : Instruction} :
    ofTokens? tokens = some instruction ↔
      instruction.CallFits ∧ tokens = instruction.tokens := by
  constructor
  · intro hread
    unfold ofTokens? at hread
    split at hread
    · obtain ⟨function, arguments, rfl, rfl, hshape, rfl⟩ := ofCall?_eq_some_iff.mp hread
      exact ⟨hshape, rfl⟩
    · obtain ⟨function, arguments, rfl, rfl, hshape, rfl⟩ := ofCall?_eq_some_iff.mp hread
      exact ⟨hshape, rfl⟩
    · obtain ⟨hfits, htokens⟩ := tokens_of_ofOperands? hread
      exact ⟨hfits, htokens.symm⟩
    · cases hread
  · rintro ⟨hfits, rfl⟩
    cases instruction with
    | arith op target source => cases op <;> rfl
    | branch condition left right label => cases condition <;> rfl
    | sleep blocks => cases blocks <;> rfl
    | call function result arguments =>
        have hcall := ofCall?_eq_some_iff.mpr ⟨function, arguments, rfl, rfl, hfits, rfl⟩
        cases result with
        | none => exact hcall
        | some cell => exact hcall
    | _ => rfl

theorem forall_wellFormed_tokens_iff (instruction : Instruction) :
    (∀ token ∈ instruction.tokens, token.WellFormed) ↔
      ∀ name ∈ instruction.cellNames ++ instruction.labelNames,
        Token.isName name.toList = true := by
  cases instruction with
  | arith op target source =>
      cases op <;> simp +decide [tokens, cellNames, labelNames, Token.WellFormed, ArithOp.mnemonic]
  | branch condition left right label =>
      cases condition <;>
        simp +decide [tokens, cellNames, labelNames, Token.WellFormed, Comparison.mnemonic]
  | sleep blocks =>
      cases blocks <;> simp +decide [tokens, cellNames, labelNames, Token.WellFormed]
  | call function result arguments =>
      have hfunction := ApiFunction.isName_name function
      cases result <;>
        simp +decide [tokens, cellNames, labelNames, Token.WellFormed, hfunction]
  | _ => simp +decide [tokens, cellNames, labelNames, Token.WellFormed, and_assoc]

theorem intercalate_space (texts : List (List Char)) :
    List.intercalate " ".toList texts = unwords texts := by
  fun_induction unwords texts with
  | case1 => rfl
  | case2 => exact List.intercalate_singleton
  | case3 text rest hrest ih =>
      obtain ⟨next, more, rfl⟩ := List.exists_cons_of_ne_nil hrest
      rw [List.intercalate_cons_cons, ih]
      simp

theorem toList_text (instruction : Instruction) :
    instruction.text.toList = unwords (instruction.tokens.map Token.printed) := by
  cases instruction with
  | sleep blocks =>
      cases blocks <;> simp [text, tokens, unwords, Token.printed, Token.spelling]
  | call function result arguments =>
      rw [text, String.toList_intercalate, intercalate_space]
      cases result <;> simp [callWords, tokens, Token.printed, Token.spelling, Function.comp_def]
  | _ =>
      simp [text, tokens, unwords, literal, Token.printed, Token.spelling, Token.addressText]

-- The plain words of an instruction are its mnemonic and the name of a called function.
theorem isName_of_word_mem {instruction : Instruction} {name : String}
    (hmem : .word name ∈ instruction.tokens) : Token.isName name.toList = true := by
  cases instruction with
  | arith op target source =>
      have hname : name = op.mnemonic := by simpa [tokens] using hmem
      rw [hname]
      cases op <;> decide
  | branch condition left right label =>
      have hname : name = condition.mnemonic := by simpa [tokens] using hmem
      rw [hname]
      cases condition <;> decide
  | sleep blocks =>
      have hname : name = "SLP" := by simpa [tokens] using hmem
      rw [hname]
      decide
  | call function result arguments =>
      have hname : name = "FUN" ∨ name = function.name := by simpa [tokens] using hmem
      rcases hname with rfl | rfl
      · decide
      · exact function.isName_name
  | _ => simp_all +decide [tokens]

theorem splitWords_text {instruction : Instruction}
    (hform : ∀ token ∈ instruction.tokens, token.WellFormed) :
    Token.splitWords instruction.text.toList =
      some (instruction.tokens.map Token.spelling) := by
  have hspells : List.Forall₂ Token.Spells (instruction.tokens.map Token.printed)
      (instruction.tokens.map Token.spelling) := by
    rw [List.forall₂_map_left_iff, List.forall₂_map_right_iff, List.forall₂_same]
    intro token hmem
    exact Token.spells_printed (hform token hmem)
  rw [toList_text]
  refine Token.splitWords_unwords hspells ?_
  intro word hmem
  obtain ⟨token, htoken, rfl⟩ := List.mem_map.mp hmem
  exact Token.spelling_ne_nil (hform token htoken)

end Instruction

namespace Line

theorem ofTrimmed_eq_code_iff {text : List Char} {instruction : Instruction} :
    ofTrimmed text = .code instruction ↔
      text.head? ≠ some '^' ∧ text.getLast? ≠ some ':' ∧
        (Token.scan text).bind Instruction.ofTokens? = some instruction := by
  unfold ofTrimmed
  split
  · refine ⟨nofun, ?_⟩
    rintro ⟨-, -, hread⟩
    cases hread
  · exact ⟨nofun, fun hmarks => absurd rfl hmarks.1⟩
  · rename_i hempty hmark
    have hhead : text.head? ≠ some '^' := by
      intro hfirst
      obtain ⟨rest, rfl⟩ := List.head?_eq_some_iff.mp hfirst
      exact hmark rest rfl
    rw [and_iff_right hhead]
    split_ifs with hcolon
    · refine ⟨?_, fun hmarks => absurd hcolon hmarks.1⟩
      split
      · exact nofun
      · exact nofun
    · rw [and_iff_right hcolon]
      split
      · rename_i other hread
        rw [hread, Line.code.injEq, Option.some.injEq]
      · rename_i hread
        rw [hread]
        exact ⟨nofun, nofun⟩

-- The words of a line keep the marks at the ends of the line.
theorem marks_of_words {text : List Char} {words : List (List Char)}
    (hwords : Token.splitWords text = some words)
    (hmarks : ∀ word ∈ words, word.head? ≠ some '^' ∧ word.getLast? ≠ some ':') :
    text.head? ≠ some '^' ∧ text.getLast? ≠ some ':' := by
  constructor
  · intro hhead
    obtain ⟨rest, rfl⟩ := List.head?_eq_some_iff.mp hhead
    rw [Token.splitWords, Token.splitFrom_plain_cons (by decide)] at hwords
    obtain ⟨more, others, rfl⟩ := Token.exists_first_word hwords (List.cons_ne_nil _ _)
    exact (hmarks _ List.mem_cons_self).1 rfl
  · intro hlast
    obtain ⟨word, hword, hcolon⟩ := Token.exists_last_word hwords hlast (by decide)
    exact (hmarks word (List.mem_of_getLast? hword)).2 hcolon

-- A line is code when its words are those of the tokens of an instruction.
theorem parse_eq_code_iff {text : String} {instruction : Instruction} :
    parse text = .code instruction ↔
      instruction.WellFormed ∧ ∃ words, Token.splitWords text.toList = some words ∧
        List.Forall₂ Token.SameWord words (instruction.tokens.map Token.spelling) := by
  have hplain : ∀ name, .word name ∈ instruction.tokens → Token.isName name.toList = true :=
    fun name hmem => Instruction.isName_of_word_mem hmem
  rw [parse, ofTrimmed_eq_code_iff, Option.bind_eq_some_iff]
  constructor
  · rintro ⟨-, -, tokens, hscan, hread⟩
    obtain ⟨hfits, rfl⟩ := Instruction.ofTokens?_eq_some_iff.mp hread
    obtain ⟨hform, words, hwords, hsame⟩ := (Token.scan_eq_some_iff hplain).mp hscan
    rw [Token.splitWords_trim] at hwords
    exact ⟨⟨instruction.forall_wellFormed_tokens_iff.mp hform, hfits⟩, words, hwords, hsame⟩
  · rintro ⟨hvalid, words, hwords, hsame⟩
    have hform := instruction.forall_wellFormed_tokens_iff.mpr hvalid.named
    rw [← Token.splitWords_trim] at hwords
    obtain ⟨hhead, hlast⟩ := marks_of_words hwords (Token.marks_of_sameWords hform hsame)
    exact ⟨hhead, hlast, instruction.tokens,
      (Token.scan_eq_some_iff hplain).mpr ⟨hform, words, hwords, hsame⟩,
      Instruction.ofTokens?_eq_some_iff.mpr ⟨hvalid.fits, rfl⟩⟩

theorem parse_text {instruction : Instruction} (hvalid : instruction.WellFormed) :
    parse instruction.text = .code instruction := by
  have hform := instruction.forall_wellFormed_tokens_iff.mpr hvalid.named
  refine parse_eq_code_iff.mpr ⟨hvalid, _, Instruction.splitWords_text hform, ?_⟩
  exact List.forall₂_same.mpr fun word _ => Or.inl rfl

-- The lines that are code are the texts of the well formed instructions, with other blanks and
-- other cases of digits; the text of an instruction is the canonical line for it.
theorem grammar_is_exact (text : String) (instruction : Instruction) :
    (parse text = .code instruction ↔
      instruction.WellFormed ∧ ∃ words canonical,
        Token.splitWords text.toList = some words ∧
        Token.splitWords instruction.text.toList = some canonical ∧
        List.Forall₂ Token.SameWord words canonical) ∧
    (instruction.WellFormed → parse instruction.text = .code instruction) ∧
    (parse text = .code instruction → parse instruction.text = .code instruction) := by
  refine ⟨?_, parse_text, fun hcode => parse_text (parse_eq_code_iff.mp hcode).1⟩
  rw [parse_eq_code_iff]
  refine and_congr_right fun hvalid => ?_
  have hform := instruction.forall_wellFormed_tokens_iff.mpr hvalid.named
  have hcanonical := Instruction.splitWords_text hform
  constructor
  · rintro ⟨words, hwords, hsame⟩
    exact ⟨words, _, hwords, hcanonical, hsame⟩
  · rintro ⟨words, canonical, hwords, hsplit, hsame⟩
    rw [hcanonical] at hsplit
    cases hsplit
    exact ⟨words, hwords, hsame⟩

theorem grammar_is_exact_spaced :
    parse "\tSET @( $ p+$q )   $r " = .code (.storeIndexed "p" "q" "r") ∧
      parse (Instruction.storeIndexed "p" "q" "r").text = .code (.storeIndexed "p" "q" "r") := by
  have hspaced : parse "\tSET @( $ p+$q )   $r " = .code (.storeIndexed "p" "q" "r") := by decide
  exact ⟨hspaced, (grammar_is_exact _ _).2.2 hspaced⟩

end Line

end ContractSim
