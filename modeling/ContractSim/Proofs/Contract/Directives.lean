import ContractSim.Contract.Load
import ContractSim.Proofs.Text.Numeral
import ContractSim.Proofs.UpdateFirst
import Mathlib.Data.List.Nodup

namespace ContractSim

namespace Line

-- The name that a line declares.
def declared : Line → List String
  | .directive (.declare name) => [name]
  | .directive _ | .blank | .label _ | .code _ | .invalid => []

-- The names that a line uses.
def used : Line → List String
  | .code instruction => instruction.cellNames
  | .blank | .label _ | .directive _ | .invalid => []

end Line

namespace Program

-- The names that a program declares, in order.
def declaredNames (program : Program) : List String :=
  program.lines.flatMap fun line => line.content.declared

-- The names that get cells: those declared, then those that the code uses, each one once.
def names (program : Program) : List String :=
  (program.declaredNames ++ program.cellNames).foldl Header.addName []

theorem cellNames_eq_flatMap_used (program : Program) :
    program.cellNames = program.lines.flatMap fun line => line.content.used := rfl

end Program

-- The word that a decimal numeral stands for. Underscores mean nothing, and a plus sign may stand
-- in front.
def Text.numeral? (text : String) : Option Word :=
  let digits := dropPlus (text.toList.filter (· != '_'))
  if digits ≠ [] ∧ digits.all Char.isDigit = true ∧ decimal digits < Word.modulus then
    some (UInt64.ofNat (decimal digits))
  else none

namespace Header

theorem mem_addName_iff {names : List String} {name other : String} :
    other ∈ addName names name ↔ other ∈ names ∨ other = name := by
  unfold addName
  split_ifs with hmem
  · constructor
    · exact .inl
    · rintro (hold | rfl)
      · exact hold
      · exact hmem
  · rw [List.mem_append, List.mem_singleton]

theorem nodup_addName {names : List String} (hnodup : names.Nodup) (name : String) :
    (addName names name).Nodup := by
  unfold addName
  split_ifs with hmem
  · exact hnodup
  · rw [← List.concat_eq_append]
    exact hnodup.concat hmem

theorem mem_foldl_addName_iff {names others : List String} {name : String} :
    name ∈ others.foldl addName names ↔ name ∈ names ∨ name ∈ others := by
  induction others generalizing names with
  | nil => simp
  | cons other rest ih =>
      rw [List.foldl_cons, ih, mem_addName_iff, List.mem_cons, or_assoc]

theorem nodup_foldl_addName {names : List String} (hnodup : names.Nodup) (others : List String) :
    (others.foldl addName names).Nodup := by
  induction others generalizing names with
  | nil => exact hnodup
  | cons other rest ih => exact ih (nodup_addName hnodup other)

theorem length_foldl_addName_le (names others : List String) :
    (others.foldl addName names).length ≤ names.length + others.length := by
  induction others generalizing names with
  | nil => exact Nat.le_refl _
  | cons other rest ih =>
      have hrest := ih (addName names other)
      have hone : (addName names other).length ≤ names.length + 1 := by
        unfold addName
        split_ifs
        · exact Nat.le_succ _
        · exact Nat.le_of_eq List.length_append
      rw [List.foldl_cons, List.length_cons]
      omega

-- Adding a name to distinct names is telling names apart.
theorem addName_eraseDups (names : List String) (name : String) :
    addName names.eraseDups name = (names ++ [name]).eraseDups := by
  rw [addName, eraseDups_concat]
  simp only [List.mem_eraseDups]

theorem foldl_addName_eraseDups (names others : List String) :
    others.foldl addName names.eraseDups = (names ++ others).eraseDups := by
  induction others generalizing names with
  | nil => rw [List.foldl_nil, List.append_nil]
  | cons other rest ih =>
      rw [List.foldl_cons, addName_eraseDups, ih, List.append_assoc, List.singleton_append]

theorem number?_eq_numeral? (text : String) : number? text = Text.numeral? text := by
  unfold number? Text.numeral?
  cases hnumeral : Text.readNumeral 10 Word.modulus (text.toList.filter (· != '_')) with
  | ok value =>
      obtain ⟨hsome, hdigits, rfl, hfits⟩ :=
        (Text.readNumeral_ten_eq_ok_iff (by decide)).mp hnumeral
      exact (if_pos ⟨hsome, List.all_eq_true.mpr hdigits, hfits⟩).symm
  | error error =>
      refine (if_neg ?_).symm
      rintro ⟨hsome, hall, hfits⟩
      have hdigits := List.all_eq_true.mp hall
      rw [(Text.readNumeral_ten_eq_ok_iff (by decide)).mpr ⟨hsome, hdigits, rfl, hfits⟩] at hnumeral
      cases hnumeral

end Header

namespace Line

open Header

-- The constant that a line sets.
def constant? : Line → Option (String × Word)
  | .directive (.const target value) => some (target, value)
  | .directive _ | .blank | .label _ | .code _ | .invalid => none

-- The value that a line gives to a setting.
def setting? (setting : Setting) : Line → Option Word
  | .directive (.setting key value) =>
      if Setting.ofKey? key = some setting then Text.numeral? value else none
  | .directive _ | .blank | .label _ | .code _ | .invalid => none

theorem mem_declared_iff {line : Line} {name : String} :
    name ∈ line.declared ↔ line = .directive (.declare name) := by
  cases line with
  | directive directive =>
      cases directive with
      | declare other => simp [declared, eq_comm]
      | comment | const | setting | malformed | unknown => simp [declared]
  | blank | label | code | invalid => simp [declared]

theorem constant?_eq_some_iff {line : Line} {entry : String × Word} :
    line.constant? = some entry ↔ line = .directive (.const entry.1 entry.2) := by
  cases line with
  | directive directive =>
      cases directive with
      | const target value => simp [constant?, Prod.ext_iff]
      | comment | declare | setting | malformed | unknown => simp [constant?]
  | blank | label | code | invalid => simp [constant?]

end Line

namespace Program

open Header

variable (program : Program)

-- A line above an index declares a name.
def DeclaredAbove (index : Nat) (name : String) : Prop :=
  ∃ above < index, program.line? above = some (.directive (.declare name))

instance (index : Nat) (name : String) : Decidable (program.DeclaredAbove index name) :=
  inferInstanceAs (Decidable (∃ above < index, _))

-- What is wrong with a line, if anything is.
def fault? (index : Nat) : Option LoadError :=
  match program.line? index with
  | some (.directive .malformed) => some (.malformedDirective index (program.trimmedLine index))
  | some (.directive .unknown) => some (.unknownDirective index (program.trimmedLine index))
  | some (.directive (.const target _)) =>
      if program.DeclaredAbove index target then none
      else some (.undeclaredConstant index target)
  | some (.directive (.setting key value)) =>
      if (Setting.ofKey? key).isSome ∧ Text.numeral? value = none then
        some (.malformedDirective index (program.trimmedLine index))
      else none
  | _ => none

-- What is wrong with the first line that has a fault.
def firstFault? : Option LoadError := (List.range program.length).findSome? program.fault?

-- The constants that lines set, in order.
def constants : List (String × Word) :=
  program.lines.filterMap fun line => line.content.constant?

-- The last value that a line gives to a setting.
def setting? (setting : Setting) : Option Word :=
  (program.lines.filterMap fun line => line.content.setting? setting).getLast?

-- What all directives say together.
def header : Header where
  declared := program.declaredNames.eraseDups
  constants := program.constants
  contractId := program.setting? .contractId
  creatorId := program.setting? .creatorId
  activationAmount := program.setting? .activationAmount
  dataPages := program.setting? .dataPages
  userStackPages := program.setting? .userStackPages
  codeStackPages := program.setting? .codeStackPages

-- The program with a further line. Directives do not look at the labels, which stay as they are.
def extended (line : SourceLine) : Program := { program with lines := program.lines ++ [line] }

variable {program} {line : SourceLine}

theorem line?_extended_of_lt {index : Nat} (hindex : index < program.length) :
    (program.extended line).line? index = program.line? index := by
  rw [line?, extended, List.getElem?_append_left hindex, line?]

theorem line?_extended_last :
    (program.extended line).line? program.length = some line.content := by
  rw [line?, extended, length, List.getElem?_concat_length, Option.map_some]

theorem trimmedLine_extended_of_lt {index : Nat} (hindex : index < program.length) :
    (program.extended line).trimmedLine index = program.trimmedLine index := by
  rw [trimmedLine, sourceLine?, extended, List.getElem?_append_left hindex]
  rfl

theorem trimmedLine_extended_last :
    (program.extended line).trimmedLine program.length = Text.trimmed line.text := by
  rw [trimmedLine, sourceLine?, extended, length, List.getElem?_concat_length]
  rfl

theorem declaredAbove_extended {index : Nat} (hindex : index ≤ program.length) (name : String) :
    (program.extended line).DeclaredAbove index name ↔ program.DeclaredAbove index name := by
  refine exists_congr fun above => and_congr_right fun habove => ?_
  rw [line?_extended_of_lt (Nat.lt_of_lt_of_le habove hindex)]

-- A line below changes nothing for the lines above it.
theorem fault?_extended_of_lt {index : Nat} (hindex : index < program.length) :
    (program.extended line).fault? index = program.fault? index := by
  simp only [fault?, line?_extended_of_lt hindex, trimmedLine_extended_of_lt hindex,
    declaredAbove_extended (Nat.le_of_lt hindex)]

theorem firstFault?_extended :
    (program.extended line).firstFault? =
      program.firstFault?.or ((program.extended line).fault? program.length) := by
  have hlength : (program.extended line).length = program.length + 1 := List.length_append
  have hsame : (List.range program.length).filterMap (program.extended line).fault? =
      (List.range program.length).filterMap program.fault? :=
    List.filterMap_congr fun index hmem => fault?_extended_of_lt (List.mem_range.mp hmem)
  rw [firstFault?, hlength, List.range_succ, List.findSome?_append, List.findSome?_singleton,
    ← List.head?_filterMap, hsame, List.head?_filterMap, firstFault?]

theorem declaredAbove_length (name : String) :
    program.DeclaredAbove program.length name ↔ name ∈ program.header.declared := by
  have hmem : name ∈ program.header.declared ↔
      ∃ line ∈ program.lines, line.content = .directive (.declare name) := by
    rw [header, List.mem_eraseDups, declaredNames, List.mem_flatMap]
    refine exists_congr fun line => and_congr_right fun _ => ?_
    exact Line.mem_declared_iff
  rw [hmem]
  constructor
  · rintro ⟨above, -, hline⟩
    obtain ⟨line, hfound, hcontent⟩ := Option.map_eq_some_iff.mp hline
    exact ⟨line, List.mem_of_getElem? hfound, hcontent⟩
  · rintro ⟨line, hline, hcontent⟩
    obtain ⟨above, hfound⟩ := List.getElem?_of_mem hline
    refine ⟨above, (List.getElem?_eq_some_iff.mp hfound).1, ?_⟩
    rw [line?, hfound, Option.map_some, hcontent]

theorem declaredNames_extended :
    (program.extended line).declaredNames = program.declaredNames ++ line.content.declared := by
  simp [declaredNames, extended]

theorem constants_extended :
    (program.extended line).constants = program.constants ++ line.content.constant?.toList := by
  rw [constants, extended, List.filterMap_append, constants]
  cases hconstant : line.content.constant? with
  | none => simp [hconstant]
  | some constant => simp [hconstant]

theorem setting?_extended (setting : Setting) :
    (program.extended line).setting? setting =
      (line.content.setting? setting).or (program.setting? setting) := by
  rw [setting?, extended, List.filterMap_append, List.getLast?_append, setting?]
  cases hsetting : line.content.setting? setting with
  | none => simp [hsetting]
  | some value => simp [hsetting]

theorem header_extended :
    (program.extended line).header =
      { declared := (program.declaredNames ++ line.content.declared).eraseDups
        constants := program.constants ++ line.content.constant?.toList
        contractId := (line.content.setting? .contractId).or (program.setting? .contractId)
        creatorId := (line.content.setting? .creatorId).or (program.setting? .creatorId)
        activationAmount :=
          (line.content.setting? .activationAmount).or (program.setting? .activationAmount)
        dataPages := (line.content.setting? .dataPages).or (program.setting? .dataPages)
        userStackPages :=
          (line.content.setting? .userStackPages).or (program.setting? .userStackPages)
        codeStackPages :=
          (line.content.setting? .codeStackPages).or (program.setting? .codeStackPages) } := by
  simp only [header, declaredNames_extended, constants_extended, setting?_extended]

-- A line that is no directive, or one that says nothing, leaves the header as it is.
theorem header_extended_of_silent (hdeclared : line.content.declared = [])
    (hconstant : line.content.constant? = none)
    (hsetting : ∀ setting, line.content.setting? setting = none) :
    (program.extended line).header = program.header := by
  rw [header_extended, hdeclared, hconstant]
  simp only [hsetting, Option.none_or, Option.toList_none, List.append_nil]
  rfl

theorem header_extended_of_declare {name : String}
    (hcontent : line.content = .directive (.declare name)) :
    (program.extended line).header =
      { program.header with declared := addName program.header.declared name } := by
  have hadded : addName program.header.declared name =
      (program.declaredNames ++ [name]).eraseDups := addName_eraseDups _ _
  rw [hadded, header_extended, hcontent]
  simp only [Line.declared, Line.constant?, Line.setting?, Option.none_or, Option.toList_none,
    List.append_nil]
  rfl

theorem header_extended_of_const {target : String} {value : Word}
    (hcontent : line.content = .directive (.const target value)) :
    (program.extended line).header =
      { program.header with
        constants := program.header.constants ++ [(target, value)] } := by
  rw [header_extended, hcontent]
  simp only [Line.declared, Line.constant?, Line.setting?, Option.none_or, Option.toList_some,
    List.append_nil]
  rfl

-- A later value for a setting takes the place of an earlier one.
theorem header_extended_of_setting {key value : String} {setting : Setting} {number : Word}
    (hcontent : line.content = .directive (.setting key value))
    (hkey : Setting.ofKey? key = some setting) (hnumber : Text.numeral? value = some number) :
    (program.extended line).header = program.header.set number setting := by
  rw [header_extended, hcontent]
  cases setting with
  | contractId | creatorId | activationAmount | dataPages | userStackPages | codeStackPages =>
      simp [Line.declared, Line.constant?, Line.setting?, hkey, hnumber, header, Header.set]

-- A line that is taken in adds to what the lines above it say, unless it has a fault.
theorem addLine_header (program : Program) (line : SourceLine) :
    program.header.addLine (line, program.length) =
      match (program.extended line).fault? program.length with
      | some error => .error error
      | none => .ok (program.extended line).header := by
  rw [addLine, fault?, line?_extended_last, trimmedLine_extended_last]
  cases hcontent : line.content with
  | blank | label | code | invalid =>
      rw [header_extended_of_silent]
      all_goals simp only [hcontent, Line.declared, Line.constant?, Line.setting?, implies_true]
  | directive directive =>
      cases directive with
      | comment =>
          rw [header_extended_of_silent]
          all_goals simp only [hcontent, Line.declared, Line.constant?, Line.setting?, implies_true]
          rfl
      | malformed | unknown => rfl
      | declare name =>
          rw [header_extended_of_declare hcontent]
          rfl
      | const target value =>
          have hdeclared : (program.extended line).DeclaredAbove program.length target ↔
              target ∈ program.header.declared :=
            (declaredAbove_extended (Nat.le_refl _) target).trans (declaredAbove_length target)
          rw [header_extended_of_const hcontent]
          simp only [addDirective, hdeclared]
          split_ifs
          · rfl
          · rfl
      | setting key value =>
          simp only [addDirective, number?_eq_numeral?]
          cases hkey : Setting.ofKey? key with
          | none =>
              rw [header_extended_of_silent]
              all_goals simp [hcontent, Line.declared, Line.constant?, Line.setting?, hkey]
          | some setting =>
              cases hnumber : Text.numeral? value with
              | none => rfl
              | some number =>
                  rw [header_extended_of_setting hcontent hkey hnumber]
                  rfl

theorem ofProgram_extended (program : Program) (line : SourceLine) :
    ofProgram (program.extended line) =
      ofProgram program >>= fun header => header.addLine (line, program.length) := by
  rw [ofProgram, extended, List.zipIdx_append, List.foldlM_append, ofProgram, Nat.zero_add]
  congr 1
  funext header
  rw [List.zipIdx_cons, List.zipIdx_nil, List.foldlM_cons]
  simp only [List.foldlM_nil, bind_pure]
  rfl

-- Reading the directives from top to bottom finds the first fault, or takes in all of them.
theorem ofProgram_eq (program : Program) :
    ofProgram program =
      match program.firstFault? with
      | some error => .error error
      | none => .ok program.header := by
  obtain ⟨lines, labels⟩ := program
  induction lines using List.reverseRecOn with
  | nil => rfl
  | append_singleton lines line ih =>
      have hextended := ofProgram_extended ⟨lines, labels⟩ line
      have hfault : (extended ⟨lines, labels⟩ line).firstFault? = _ := firstFault?_extended
      rw [ih] at hextended
      rw [extended] at hextended hfault
      rw [hextended, hfault]
      cases hfirst : firstFault? ⟨lines, labels⟩ with
      | some error => rfl
      | none => exact addLine_header ⟨lines, labels⟩ line

-- Constants are set for names that are declared, where no line has a fault.
theorem mem_declaredNames_of_constants (hsound : program.firstFault? = none)
    {entry : String × Word} (hentry : entry ∈ program.constants) :
    entry.1 ∈ program.declaredNames := by
  obtain ⟨line, hline, hconstant⟩ := List.mem_filterMap.mp hentry
  obtain ⟨index, hindex⟩ := List.getElem?_of_mem hline
  have hcontent : line.content = .directive (.const entry.1 entry.2) :=
    Line.constant?_eq_some_iff.mp hconstant
  have hrange : index ∈ List.range program.length :=
    List.mem_range.mpr (List.getElem?_eq_some_iff.mp hindex).1
  have hfault := List.findSome?_eq_none_iff.mp hsound index hrange
  rw [fault?, line?, hindex, Option.map_some, hcontent] at hfault
  simp only at hfault
  split_ifs at hfault with hdeclared
  obtain ⟨above, -, habove⟩ := hdeclared
  obtain ⟨other, hother, hdeclares⟩ := Option.map_eq_some_iff.mp habove
  exact List.mem_flatMap.mpr
    ⟨other, List.mem_of_getElem? hother, Line.mem_declared_iff.mpr hdeclares⟩

end Program

end ContractSim
