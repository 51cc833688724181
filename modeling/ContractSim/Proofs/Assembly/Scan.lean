import ContractSim.Assembly.Program
import Mathlib.Data.List.Basic

namespace ContractSim

-- The first match of a list by the places of the list.
theorem getElem?_of_findIdx? {α : Type} {test : α → Bool} {values : List α} {place : Nat}
    (hfound : values.findIdx? test = some place) :
    (∃ value, values[place]? = some value ∧ test value = true) ∧
      ∀ earlier < place, ∀ value, values[earlier]? = some value → test value = false := by
  obtain ⟨hlt, htest, hfirst⟩ := List.findIdx?_eq_some_iff_getElem.mp hfound
  refine ⟨⟨values[place], List.getElem?_eq_getElem hlt, htest⟩, ?_⟩
  intro earlier hearlier value hvalue
  obtain ⟨hbound, rfl⟩ := List.getElem?_eq_some_iff.mp hvalue
  exact Bool.eq_false_iff.mpr (hfirst earlier hearlier)

def SourceLine.definesLabel (name : String) (line : SourceLine) : Bool :=
  line.content == .label name

namespace Program

-- A line is taken in where it defines a label that is not in the map.
theorem lookup_addLabel (labels : List (String × Nat)) (line : SourceLine) (index : Nat)
    (name : String) :
    (addLabel labels (line, index)).lookup name =
      (labels.lookup name).or (if line.definesLabel name then some index else none) := by
  unfold addLabel SourceLine.definesLabel
  cases line.content with
  | blank | directive | code | invalid => exact (Option.or_none).symm
  | label other =>
      dsimp only
      by_cases hname : name = other
      · subst hname
        cases hknown : labels.lookup name with
        | none => simp [List.lookup_append, hknown]
        | some earlier => simp [hknown]
      · have htest : (Line.label other == Line.label name) = false :=
          beq_eq_false_iff_ne.mpr fun hsame => hname (Line.label.inj hsame).symm
        have hentry : List.lookup name [(other, index)] = none := by
          rw [List.lookup_cons, beq_eq_false_iff_ne.mpr hname]
          rfl
        rw [htest, if_neg Bool.false_ne_true, Option.or_none]
        split_ifs
        · rfl
        · rw [List.lookup_append, hentry, Option.or_none]

-- The map that is collected from some lines on leads to the first of them that defines the label.
theorem lookup_foldl_addLabel (lines : List SourceLine) (start : Nat)
    (labels : List (String × Nat)) (name : String) :
    ((lines.zipIdx start).foldl addLabel labels).lookup name =
      (labels.lookup name).or ((lines.findIdx? (·.definesLabel name)).map (start + ·)) := by
  induction lines generalizing start labels with
  | nil => exact (Option.or_none).symm
  | cons line rest ih =>
      rw [List.zipIdx_cons, List.foldl_cons, ih, lookup_addLabel, Option.or_assoc,
        List.findIdx?_cons]
      congr 1
      cases line.definesLabel name with
      | true => simp
      | false =>
          simp only [Bool.false_eq_true, ite_false, Option.none_or, Option.map_map]
          congr 1
          funext offset
          simp only [Function.comp_apply]
          omega

-- Looking a label up is scanning the lines for it.
theorem label?_parse (source name : String) :
    (parse source).label? name = (parse source).lines.findIdx? (·.definesLabel name) := by
  rw [label?, parse, ofLines, lookup_foldl_addLabel]
  simp

theorem mem_executableLines {program : Program} {index : Nat} :
    index ∈ program.executableLines ↔
      ∃ line, program.line? index = some line ∧ line.isExecutable = true := by
  rw [executableLines, List.mem_filter, List.mem_range]
  cases hline : program.line? index with
  | none => simp
  | some line =>
      obtain ⟨text, htext, -⟩ := Option.map_eq_some_iff.mp hline
      have hlt : index < program.length := (List.getElem?_eq_some_iff.mp htext).1
      simp [hlt]

theorem pairwise_executableLines (program : Program) :
    program.executableLines.Pairwise (· < ·) :=
  List.pairwise_lt_range.filter _

-- The search from a start on finds the first of the executable lines that is not before it.
theorem nextExecutable?_eq_find? (program : Program) (start : Nat) :
    program.nextExecutable? start = program.executableLines.find? (start ≤ ·) := by
  have hplace : ∀ {index}, start ≤ index →
      (program.lines.drop start)[index - start]? = program.lines[index]? := by
    intro index hstart
    rw [List.getElem?_drop, Nat.add_sub_cancel' hstart]
  rw [nextExecutable?]
  cases hsearch : (program.lines.drop start).findIdx? SourceLine.isExecutable with
  | none =>
      symm
      rw [Option.map_none, List.find?_eq_none]
      intro index hmem hstart
      obtain ⟨_, hline, hexecutable⟩ := mem_executableLines.mp hmem
      obtain ⟨text, htext, rfl⟩ := Option.map_eq_some_iff.mp hline
      rw [← hplace (of_decide_eq_true hstart)] at htext
      have hfalse := List.findIdx?_eq_none_iff.mp hsearch text (List.mem_of_getElem? htext)
      exact absurd hexecutable (Bool.eq_false_iff.mp hfalse)
  | some offset =>
      obtain ⟨⟨text, htext, hexecutable⟩, hfirst⟩ := getElem?_of_findIdx? hsearch
      rw [List.getElem?_drop] at htext
      have hfound : start + offset ∈ program.executableLines :=
        mem_executableLines.mpr ⟨_, congrArg (Option.map SourceLine.content) htext, hexecutable⟩
      obtain ⟨before, after, hsplit⟩ := List.append_of_mem hfound
      have hsorted := program.pairwise_executableLines
      rw [hsplit, List.pairwise_append] at hsorted
      symm
      rw [Option.map_some, List.find?_eq_some_iff_append]
      refine ⟨decide_eq_true (Nat.le_add_right start offset), before, after, hsplit, ?_⟩
      intro earlier hearlier
      rw [Bool.not_eq_true', decide_eq_false_iff_not]
      intro hstart
      have hbefore : earlier < start + offset :=
        hsorted.2.2 earlier hearlier _ List.mem_cons_self
      have hmem : earlier ∈ program.executableLines := by
        rw [hsplit]
        exact List.mem_append_left _ hearlier
      obtain ⟨_, hline, htrue⟩ := mem_executableLines.mp hmem
      obtain ⟨other, hother, rfl⟩ := Option.map_eq_some_iff.mp hline
      have hfalse := hfirst (earlier - start) (by omega) other ((hplace hstart).trans hother)
      exact absurd htrue (Bool.eq_false_iff.mp hfalse)

-- What the search finds is an executable line, and those before it are before the start.
theorem first_of_nextExecutable? {program : Program} {start index : Nat}
    (hnext : program.nextExecutable? start = some index) :
    start ≤ index ∧ index ∈ program.executableLines ∧
      ∀ other ∈ program.executableLines, start ≤ other → index ≤ other := by
  rw [program.nextExecutable?_eq_find?] at hnext
  obtain ⟨hstart, before, after, hsplit, hbefore⟩ := List.find?_eq_some_iff_append.mp hnext
  have hsorted := program.pairwise_executableLines
  rw [hsplit, List.pairwise_append, List.pairwise_cons] at hsorted
  refine ⟨of_decide_eq_true hstart, List.mem_of_find?_eq_some hnext, ?_⟩
  intro other hmem hother
  rw [hsplit, List.mem_append, List.mem_cons] at hmem
  rcases hmem with hearlier | rfl | hlater
  · simpa [hother] using hbefore other hearlier
  · exact Nat.le_refl other
  · exact Nat.le_of_lt (hsorted.2.1.1 other hlater)

end Program

namespace Source

-- What a line of a source reads as.
def line? (source : String) (index : Nat) : Option Line :=
  (Text.lines source)[index]?.map Line.parse

def length (source : String) : Nat := (Text.lines source).length

-- Lines at which a contract can stand.
def Executable (source : String) (index : Nat) : Prop :=
  ∃ line, line? source index = some line ∧ line.isExecutable = true

-- Control is at an executable line or at the end of the source.
def Stands (source : String) (index : Nat) : Prop :=
  Executable source index ∨ index = length source

-- The first line of the source that defines a label.
structure Defines (source label : String) (index : Nat) : Prop where
  defined : line? source index = some (.label label)
  first : ∀ earlier < index, line? source earlier ≠ some (.label label)

-- Where a search for an executable line ends: at the first one from a start on, or at the end.
structure Lands (source : String) (start index : Nat) : Prop where
  start_le : start ≤ index
  stands : Stands source index
  passed : ∀ other, start ≤ other → other < index → ¬Executable source other

theorem line?_parse (source : String) (index : Nat) :
    (Program.parse source).line? index = line? source index := by
  simp [Program.line?, Program.parse, Program.ofLines, line?, Function.comp_def]

theorem length_parse (source : String) : (Program.parse source).length = length source := by
  simp [Program.length, Program.parse, Program.ofLines, length]

theorem Executable.lt_length {source : String} {index : Nat}
    (hexecutable : Executable source index) : index < length source := by
  obtain ⟨line, hline, -⟩ := hexecutable
  obtain ⟨text, htext, -⟩ := Option.map_eq_some_iff.mp hline
  exact (List.getElem?_eq_some_iff.mp htext).1

theorem executable_iff {source : String} {index : Nat} :
    Executable source index ↔ index ∈ (Program.parse source).executableLines := by
  rw [Executable, ← line?_parse, Program.mem_executableLines]

-- From an executable line the search goes no further.
theorem nextExecutable?_of_nextExecutable? {program : Program} {start index : Nat}
    (hnext : program.nextExecutable? start = some index) :
    program.nextExecutable? index = some index := by
  obtain ⟨hstart, hmem, -⟩ := Program.first_of_nextExecutable? hnext
  cases hagain : program.nextExecutable? index with
  | none =>
      rw [program.nextExecutable?_eq_find?, List.find?_eq_none] at hagain
      exact absurd (decide_eq_true (Nat.le_refl index)) (hagain index hmem)
  | some other =>
      obtain ⟨hindex, -, hfirst⟩ := Program.first_of_nextExecutable? hagain
      exact congrArg some (Nat.le_antisymm (hfirst index hmem (Nat.le_refl index)) hindex)

theorem executable_of_nextExecutable? {source : String} {start index : Nat}
    (hnext : (Program.parse source).nextExecutable? start = some index) :
    Executable source index ∧ Lands source start index := by
  obtain ⟨hstart, hmem, hfirst⟩ := Program.first_of_nextExecutable? hnext
  have hhere := executable_iff.mpr hmem
  refine ⟨hhere, hstart, .inl hhere, ?_⟩
  intro other hother hlt hexecutable
  exact Nat.not_le.mpr hlt (hfirst other (executable_iff.mp hexecutable) hother)

theorem not_executable_of_nextExecutable? {source : String} {start : Nat}
    (hnext : (Program.parse source).nextExecutable? start = none) (index : Nat)
    (hstart : start ≤ index) : ¬Executable source index := by
  intro hexecutable
  rw [Program.nextExecutable?_eq_find?, List.find?_eq_none] at hnext
  exact hnext index (executable_iff.mp hexecutable) (decide_eq_true hstart)

theorem stands_landing (source : String) (start : Nat) :
    Stands source ((Program.parse source).landing start) := by
  unfold Program.landing
  cases hnext : (Program.parse source).nextExecutable? start with
  | none => exact .inr (length_parse source)
  | some index => exact .inl (executable_of_nextExecutable? hnext).1

-- The search that moves control is the plain one.
theorem lands_landing {source : String} {start : Nat} (hstart : start ≤ length source) :
    Lands source start ((Program.parse source).landing start) := by
  unfold Program.landing
  cases hnext : (Program.parse source).nextExecutable? start with
  | none =>
      rw [Option.getD_none, length_parse]
      refine ⟨hstart, .inr rfl, ?_⟩
      intro other hother _
      exact not_executable_of_nextExecutable? hnext other hother
  | some index => exact (executable_of_nextExecutable? hnext).2

-- A contract that stands at an executable line goes on right there.
theorem Stands.eq_of_nextExecutable? {source : String} {index line : Nat}
    (hstands : Stands source index)
    (hnext : (Program.parse source).nextExecutable? index = some line) : line = index := by
  obtain ⟨hexecutable, hlands⟩ := executable_of_nextExecutable? hnext
  have hle := hlands.start_le
  rcases hstands with hhere | rfl
  · by_cases hlt : index < line
    · exact absurd hhere (hlands.passed index (Nat.le_refl _) hlt)
    · omega
  · have hlt := hexecutable.lt_length
    omega

theorem nextExecutable?_self {source : String} {index : Nat}
    (hexecutable : Executable source index) :
    (Program.parse source).nextExecutable? index = some index := by
  cases hnext : (Program.parse source).nextExecutable? index with
  | none =>
      have hnone := not_executable_of_nextExecutable? hnext index (Nat.le_refl _)
      exact absurd hexecutable hnone
  | some line => rw [Stands.eq_of_nextExecutable? (.inl hexecutable) hnext]

-- The label map of a program finds the line that a scan finds.
theorem defines_of_label? {source label : String} {index : Nat}
    (hlabel : (Program.parse source).label? label = some index) : Defines source label index := by
  rw [Program.label?_parse] at hlabel
  obtain ⟨⟨line, hline, hdefines⟩, hfirst⟩ := getElem?_of_findIdx? hlabel
  constructor
  · rw [← line?_parse, Program.line?, hline]
    exact congrArg some (beq_iff_eq.mp hdefines)
  · intro earlier hearlier hdefined
    rw [← line?_parse, Program.line?] at hdefined
    obtain ⟨other, hother, hcontent⟩ := Option.map_eq_some_iff.mp hdefined
    have hskipped := hfirst earlier hearlier other hother
    rw [SourceLine.definesLabel, hcontent, beq_self_eq_true] at hskipped
    cases hskipped

theorem label?_of_defines {source label : String} {index : Nat}
    (hdefines : Defines source label index) :
    (Program.parse source).label? label = some index := by
  cases hlabel : (Program.parse source).label? label with
  | none =>
      have hdefined := hdefines.defined
      rw [← line?_parse, Program.line?] at hdefined
      obtain ⟨line, hline, hcontent⟩ := Option.map_eq_some_iff.mp hdefined
      rw [Program.label?_parse] at hlabel
      have hfalse := List.findIdx?_eq_none_iff.mp hlabel line (List.mem_of_getElem? hline)
      rw [SourceLine.definesLabel, hcontent, beq_self_eq_true] at hfalse
      cases hfalse
  | some other =>
      have hother := defines_of_label? hlabel
      rcases Nat.lt_trichotomy other index with hlt | rfl | hgt
      · exact absurd hother.defined (hdefines.first other hlt)
      · rfl
      · exact absurd hdefines.defined (hother.first index hgt)

theorem Defines.lt_length {source label : String} {index : Nat}
    (hdefines : Defines source label index) : index < length source := by
  obtain ⟨text, htext, -⟩ := Option.map_eq_some_iff.mp hdefines.defined
  exact (List.getElem?_eq_some_iff.mp htext).1

end Source

end ContractSim
