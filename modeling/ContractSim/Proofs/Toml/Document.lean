import ContractSim.Proofs.Toml.Number
import ContractSim.Proofs.Toml.Quote
import Mathlib.Data.List.Forall2

namespace ContractSim.Toml

open ContractSim.Decimal ContractSim.Text

section Value

variable {text rest : List Char} {mark : Char}

-- No mark follows the digits at the start of a line without it.
theorem behind?_of_fixedDigits? {count value : Nat} {after : List Char} (hend : mark ≠ '\n')
    (htext : mark ∉ text)
    (hread : fixedDigits? count (text ++ '\n' :: rest) = some (value, after)) :
    behind? mark after = none := by
  rw [fixedDigits?] at hread
  split_ifs at hread with hlength
  obtain ⟨-, rfl⟩ := Prod.mk.inj (Option.some.inj hread)
  have hshort : count ≤ text.length := by
    by_contra hlong
    -- The line end would be one of the digits.
    have hmem : '\n' ∈ (text ++ '\n' :: rest).take count := by
      obtain ⟨more, hcount⟩ := Nat.exists_eq_add_of_lt (Nat.lt_of_not_le hlong)
      rw [List.take_append, hcount, show text.length + more + 1 - text.length = more + 1 by omega]
      exact List.mem_append_right _ List.mem_cons_self
    rw [List.length_filterMap_eq_countP] at hlength
    have hmost := List.length_take_le count (text ++ '\n' :: rest)
    have hall := List.countP_eq_length.mp
      (Nat.le_antisymm List.countP_le_length (Nat.le_trans hmost (Nat.le_of_eq hlength.symm)))
    cases hall '\n' hmem
  rw [List.drop_append_of_le_length hshort]
  cases hafter : text.drop count with
  | nil => rw [List.nil_append, behind?, if_neg hend.symm]
  | cons c more =>
      have hc : c ∈ text := List.mem_of_mem_drop (hafter ▸ List.mem_cons_self)
      have hne : c ≠ mark := fun h => htext (h ▸ hc)
      rw [List.cons_append, behind?, if_neg hne]

-- Digits alone on a line are no date and no time.
theorem datetime?_of_digits (hdash : '-' ∉ text) (hcolon : ':' ∉ text) :
    datetime? (text ++ '\n' :: rest) = none := by
  have hdate : date? (text ++ '\n' :: rest) = none := by
    rw [date?]
    cases hread : fixedDigits? 4 (text ++ '\n' :: rest) with
    | none => rfl
    | some year =>
        have hnone := behind?_of_fixedDigits? (by decide) hdash hread
        simp [hnone]
  have htime : time? (text ++ '\n' :: rest) = none := by
    rw [time?, twoDigits?]
    cases hread : fixedDigits? 2 (text ++ '\n' :: rest) with
    | none => rfl
    | some hour =>
        have hnone := behind?_of_fixedDigits? (by decide) hcolon hread
        rw [Option.filter_some]
        split_ifs
        · simp [hnone]
        · rfl
  rw [datetime?, hdate, htime]
  rfl

theorem isNumberChar_of_isDigit {c : Char} (hdigit : c.isDigit = true) :
    isNumberChar c = true := by
  simp [isNumberChar, Char.isAlphanum, hdigit]

-- A number or a truth value alone on a line.
theorem value?_of_bare {bound levels : Nat} {value : Value}
    (htext : ∀ c ∈ text, isNumberChar c = true) (hdate : datetime? (text ++ '\n' :: rest) = none)
    (hbare : bare? text = some value) :
    value? (bound + 1) levels (text ++ '\n' :: rest) = some (value, '\n' :: rest) := by
  have hfirst : ∀ c after, text ++ '\n' :: rest = c :: after →
      isNumberChar c = true ∨ c = '\n' := by
    intro c after h
    cases text with
    | nil => exact .inr (List.cons.inj h).1.symm
    | cons d more => exact .inl ((List.cons.inj h).1 ▸ htext d List.mem_cons_self)
  have hstop : ¬isNumberChar '\n' = true := by decide
  have htake : (text ++ '\n' :: rest).takeWhile isNumberChar = text := by
    rw [List.takeWhile_append_of_pos htext, List.takeWhile_cons_of_neg hstop, List.append_nil]
  have hdrop : (text ++ '\n' :: rest).dropWhile isNumberChar = '\n' :: rest := by
    rw [List.dropWhile_append_of_pos htext, List.dropWhile_cons_of_neg hstop]
  rw [value?, hdate, htake, hdrop, hbare]
  · rfl
  · exact fun _ h => absurd (hfirst _ _ h) (by decide)
  · exact fun _ h => absurd (hfirst _ _ h) (by decide)
  · exact fun _ h => absurd (hfirst _ _ h) (by decide)
  · exact fun _ h => absurd (hfirst _ _ h) (by decide)

-- A spelling on a line of its own that is read as a value, whatever the lines behind it hold.
structure Written (text : List Char) (value : Value) : Prop where
  starts (rest : List Char) : skipSpaces (text ++ '\n' :: rest) = text ++ '\n' :: rest
  reads (bound levels : Nat) (rest : List Char) :
    value? (bound + 1) levels (text ++ '\n' :: rest) = some (value, '\n' :: rest)

theorem skipSpaces_of_not_isSpace {c : Char} (hc : isSpace c = false) :
    skipSpaces (c :: rest) = c :: rest :=
  List.dropWhile_cons_of_neg (by rw [hc]; decide)

theorem isSpace_eq_false {kind : Char → Bool} {c : Char} (hspace : kind ' ' = false)
    (htab : kind '\t' = false) (hc : kind c = true) : isSpace c = false := by
  rw [isSpace, Bool.or_eq_false_iff, beq_eq_false_iff_ne, beq_eq_false_iff_ne]
  constructor
  · rintro rfl
    rw [hspace] at hc
    cases hc
  · rintro rfl
    rw [htab] at hc
    cases hc

theorem skipSpaces_of_bare (htext : ∀ c ∈ text, isNumberChar c = true) :
    skipSpaces (text ++ '\n' :: rest) = text ++ '\n' :: rest := by
  cases text with
  | nil => rfl
  | cons c more =>
      exact skipSpaces_of_not_isSpace (isSpace_eq_false rfl rfl (htext c List.mem_cons_self))

theorem written_toString {value : Nat} (hvalue : value < integerBound) :
    Written (toString value).toList (.integer (.ofNat value)) := by
  have hdigits : (toString value).toList = Nat.toDigits 10 value := Nat.toList_repr
  have hisDigit : ∀ c ∈ Nat.toDigits 10 value, c.isDigit = true := fun c => isDigit_of_mem_digits
  have hnone : ∀ mark : Char, mark.isDigit = false → mark ∉ Nat.toDigits 10 value := by
    intro mark hmark hmem
    rw [hisDigit mark hmem] at hmark
    cases hmark
  have hbare : bare? (Nat.toDigits 10 value) = some (.integer (.ofNat value)) := by
    rw [bare?, integer?_toDigits hvalue]
    · rfl
    · exact fun h => hnone 't' rfl (h ▸ List.mem_cons_self)
    · exact fun h => hnone 'f' rfl (h ▸ List.mem_cons_self)
  have hnumber : ∀ c ∈ Nat.toDigits 10 value, isNumberChar c = true :=
    fun c hc => isNumberChar_of_isDigit (hisDigit c hc)
  rw [hdigits]
  exact ⟨fun rest => skipSpaces_of_bare hnumber, fun bound levels rest =>
    value?_of_bare hnumber (datetime?_of_digits (hnone '-' rfl) (hnone ':' rfl)) hbare⟩

theorem written_boolText (value : Bool) : Written (boolText value).toList (.bool value) := by
  cases value with
  | false =>
      have hbare : ∀ c ∈ (boolText false).toList, isNumberChar c = true :=
        List.all_eq_true.mp (by decide)
      exact ⟨fun _ => rfl, fun _ _ _ => value?_of_bare hbare rfl rfl⟩
  | true =>
      have hbare : ∀ c ∈ (boolText true).toList, isNumberChar c = true :=
        List.all_eq_true.mp (by decide)
      exact ⟨fun _ => rfl, fun _ _ _ => value?_of_bare hbare rfl rfl⟩

theorem quote_cases (text : String) :
    ∃ mark body, (quote text).toList = mark :: body ∧ (mark = '"' ∨ mark = '\'') := by
  rw [quote, String.toList_ofList]
  cases styleOf text.toList with
  | basic => exact ⟨'"', _, rfl, .inl rfl⟩
  | literal => exact ⟨'\'', _, rfl, .inr rfl⟩
  | longBasic => exact ⟨'"', _, rfl, .inl rfl⟩
  | longLiteral => exact ⟨'\'', _, rfl, .inr rfl⟩

theorem written_quote (text : String) : Written (quote text).toList (.string text) := by
  have hread := string?_quote text
  obtain ⟨mark, body, hbody, hmark⟩ := quote_cases text
  rw [hbody] at hread ⊢
  constructor
  · intro rest
    rcases hmark with rfl | rfl
    · rfl
    · rfl
  · intro bound levels rest
    have hstring := hread rest
    rw [List.cons_append] at hstring ⊢
    rcases hmark with rfl | rfl
    · rw [value?, hstring]
      simp
    · rw [value?, hstring]
      simp

end Value

section Line

-- A key that needs no quotes.
def Bare (key : String) : Prop := key.toList ≠ [] ∧ ∀ c ∈ key.toList, isKeyChar c = true

instance (key : String) : Decidable (Bare key) :=
  @instDecidableAnd _ _ _ (List.decidableBAll _ key.toList)

variable {key : String} {rest : List Char} {bound : Nat}

theorem Bare.isKeyChar (hkey : Bare key) {c : Char} {after : List Char}
    (hfirst : key.toList ++ rest = c :: after) : isKeyChar c = true := by
  cases hlist : key.toList with
  | nil => exact absurd hlist hkey.1
  | cons d more =>
      rw [hlist] at hfirst
      exact (List.cons.inj hfirst).1 ▸ hkey.2 d (hlist ▸ List.mem_cons_self)

theorem key?_of_bare (hkey : Bare key) {mark : Char} (hmark : isKeyChar mark = false) :
    key? (key.toList ++ mark :: rest) = some (key, mark :: rest) := by
  have hstop : ¬isKeyChar mark = true := by rw [hmark]; decide
  have htake : (key.toList ++ mark :: rest).takeWhile isKeyChar = key.toList := by
    rw [List.takeWhile_append_of_pos hkey.2, List.takeWhile_cons_of_neg hstop, List.append_nil]
  have hdrop : (key.toList ++ mark :: rest).dropWhile isKeyChar = mark :: rest := by
    rw [List.dropWhile_append_of_pos hkey.2, List.dropWhile_cons_of_neg hstop]
  rw [key?, htake, hdrop]
  · cases hlist : key.toList with
    | nil => exact absurd hlist hkey.1
    | cons d more =>
        have hofList : String.ofList (d :: more) = key := by rw [← hlist, String.ofList_toList]
        exact congrArg (fun key => some (key, mark :: rest)) hofList
  · exact fun _ h => absurd (hkey.isKeyChar h) (by decide)
  · exact fun _ h => absurd (hkey.isKeyChar h) (by decide)

theorem skipSpaces_of_key (hkey : Bare key) :
    skipSpaces (key.toList ++ rest) = key.toList ++ rest := by
  cases hlist : key.toList with
  | nil => exact absurd hlist hkey.1
  | cons c more =>
      have hc := hkey.2 c (hlist ▸ List.mem_cons_self)
      exact skipSpaces_of_not_isSpace (isSpace_eq_false rfl rfl hc)

-- A key alone is a path. Spaces may follow it, and no point.
theorem path?_of_bare (hkey : Bare key) {mark : Char} (hmark : isKeyChar mark = false)
    (hpoint : ∀ more, skipSpaces (mark :: rest) ≠ '.' :: more) :
    path? (bound + 1) (key.toList ++ mark :: rest) =
      some ([key], skipSpaces (mark :: rest)) := by
  have hkeys : keys? (bound + 1) (key.toList ++ mark :: rest) =
      some ([key], skipSpaces (mark :: rest)) := by
    rw [keys?, skipSpaces_of_key hkey, key?_of_bare hkey hmark, Option.bind_eq_bind,
      Option.bind_some]
    dsimp only
    split
    case h_1 more h => exact absurd h (hpoint more)
    case h_2 => rfl
  rw [path?, hkeys]
  rfl

theorem statement?_header (hkey : Bare key) :
    statement? (bound + 1) ('[' :: (key.toList ++ ']' :: '\n' :: rest)) =
      some (.header [key], rest) := by
  have hpath : path? (bound + 1) (key.toList ++ ']' :: '\n' :: rest) =
      some ([key], ']' :: '\n' :: rest) :=
    path?_of_bare hkey rfl nofun
  rw [statement?, hpath]
  · rfl
  · exact fun _ h => absurd (hkey.isKeyChar h) (by decide)

theorem statement?_assign (hkey : Bare key) {text : List Char} {value : Value}
    (hvalue : Written text value) :
    statement? (bound + 1) (key.toList ++ ' ' :: '=' :: ' ' :: (text ++ '\n' :: rest)) =
      some (.assign [key] value, rest) := by
  have hpath : path? (bound + 1) (key.toList ++ ' ' :: '=' :: ' ' :: (text ++ '\n' :: rest)) =
      some ([key], '=' :: ' ' :: (text ++ '\n' :: rest)) :=
    path?_of_bare hkey rfl nofun
  have hskip : skipSpaces (' ' :: (text ++ '\n' :: rest)) = text ++ '\n' :: rest :=
    hvalue.starts rest
  rw [statement?, hpath, Option.bind_eq_bind, Option.bind_some]
  · simp only [hskip, hvalue.reads]
    rfl
  · exact fun _ h => absurd (hkey.isKeyChar h) (by decide)
  · exact fun _ h => absurd (hkey.isKeyChar h) (by decide)

end Line

section Lines

-- Lines that are read as statements, one at a time, whatever the lines behind them hold. The count
-- is that of the lines.
def Reads (text : List Char) (statements : List Statement) : Prop :=
  ∃ count ≤ text.length, ∀ bound rest,
    statements? (bound + count) (text ++ rest) = (statements? bound rest).map (statements ++ ·)

variable {key : String} {front back : List Char} {first last : List Statement}

theorem reads_nil : Reads [] [] := by
  refine ⟨0, Nat.le_refl 0, fun bound rest => ?_⟩
  rw [Nat.add_zero, List.nil_append]
  exact Option.map_id'.symm

theorem reads_blank : Reads ['\n'] [] := by
  refine ⟨1, Nat.le_refl 1, fun bound rest => ?_⟩
  exact Option.map_id'.symm

theorem Reads.append (hfirst : Reads front first) (hlast : Reads back last) :
    Reads (front ++ back) (first ++ last) := by
  obtain ⟨count, hcount, hfront⟩ := hfirst
  obtain ⟨more, hmore, hback⟩ := hlast
  refine ⟨count + more, ?_, fun bound rest => ?_⟩
  · rw [List.length_append]
    exact Nat.add_le_add hcount hmore
  · rw [Nat.add_comm count more, ← Nat.add_assoc, List.append_assoc, hfront, hback,
      Option.map_map]
    simp only [Function.comp_def, List.append_assoc]

-- The characters that may stand in front of a statement, or instead of it.
def fillers : List Char := [' ', '\t', '#', '\n', '\r']

theorem isSpace_of_not_mem {c : Char} (hc : c ∉ fillers) : isSpace c = false := by
  simp only [fillers, List.mem_cons, not_or] at hc
  simp [isSpace, hc]

theorem endLine?_of_not_mem {c : Char} {rest : List Char} (hc : c ∉ fillers) :
    endLine? (c :: rest) = none := by
  have hspace := isSpace_of_not_mem hc
  simp only [fillers, List.mem_cons, not_or] at hc
  obtain ⟨-, -, hcomment, hend, hreturn, -⟩ := hc
  have hskip : skipComment (c :: rest) = c :: rest := by
    rw [skipComment.eq_def]
    split
    case h_1 h => exact absurd (List.cons.inj h).1 hcomment
    case h_2 => rfl
  rw [endLine?, skipSpaces_of_not_isSpace hspace, hskip]
  exact newline?_of_ne hend hreturn

theorem reads_statement {c : Char} {line : List Char} {statement : Statement} (hc : c ∉ fillers)
    (hread : ∀ bound rest, statement? (bound + 1) (c :: line ++ rest) = some (statement, rest)) :
    Reads (c :: line) [statement] := by
  refine ⟨1, by simp, fun bound rest => ?_⟩
  have hline := hread (2 * (c :: line ++ rest).length + 1) rest
  rw [List.cons_append] at hline ⊢
  rw [statements?, skipSpaces_of_not_isSpace (isSpace_of_not_mem hc)]
  simp only [endLine?_of_not_mem hc, hline, Option.bind_eq_bind, Option.bind_some]
  cases statements? bound rest with
  | none => rfl
  | some statements => rfl

theorem Bare.exists_first (hkey : Bare key) :
    ∃ c more, key.toList = c :: more ∧ c ∉ fillers := by
  cases hlist : key.toList with
  | nil => exact absurd hlist hkey.1
  | cons c more =>
      have hc := hkey.2 c (hlist ▸ List.mem_cons_self)
      refine ⟨c, more, rfl, fun hmem => ?_⟩
      simp only [fillers, List.mem_cons, List.not_mem_nil, or_false] at hmem
      rcases hmem with rfl | rfl | rfl | rfl | rfl
      all_goals cases hc

theorem reads_header (hkey : Bare key) :
    Reads ('[' :: (key.toList ++ [']', '\n'])) [.header [key]] := by
  refine reads_statement (by decide) fun bound rest => ?_
  rw [List.cons_append, List.append_assoc]
  exact statement?_header hkey

theorem reads_assign (hkey : Bare key) {text : List Char} {value : Value}
    (hvalue : Written text value) :
    Reads (key.toList ++ ' ' :: '=' :: ' ' :: (text ++ ['\n'])) [.assign [key] value] := by
  obtain ⟨c, more, hfirst, hc⟩ := hkey.exists_first
  have hread := fun bound rest => @statement?_assign key rest bound hkey text value hvalue
  rw [hfirst] at hread ⊢
  refine reads_statement hc fun bound rest => ?_
  simpa using hread bound rest

-- An entry of a table and the value that its spelling is read as.
structure Spelled (entry : String × String) (value : String × Value) : Prop where
  key : entry.1 = value.1
  bare : Bare value.1
  written : Written entry.2.toList value.2

-- The statements that a table is made of.
def statementsOf (name : String) (values : Entries) : List Statement :=
  .header [name] :: values.map fun (key, value) => .assign [key] value

theorem reads_entries {entries : List (String × String)} {values : Entries}
    (hentries : List.Forall₂ Spelled entries values) :
    Reads (String.join (entries.map fun (key, value) => key ++ " = " ++ value ++ "\n")).toList
      (values.map fun (key, value) => .assign [key] value) := by
  induction hentries with
  | nil => exact reads_nil
  | cons hentry hentries ih =>
      have hread := (reads_assign hentry.bare hentry.written).append ih
      simpa [hentry.key] using hread

theorem reads_table {name : String} (hname : Bare name) {entries : List (String × String)}
    {values : Entries} (hentries : List.Forall₂ Spelled entries values) :
    Reads (table name entries).toList (statementsOf name values) := by
  have hread := (reads_header hname).append (reads_entries hentries)
  simpa [table, statementsOf] using hread

-- Blank lines between texts do not matter.
theorem reads_intercalate {texts : List String} {statements : List (List Statement)}
    (htexts : List.Forall₂ (fun text => Reads text.toList) texts statements) :
    Reads ("\n".intercalate texts).toList statements.flatten := by
  rw [String.toList_intercalate]
  induction htexts with
  | nil => exact reads_nil
  | @cons text first texts statements htext htexts ih =>
      cases texts with
      | nil =>
          cases htexts
          simpa using htext
      | cons next texts =>
          have hread := htext.append (reads_blank.append ih)
          simpa using hread

-- Lines that do not start with a byte order mark are the whole document.
theorem Reads.parse? {text : String} {statements : List Statement}
    (hreads : Reads text.toList statements) (hmark : text.toList.head? ≠ some '\ufeff') :
    parse? text = ofStatements? statements := by
  obtain ⟨count, hcount, hread⟩ := hreads
  have hdrop : dropMark text.toList = text.toList := by
    rw [dropMark.eq_def]
    split
    case h_1 h => exact absurd (by rw [h]; rfl) hmark
    case h_2 => rfl
  have hend := hread (text.length - count + 1) []
  have hbound : text.length - count + 1 + count = text.length + 1 := by
    rw [String.length_toList] at hcount
    omega
  rw [hbound, List.append_nil] at hend
  rw [Toml.parse?, hdrop, hend]
  simp [statements?, skipSpaces]

end Lines

section Tables

variable {name key : String} {value : Value} {done rest entries values : Entries}

-- Entries under other keys are passed over.
theorem update?_append {change : Option Value → Option Value}
    (hkey : key ∉ done.map Prod.fst) :
    update? key change (done ++ rest) = (update? key change rest).map (done ++ ·) := by
  induction done with
  | nil => exact Option.map_id'.symm
  | cons entry done ih =>
      obtain ⟨hentry, hdone⟩ := not_or.mp (List.mem_cons.not.mp hkey)
      rw [List.cons_append, update?, if_neg (Ne.symm hentry), ih hdone]
      cases update? key change rest with
      | none => rfl
      | some changed => rfl

theorem update?_of_not_mem {change : Option Value → Option Value}
    (hkey : key ∉ done.map Prod.fst) :
    update? key change done = (change none).map fun value => done ++ [(key, value)] := by
  have hupdate := @update?_append key done [] change hkey
  rw [List.append_nil] at hupdate
  rw [hupdate, update?]
  cases change none with
  | none => rfl
  | some value => rfl

-- The header of a new table.
theorem addStatement?_header {path : List String} (hname : name ∉ done.map Prod.fst) :
    addStatement? (done, path) (.header [name]) =
      some (done ++ [(name, .table .header [])], [name]) := by
  have hopen : openAt? open? [name] done = some (done ++ [(name, .table .header [])]) :=
    update?_of_not_mem hname
  rw [addStatement?, hopen]
  rfl

-- A new entry of the table that is open.
theorem addStatement?_assign (hname : name ∉ done.map Prod.fst)
    (hkey : key ∉ entries.map Prod.fst) :
    addStatement? (done ++ [(name, .table .header entries)], [name]) (.assign [key] value) =
      some (done ++ [(name, .table .header (entries ++ [(key, value)]))], [name]) := by
  have hassign : assign? value [key] entries = some (entries ++ [(key, value)]) :=
    update?_of_not_mem hkey
  have hwithin : within? (assign? value [key]) [name] (done ++ [(name, .table .header entries)]) =
      some (done ++ [(name, .table .header (entries ++ [(key, value)]))]) := by
    rw [within?, update?_append hname]
    simp [update?, within?, hassign]
  rw [addStatement?, hwithin]
  rfl

theorem foldlM_assigns (hname : name ∉ done.map Prod.fst)
    (hkeys : ((entries ++ values).map Prod.fst).Nodup) :
    (values.map fun (key, value) => Statement.assign [key] value).foldlM addStatement?
        (done ++ [(name, .table .header entries)], [name]) =
      some (done ++ [(name, .table .header (entries ++ values))], [name]) := by
  induction values generalizing entries with
  | nil => rw [List.append_nil]; rfl
  | cons entry values ih =>
      obtain ⟨key, value⟩ := entry
      have hkey : key ∉ entries.map Prod.fst := by
        rw [List.map_append, List.map_cons] at hkeys
        exact fun hmem => (List.nodup_append.mp hkeys).2.2 key hmem key List.mem_cons_self rfl
      rw [List.append_cons entries] at hkeys ⊢
      rw [List.map_cons, List.foldlM_cons, addStatement?_assign hname hkey, Option.bind_eq_bind,
        Option.bind_some, ih hkeys]

theorem foldlM_tables {path : List String} {tables : List (String × Entries)}
    (hnames : ((done.map Prod.fst) ++ tables.map Prod.fst).Nodup)
    (hkeys : ∀ table ∈ tables, (table.2.map Prod.fst).Nodup) :
    ((tables.flatMap fun (name, values) => statementsOf name values).foldlM addStatement?
        (done, path)).map Prod.fst =
      some (done ++ tables.map fun (name, values) => (name, .table .header values)) := by
  induction tables generalizing done path with
  | nil => rw [List.map_nil, List.append_nil]; rfl
  | cons table tables ih =>
      obtain ⟨name, values⟩ := table
      obtain ⟨htable, htables⟩ := List.forall_mem_cons.mp hkeys
      have hname : name ∉ done.map Prod.fst := by
        rw [List.map_cons] at hnames
        exact fun hmem => (List.nodup_append.mp hnames).2.2 name hmem name List.mem_cons_self rfl
      have hfold : (statementsOf name values).foldlM addStatement? (done, path) =
          some (done ++ [(name, .table .header values)], [name]) := by
        rw [statementsOf, List.foldlM_cons, addStatement?_header hname, Option.bind_eq_bind,
          Option.bind_some]
        exact foldlM_assigns hname htable
      rw [List.flatMap_cons, List.foldlM_append, hfold, Option.bind_eq_bind, Option.bind_some,
        ih (by simpa using hnames) htables]
      simp

-- Tables of different names, each with different keys, are the document that their statements make.
theorem ofStatements?_tables {tables : List (String × Entries)}
    (hnames : (tables.map Prod.fst).Nodup)
    (hkeys : ∀ table ∈ tables, (table.2.map Prod.fst).Nodup) :
    ofStatements? (tables.flatMap fun (name, values) => statementsOf name values) =
      some (tables.map fun (name, values) => (name, .table .header values)) :=
  foldlM_tables hnames hkeys

-- A table and the values that it is read as.
structure Tabled (text : String × List (String × String)) (values : String × Entries) :
    Prop where
  name : text.1 = values.1
  bare : Bare values.1
  entries : List.Forall₂ Spelled text.2 values.2

-- A document of tables is read back as what its tables hold.
theorem parse?_intercalate {texts : List (String × List (String × String))}
    {tables : List (String × Entries)} (htexts : List.Forall₂ Tabled texts tables)
    (hnames : (tables.map Prod.fst).Nodup)
    (hkeys : ∀ table ∈ tables, (table.2.map Prod.fst).Nodup) :
    parse? ("\n".intercalate (texts.map fun (name, entries) => table name entries)) =
      some (tables.map fun (name, values) => (name, .table .header values)) := by
  have hreads : List.Forall₂ (fun text => Reads text.toList)
      (texts.map fun (name, entries) => table name entries)
      (tables.map fun (name, values) => statementsOf name values) := by
    rw [List.forall₂_map_left_iff, List.forall₂_map_right_iff]
    refine htexts.imp fun (name, entries) (other, values) htable => ?_
    obtain ⟨hname, hbare, hentries⟩ := htable
    cases hname
    exact reads_table hbare hentries
  have hmark : ("\n".intercalate
      (texts.map fun (name, entries) => table name entries)).toList.head? ≠ some '\ufeff' := by
    cases htexts with
    | nil => simp
    | cons htable hrest => simp [table]
  rw [(reads_intercalate hreads).parse? hmark, ← List.flatMap_def]
  exact ofStatements?_tables hnames hkeys

end Tables

end ContractSim.Toml
