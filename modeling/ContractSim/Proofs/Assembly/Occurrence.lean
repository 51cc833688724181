import ContractSim.Proofs.Assembly.Grammar
import ContractSim.Proofs.Assembly.Names

namespace ContractSim

namespace Token

open ContractSim.Text

-- The number of open parentheses behind a character.
def depthBehind (depth : Nat) (c : Char) : Nat :=
  if c = '(' then depth + 1 else if c = ')' then depth - 1 else depth

-- Blanks inside parentheses are in no word.
def isDropped (depth : Nat) (c : Char) : Bool := isBlank c && depth != 0

-- The text without the blanks inside parentheses.
def squeeze : Nat → List Char → List Char
  | _, [] => []
  | depth, c :: rest =>
      if isDropped depth c then squeeze depth rest else c :: squeeze (depthBehind depth c) rest

-- Somewhere inside parentheses a blank stands right in front of a character of a name.
def hasGap : Nat → List Char → Bool
  | _, [] => false
  | depth, c :: rest =>
      (isDropped depth c && rest.head?.any isNameRest) || hasGap (depthBehind depth c) rest

-- A name stands in a text right behind its sign, and it is not a part of a longer name.
def Occurs (name text : List Char) : Prop :=
  ∃ before mark after, text = before ++ mark :: (name ++ after) ∧ (mark = '@' ∨ mark = '$') ∧
    ∀ c ∈ after.head?, isNameRest c = false

-- A word stands in a text, and a blank or the end of the text follows it.
def IsPiece (word text : List Char) : Prop :=
  ∃ before after, text = before ++ word ++ after ∧ ∀ c ∈ after.head?, isBlank c = true

theorem depthBehind_of_isBlank {c : Char} (hblank : isBlank c = true) (depth : Nat) :
    depthBehind depth c = depth := by
  obtain ⟨hopen, hclose⟩ := not_parenthesis_of_isBlank hblank
  rw [depthBehind, if_neg hopen, if_neg hclose]

theorem depthBehind_of_isPlain {c : Char} (hplain : isPlain c = true) (depth : Nat) :
    depthBehind depth c = depth := by
  obtain ⟨hopen, hclose, -⟩ := isPlain_iff.mp hplain
  rw [depthBehind, if_neg hopen, if_neg hclose]

theorem isDropped_of_not_isBlank {c : Char} (hblank : isBlank c = false) (depth : Nat) :
    isDropped depth c = false := by
  rw [isDropped, hblank, Bool.false_and]

theorem squeeze_of_isDropped {depth : Nat} {c : Char} (hdropped : isDropped depth c = true)
    (rest : List Char) : squeeze depth (c :: rest) = squeeze depth rest := by
  rw [squeeze, if_pos hdropped]

theorem squeeze_of_not_isDropped {depth : Nat} {c : Char} (hkept : isDropped depth c = false)
    (rest : List Char) :
    squeeze depth (c :: rest) = c :: squeeze (depthBehind depth c) rest := by
  rw [squeeze, if_neg (Bool.eq_false_iff.mp hkept)]

theorem squeeze_of_isPlain {c : Char} (hplain : isPlain c = true) (depth : Nat)
    (rest : List Char) : squeeze depth (c :: rest) = c :: squeeze depth rest := by
  obtain ⟨-, -, hblank⟩ := isPlain_iff.mp hplain
  rw [squeeze_of_not_isDropped (isDropped_of_not_isBlank hblank depth),
    depthBehind_of_isPlain hplain]

theorem not_isNameRest_of_isBlank {c : Char} (hblank : isBlank c = true) :
    isNameRest c = false := by
  rw [Bool.eq_false_iff]
  intro hname
  obtain ⟨-, -, hplain⟩ := isPlain_iff.mp (isPlain_of_isNameRest hname)
  rw [hblank] at hplain
  cases hplain

theorem mem_closeWord {word current : List Char} {following : List (List Char)}
    (hmem : word ∈ closeWord current following) : word = current.reverse ∨ word ∈ following := by
  unfold closeWord at hmem
  split_ifs at hmem
  · exact .inr hmem
  · exact List.mem_cons.mp hmem

-- The words are the pieces of the squeezed text: what a word is made of stands together there.
theorem isPiece_of_mem_splitFrom {depth : Nat} {current text : List Char}
    {words : List (List Char)} (hsplit : splitFrom depth current text = some words)
    {word : List Char} (hmem : word ∈ words) :
    IsPiece word (current.reverse ++ squeeze depth text) := by
  -- A character that is read goes over from the text to the word that is being read.
  have hread (c : Char) (current rest : List Char) :
      (c :: current).reverse ++ rest = current.reverse ++ c :: rest := by
    rw [List.reverse_cons, List.append_assoc, List.singleton_append]
  fun_induction splitFrom depth current text generalizing words with
  | case1 current =>
      cases hsplit
      rcases mem_closeWord hmem with rfl | hnone
      · refine ⟨[], [], by simp [squeeze], ?_⟩
        intro c hc
        cases hc
      · cases hnone
  | case2 => cases hsplit
  | case3 depth current rest ih =>
      rw [squeeze_of_not_isDropped (isDropped_of_not_isBlank (by decide) depth), ← hread]
      exact ih hsplit hmem
  | case4 => cases hsplit
  | case5 current rest outer _ ih =>
      rw [squeeze_of_not_isDropped (isDropped_of_not_isBlank (by decide) (outer + 1)), ← hread]
      exact ih hsplit hmem
  | case6 current c rest _ _ hblank ih =>
      have hkept : isDropped 0 c = false := by rw [isDropped, bne_self_eq_false, Bool.and_false]
      obtain ⟨following, hfollowing, rfl⟩ := Option.map_eq_some_iff.mp hsplit
      rw [squeeze_of_not_isDropped hkept, depthBehind_of_isBlank hblank]
      rcases mem_closeWord hmem with rfl | hlater
      · refine ⟨[], c :: squeeze 0 rest, rfl, ?_⟩
        intro first hfirst
        cases hfirst
        exact hblank
      · obtain ⟨before, after, hrest, hend⟩ := ih hfollowing hlater
        rw [List.reverse_nil, List.nil_append] at hrest
        exact ⟨current.reverse ++ c :: before, after, by simp [hrest], hend⟩
  | case7 current c rest _ _ hblank inner ih =>
      have hdropped : isDropped (inner + 1) c = true := by
        rw [isDropped, hblank, Bool.true_and, bne_iff_ne]
        exact Nat.succ_ne_zero inner
      rw [squeeze_of_isDropped hdropped]
      exact ih hsplit hmem
  | case8 depth current c rest hopen hclose hblank ih =>
      have hplain := isPlain_iff.mpr ⟨hopen, hclose, Bool.eq_false_iff.mpr hblank⟩
      rw [squeeze_of_isPlain hplain, ← hread]
      exact ih hsplit hmem

theorem Occurs.isInfix {name text : List Char} (hoccurs : Occurs name text) : name <:+: text := by
  obtain ⟨before, mark, after, rfl, -, -⟩ := hoccurs
  exact ⟨before ++ [mark], after, by simp⟩

theorem Occurs.prepend {name text : List Char} (hoccurs : Occurs name text) (front : List Char) :
    Occurs name (front ++ text) := by
  obtain ⟨before, mark, after, rfl, hmark, hend⟩ := hoccurs
  exact ⟨front ++ before, mark, after, (List.append_assoc _ _ _).symm, hmark, hend⟩

-- A blank behind a piece does not make its last name longer.
theorem Occurs.of_isPiece {name word text : List Char} (hoccurs : Occurs name word)
    (hpiece : IsPiece word text) : Occurs name text := by
  obtain ⟨front, back, rfl, hback⟩ := hpiece
  obtain ⟨before, mark, after, rfl, hmark, hend⟩ := hoccurs
  refine ⟨front ++ before, mark, after ++ back, by simp, hmark, ?_⟩
  intro c hc
  cases after with
  | nil => exact not_isNameRest_of_isBlank (hback c hc)
  | cons => exact hend c hc

theorem occurs_behind {mark : Char} (hmark : mark = '@' ∨ mark = '$') (name : List Char)
    {after : List Char} (hend : ∀ c ∈ after.head?, isNameRest c = false) :
    Occurs name (mark :: (name ++ after)) :=
  ⟨[], mark, after, rfl, hmark, hend⟩

theorem occurs_addressSpelling {name base : String} {offset : Option String}
    (hmem : name ∈ base :: offset.toList) :
    Occurs name.toList (addressSpelling base offset ++ [')']) := by
  have hclose : ∀ c ∈ [')'].head?, isNameRest c = false := by
    intro c hc
    cases hc
    decide
  cases offset with
  | none =>
      obtain rfl := List.mem_singleton.mp hmem
      rw [addressSpelling, Option.map_none, Option.getD_none, List.append_nil]
      exact occurs_behind (.inr rfl) _ hclose
  | some other =>
      rw [addressSpelling, Option.map_some, Option.getD_some]
      rcases List.mem_cons.mp hmem with rfl | hother
      · have hplus : ∀ c ∈ ('+' :: '$' :: (other.toList ++ [')'])).head?,
            isNameRest c = false := by
          intro c hc
          cases hc
          decide
        have hbase := occurs_behind (.inr rfl) name.toList hplus
        simpa using hbase
      · obtain rfl := List.mem_singleton.mp hother
        have hoffset := (occurs_behind (.inr rfl) name.toList hclose).prepend
          ('$' :: base.toList ++ ['+'])
        simpa using hoffset

-- The word of a token has the names of the token.
theorem occurs_spelling {token : Token} {name : String} (hmem : name ∈ token.names) :
    Occurs name.toList token.spelling := by
  cases token with
  | cell other | value other =>
      obtain rfl := List.mem_singleton.mp hmem
      exact ⟨[], _, [], by rw [List.append_nil]; rfl, by decide, nofun⟩
  | cellPointer base offset => exact (occurs_addressSpelling hmem).prepend ['@', '(']
  | valuePointer base offset => exact (occurs_addressSpelling hmem).prepend ['$', '(']
  | word | label | literal => cases hmem

-- Only literals can be written in more than one way.
theorem eq_spelling_of_sameWord {word : List Char} {token : Token} {name : String}
    (hsame : SameWord word token.spelling) (hmem : name ∈ token.names) :
    word = token.spelling := by
  cases token with
  | cell | value | cellPointer | valuePointer => exact hsame.eq_of_head (by decide)
  | word | label | literal => cases hmem

-- Without gaps a character of a name is read where it stands.
theorem exists_of_squeeze_eq_cons {depth : Nat} {text out : List Char} {c : Char}
    (hgap : hasGap depth text = false) (hname : isNameRest c = true)
    (hsqueeze : squeeze depth text = c :: out) :
    ∃ rest, text = c :: rest ∧ squeeze depth rest = out ∧ hasGap depth rest = false := by
  induction text with
  | nil => cases hsqueeze
  | cons first rest ih =>
      rw [hasGap, Bool.or_eq_false_iff] at hgap
      obtain ⟨hhere, hrest⟩ := hgap
      cases hdropped : isDropped depth first with
      | true =>
          -- The last blank in front of the character would be a gap.
          obtain ⟨hblank, -⟩ := Bool.and_eq_true_iff.mp hdropped
          rw [depthBehind_of_isBlank hblank] at hrest
          rw [squeeze_of_isDropped hdropped] at hsqueeze
          obtain ⟨more, rfl, -⟩ := ih hrest hsqueeze
          simp [hdropped, hname] at hhere
      | false =>
          rw [squeeze_of_not_isDropped hdropped, List.cons.injEq] at hsqueeze
          obtain ⟨rfl, hout⟩ := hsqueeze
          rw [depthBehind_of_isPlain (isPlain_of_isNameRest hname)] at hout hrest
          exact ⟨rest, rfl, hout, hrest⟩

theorem exists_of_squeeze_eq_append {depth : Nat} {name text out : List Char}
    (hgap : hasGap depth text = false) (hname : ∀ c ∈ name, isNameRest c = true)
    (hsqueeze : squeeze depth text = name ++ out) :
    ∃ rest, text = name ++ rest ∧ squeeze depth rest = out := by
  induction name generalizing text with
  | nil => exact ⟨text, rfl, hsqueeze⟩
  | cons c name ih =>
      obtain ⟨hc, hmore⟩ := List.forall_mem_cons.mp hname
      obtain ⟨rest, rfl, hout, hrest⟩ := exists_of_squeeze_eq_cons hgap hc hsqueeze
      obtain ⟨final, rfl, hfinal⟩ := ih hrest hmore hout
      exact ⟨final, rfl, hfinal⟩

-- Squeezing takes nothing away that parts two names.
theorem head_not_isNameRest_of_squeeze {depth : Nat} {text : List Char}
    (hend : ∀ c ∈ (squeeze depth text).head?, isNameRest c = false) :
    ∀ c ∈ text.head?, isNameRest c = false := by
  intro c hc
  obtain ⟨rest, rfl⟩ := List.head?_eq_some_iff.mp hc
  rw [Bool.eq_false_iff]
  intro hname
  rw [squeeze_of_isPlain (isPlain_of_isNameRest hname)] at hend
  rw [hend c rfl] at hname
  cases hname

theorem occurs_of_occurs_squeeze {depth : Nat} {name text : List Char}
    (hgap : hasGap depth text = false) (hname : ∀ c ∈ name, isNameRest c = true)
    (hoccurs : Occurs name (squeeze depth text)) : Occurs name text := by
  induction text generalizing depth with
  | nil => exact hoccurs
  | cons first rest ih =>
      rw [hasGap, Bool.or_eq_false_iff] at hgap
      obtain ⟨-, hrest⟩ := hgap
      cases hdropped : isDropped depth first with
      | true =>
          obtain ⟨hblank, -⟩ := Bool.and_eq_true_iff.mp hdropped
          rw [depthBehind_of_isBlank hblank] at hrest
          rw [squeeze_of_isDropped hdropped] at hoccurs
          exact (ih hrest hoccurs).prepend [first]
      | false =>
          rw [squeeze_of_not_isDropped hdropped] at hoccurs
          obtain ⟨before, mark, after, hsplit, hmark, hend⟩ := hoccurs
          cases before with
          | nil =>
              rw [List.nil_append, List.cons.injEq] at hsplit
              obtain ⟨rfl, hsqueeze⟩ := hsplit
              obtain ⟨more, rfl, rfl⟩ := exists_of_squeeze_eq_append hrest hname hsqueeze
              exact occurs_behind hmark name (head_not_isNameRest_of_squeeze hend)
          | cons other before =>
              rw [List.cons_append, List.cons.injEq] at hsplit
              exact (ih hrest ⟨before, mark, after, hsplit.2, hmark, hend⟩).prepend [first]

end Token

namespace Line

open Token

theorem occurs_squeeze_of_parse {text : String} {instruction : Instruction}
    (hcode : parse text = .code instruction) :
    ∀ name ∈ instruction.cellNames, Occurs name.toList (squeeze 0 text.toList) := by
  obtain ⟨hvalid, words, hwords, hsame⟩ := parse_eq_code_iff.mp hcode
  have hpieces : ∀ word ∈ words, IsPiece word (squeeze 0 text.toList) :=
    fun word hmem => isPiece_of_mem_splitFrom hwords hmem
  have htokens : ∀ token ∈ instruction.tokens, ∀ name ∈ token.names,
      Occurs name.toList (squeeze 0 text.toList) := by
    refine forall_mem_of_forall₂ (List.forall₂_map_right_iff.mp hsame) ?_ hpieces
    intro word token hword hpiece name hmem
    rw [eq_spelling_of_sameWord hword hmem] at hpiece
    exact (occurs_spelling hmem).of_isPiece hpiece
  have hread := Instruction.ofTokens?_eq_some_iff.mpr ⟨hvalid.fits, rfl⟩
  intro name hmem
  rw [Instruction.cellNames_ofTokens? hread] at hmem
  obtain ⟨token, htoken, hname⟩ := List.mem_flatMap.mp hmem
  exact htokens token htoken name hname

-- The names of an instruction stand in its line, once the blanks inside parentheses are gone. In
-- the line itself they stand as long as no such blank is right in front of a character of a name.
theorem names_occur_without_gaps {text : String} {instruction : Instruction}
    (hcode : parse text = .code instruction) :
    (∀ name ∈ instruction.cellNames, Occurs name.toList (squeeze 0 text.toList)) ∧
      (hasGap 0 text.toList = false →
        ∀ name ∈ instruction.cellNames, Occurs name.toList text.toList) := by
  refine ⟨occurs_squeeze_of_parse hcode, ?_⟩
  intro hgap name hmem
  obtain ⟨hvalid, -⟩ := parse_eq_code_iff.mp hcode
  have hname := forall_mem_of_isName (hvalid.named name (List.mem_append_left _ hmem))
  exact occurs_of_occurs_squeeze hgap hname (occurs_squeeze_of_parse hcode name hmem)

theorem names_occur_without_gaps_spaced :
    parse "\tSET @( $p +\t$q )   $r " = .code (.storeIndexed "p" "q" "r") ∧
      hasGap 0 "\tSET @( $p +\t$q )   $r ".toList = false ∧
      ∀ name ∈ ["p", "q", "r"], Occurs name.toList "\tSET @( $p +\t$q )   $r ".toList := by
  have hcode : parse "\tSET @( $p +\t$q )   $r " = .code (.storeIndexed "p" "q" "r") := by decide
  have hgap : hasGap 0 "\tSET @( $p +\t$q )   $r ".toList = false := by decide
  exact ⟨hcode, hgap, (names_occur_without_gaps hcode).2 hgap⟩

-- A blank inside parentheses does not part the characters on its two sides.
theorem gap_glues_names :
    ¬∀ (text : String) (instruction : Instruction), parse text = .code instruction →
      ∀ name ∈ instruction.cellNames, Occurs name.toList text.toList := by
  intro hall
  have hglued : parse "SET @x $($a b)" = .code (.load "x" "ab") := by decide
  have hinfix := (hall _ _ hglued "ab" (by decide)).isInfix
  exact absurd hinfix (by decide +kernel)

end Line

end ContractSim
