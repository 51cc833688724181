import ContractSim.Message
import ContractSim.Proofs.Hex
import ContractSim.Proofs.Word.Bytes
import Mathlib.Data.List.DropRight

namespace ContractSim.Message

open ContractSim.Text

section Padding

theorem length_padTo {α : Type} {unit : Nat} (filler : α) (values : List α) (hunit : 0 < unit) :
    (padTo unit filler values).length % unit = 0 := by
  have hlt : values.length % unit < unit := Nat.mod_lt _ hunit
  rw [padTo, List.length_append, List.length_replicate]
  by_cases hwhole : values.length % unit = 0
  · rw [hwhole, Nat.sub_zero, Nat.mod_self, Nat.add_zero, hwhole]
  · have hfill : (unit - values.length % unit) % unit = unit - values.length % unit :=
      Nat.mod_eq_of_lt (by omega)
    rw [hfill, ← Nat.mod_add_mod, Nat.add_sub_cancel' hlt.le, Nat.mod_self]

theorem length_padTo_digits (digits : List Char) :
    (padTo wordDigits '0' digits).length % 16 = 0 :=
  length_padTo '0' digits (by decide)

-- Digits are filled up to whole words where bytes are.
theorem padTo_encode (bytes : List UInt8) :
    padTo wordDigits '0' (Hex.encode bytes) = Hex.encode (padTo 8 0 bytes) := by
  have hfill : (16 - 2 * bytes.length % 16) % 16 = 2 * ((8 - bytes.length % 8) % 8) := by omega
  rw [padTo, padTo, wordDigits, Hex.length_encode, hfill, Hex.encode_append,
    Hex.encode_replicate_zero]

-- A message has as many words as its pages, of which there is at least one.
theorem fillPages_eq (words : List Word) :
    fillPages words =
      words ++ List.replicate (4 * max 1 ((words.length + 3) / 4) - words.length) 0 := by
  unfold fillPages
  cases words with
  | nil => rfl
  | cons word rest =>
      rw [List.isEmpty_cons, if_neg Bool.false_ne_true, padTo, pageWords]
      congr 2
      rw [List.length_cons]
      omega

end Padding

section Digits

-- What stands between the blanks at the two ends of a text.
structure Trimmed (text inner : List Char) : Prop where
  split : ∃ front back, text = front ++ inner ++ back ∧ ∀ c ∈ front ++ back, isBlank c = true
  head : ∀ c ∈ inner.head?, isBlank c = false
  last : ∀ c ∈ inner.getLast?, isBlank c = false

-- What stands behind the mark of a text, if it has one.
inductive Unmarked : List Char → List Char → Prop
  | lower (digits : List Char) : Unmarked ('0' :: 'x' :: digits) digits
  | upper (digits : List Char) : Unmarked ('0' :: 'X' :: digits) digits
  | plain {digits : List Char} (hlower : ¬ ['0', 'x'] <+: digits)
      (hupper : ¬ ['0', 'X'] <+: digits) : Unmarked digits digits

-- What remains of a text without the blanks at its ends and one mark.
def Remains (text digits : List Char) : Prop :=
  ∃ inner, Trimmed text inner ∧ Unmarked inner digits

-- The digits of a text.
def digits (text : String) : List Char := dropHexMark (trim text.toList)

theorem dropBlanks_append {front inner : List Char} (hfront : ∀ c ∈ front, isBlank c = true)
    (hhead : ∀ c ∈ inner.head?, isBlank c = false) : dropBlanks (front ++ inner) = inner := by
  rw [dropBlanks, List.dropWhile_append_of_pos hfront]
  cases inner with
  | nil => rfl
  | cons c rest => exact List.dropWhile_cons_of_neg (by simp [hhead c rfl])

theorem trimmed_trim (text : List Char) : Trimmed text (trim text) := by
  have hback : trim text = (dropBlanks text).rdropWhile isBlank := rfl
  constructor
  · refine ⟨text.takeWhile isBlank, (dropBlanks text).rtakeWhile isBlank, ?_, ?_⟩
    · rw [hback, List.append_assoc, List.rdropWhile_append_rtakeWhile]
      exact List.takeWhile_append_dropWhile.symm
    · intro c hc
      rcases List.mem_append.mp hc with hfront | hend
      · exact List.mem_takeWhile_imp hfront
      · exact List.mem_rtakeWhile_imp hend
  · intro c hc
    obtain ⟨rest, hrest⟩ := List.rdropWhile_prefix isBlank (dropBlanks text)
    have hfirst : c ∈ (dropBlanks text).head? := by
      rw [← hrest, ← hback, List.head?_append, Option.mem_def.mp hc]
      rfl
    have hnot := List.head?_dropWhile_not isBlank text
    rw [← dropBlanks, Option.mem_def.mp hfirst] at hnot
    simpa using hnot
  · intro c hc
    obtain ⟨hsome, rfl⟩ := List.mem_getLast?_eq_getLast hc
    exact Bool.eq_false_iff.mpr (List.rdropWhile_last_not isBlank _ hsome)

-- Where nothing is left between the blanks, those behind it are dropped with those in front.
theorem Trimmed.trim_eq {text inner : List Char} (htrimmed : Trimmed text inner) :
    trim text = inner := by
  obtain ⟨front, back, rfl, hblank⟩ := htrimmed.split
  obtain ⟨hfront, hback⟩ := List.forall_mem_append.mp hblank
  have hreverse : ∀ c ∈ back.reverse, isBlank c = true := fun c hc =>
    hback c (List.mem_reverse.mp hc)
  cases inner with
  | nil =>
      have hall := @dropBlanks_append (front ++ back) [] hblank (by simp)
      rw [List.append_nil] at hall ⊢
      rw [trim, hall]
      rfl
  | cons c rest =>
      have hlast : ∀ c' ∈ (c :: rest).reverse.head?, isBlank c' = false := by
        rw [List.head?_reverse]
        exact htrimmed.last
      rw [trim, List.append_assoc, dropBlanks_append hfront (by simpa using htrimmed.head),
        List.reverse_append, dropBlanks_append hreverse hlast, List.reverse_reverse]

theorem unmarked_dropHexMark (text : List Char) : Unmarked text (dropHexMark text) := by
  unfold dropHexMark
  split
  · exact .lower _
  · exact .upper _
  · rename_i hlower hupper
    apply Unmarked.plain
    · rintro ⟨rest, rfl⟩
      exact hlower rest rfl
    · rintro ⟨rest, rfl⟩
      exact hupper rest rfl

theorem Unmarked.dropHexMark_eq {text digits : List Char} (hunmarked : Unmarked text digits) :
    dropHexMark text = digits := by
  cases hunmarked with
  | lower => rfl
  | upper => rfl
  | plain hlower hupper =>
      unfold dropHexMark
      split
      · exact absurd (List.prefix_append ['0', 'x'] _) hlower
      · exact absurd (List.prefix_append ['0', 'X'] _) hupper
      · rfl

theorem remains_iff {text : String} {rest : List Char} :
    Remains text.toList rest ↔ digits text = rest := by
  constructor
  · rintro ⟨inner, htrimmed, hunmarked⟩
    rw [digits, htrimmed.trim_eq, hunmarked.dropHexMark_eq]
  · rintro rfl
    exact ⟨_, trimmed_trim _, unmarked_dropHexMark _⟩

theorem trim_encode (bytes : List UInt8) : trim (Hex.encode bytes) = Hex.encode bytes := by
  have halphabet : (Hex.alphabet.all fun c => !isBlank c) = true := by decide
  have hplain : ∀ c ∈ Hex.encode bytes, isBlank c = false := by
    intro c hc
    simpa using List.all_eq_true.mp halphabet c (Hex.mem_alphabet_of_mem_encode hc)
  have htrimmed : Trimmed (Hex.encode bytes) (Hex.encode bytes) :=
    ⟨⟨[], [], by simp⟩, fun c hc => hplain c (List.mem_of_head? hc),
      fun c hc => hplain c (List.mem_of_getLast? hc)⟩
  exact htrimmed.trim_eq

-- The letter of the mark is no digit.
theorem dropHexMark_encode (bytes : List UInt8) :
    dropHexMark (Hex.encode bytes) = Hex.encode bytes := by
  have hlower : 'x' ∉ Hex.encode bytes := fun hx =>
    absurd (Hex.mem_alphabet_of_mem_encode hx) (by decide)
  have hupper : 'X' ∉ Hex.encode bytes := fun hx =>
    absurd (Hex.mem_alphabet_of_mem_encode hx) (by decide)
  unfold dropHexMark
  split
  · simp_all
  · simp_all
  · rfl

theorem digits_encode (bytes : List UInt8) :
    digits (String.ofList (Hex.encode bytes)) = Hex.encode bytes := by
  rw [digits, String.toList_ofList, trim_encode, dropHexMark_encode]

-- The digits have been filled up to whole words, and so have their bytes.
theorem length_of_decode?_padTo {digits : List Char} {bytes : List UInt8}
    (hdecode : Hex.decode? (padTo wordDigits '0' digits) = some bytes) :
    bytes.length % 8 = 0 := by
  have hencode := Hex.encode_of_decode? hdecode
  have hdigits := length_padTo_digits digits
  rw [← List.length_map Char.toLower, ← hencode, Hex.length_encode] at hdigits
  omega

-- So no byte is dropped that has been read.
theorem wordsOfHex_eq_ok_iff {hex : String} {words : List Word} :
    wordsOfHex hex = .ok words ↔
      ∃ bytes, Hex.decode? (padTo wordDigits '0' (digits hex)) = some bytes ∧
        Word.ofByteList bytes = words := by
  unfold wordsOfHex
  rw [← digits]
  cases hdecode : Hex.decode? (padTo wordDigits '0' (digits hex)) with
  | none => simp
  | some bytes =>
      have hchunks := Word.ofChunks_eq_ofByteList (length_of_decode?_padTo hdecode)
      simp [hchunks]

theorem wordsOfHex_encode (bytes : List UInt8) :
    wordsOfHex (String.ofList (Hex.encode bytes)) = .ok (Word.ofByteList bytes) := by
  rw [wordsOfHex_eq_ok_iff]
  refine ⟨padTo 8 0 bytes, ?_, Word.ofByteList_fill bytes⟩
  rw [digits_encode, padTo_encode, Hex.decode?_encode]

theorem mem_alphabet_padTo_iff (unit : Nat) (digits : List Char) :
    (∀ c ∈ padTo unit '0' digits, c ∈ Hex.alphabet) ↔ ∀ c ∈ digits, c ∈ Hex.alphabet := by
  have hzero : '0' ∈ Hex.alphabet := by decide
  rw [padTo, List.forall_mem_append, and_iff_left]
  intro c hc
  rw [List.eq_of_mem_replicate hc]
  exact hzero

theorem exists_wordsOfHex_iff {hex : String} :
    (∃ words, wordsOfHex hex = .ok words) ↔ ∀ c ∈ digits hex, c ∈ Hex.alphabet := by
  have heven : (padTo wordDigits '0' (digits hex)).length % 2 = 0 := by
    have hwhole := length_padTo_digits (digits hex)
    omega
  rw [← mem_alphabet_padTo_iff wordDigits]
  constructor
  · rintro ⟨words, hread⟩
    obtain ⟨bytes, hdecode, -⟩ := wordsOfHex_eq_ok_iff.mp hread
    exact (Hex.exists_decode?_iff.mp ⟨bytes, hdecode⟩).2
  · intro hdigits
    obtain ⟨bytes, hdecode⟩ := Hex.exists_decode?_iff.mpr ⟨heven, hdigits⟩
    exact ⟨_, wordsOfHex_eq_ok_iff.mpr ⟨bytes, hdecode, rfl⟩⟩

theorem toHex_of_wordsOfHex {hex : String} {words : List Word}
    (hread : wordsOfHex hex = .ok words) :
    (toHex words).toList = padTo wordDigits '0' ((digits hex).map Char.toLower) := by
  obtain ⟨bytes, hdecode, rfl⟩ := wordsOfHex_eq_ok_iff.mp hread
  have hencode := Hex.encode_of_decode? hdecode
  have hwhole := length_of_decode?_padTo hdecode
  have hfill : (8 - bytes.length % 8) % 8 = 0 := by omega
  rw [toHex, String.toList_ofList, Word.listBytes_ofByteList, hfill, List.replicate_zero,
    List.append_nil, hencode, padTo, padTo, List.map_append, List.map_replicate, List.length_map]
  rfl

end Digits

section Utf8

theorem utf8Bytes_eq (text : String) :
    utf8Bytes text = text.toList.flatMap String.utf8EncodeChar := by
  rw [utf8Bytes, String.toUTF8_eq_toByteArray, ← String.utf8Encode_toList, List.utf8Encode,
    List.data_toByteArray]

theorem ofUtf8_utf8Bytes (text : String) : ofUtf8 (utf8Bytes text) = .ok text := by
  have hbytes : ByteArray.mk (utf8Bytes text).toArray = text.toByteArray := by
    rw [utf8Bytes, Array.toArray_toList, String.toUTF8_eq_toByteArray]
  rw [ofUtf8, hbytes, String.fromUTF8?, dif_pos text.isValidUTF8]
  rfl

-- Only the character NUL has a zero byte at its end.
theorem exists_utf8EncodeChar_eq {c : Char} (hc : c ≠ '\x00') :
    ∃ front last, String.utf8EncodeChar c = front ++ [last] ∧ last ≠ 0 := by
  have hcode : c.val.toNat ≠ 0 := fun hzero => hc (Char.ext (UInt32.toNat_inj.mp hzero))
  have hbyte (code : Nat) (hpos : code % 2 ^ 8 ≠ 0) : UInt8.ofNat code ≠ 0 := by
    intro hzero
    have hmod : code % 2 ^ 8 = 0 := by
      rw [← UInt8.toNat_ofNat', hzero]
      rfl
    exact hpos hmod
  have hlast : UInt8.ofNat (c.val.toNat % 0x40 + 0x80) ≠ 0 := hbyte _ (by omega)
  simp only [String.utf8EncodeChar]
  split_ifs with hone htwo hthree
  · exact ⟨[], _, rfl, hbyte _ (by omega)⟩
  · exact ⟨[_], _, rfl, hlast⟩
  · exact ⟨[_, _], _, rfl, hlast⟩
  · exact ⟨[_, _, _], _, rfl, hlast⟩

theorem dropTrailingZeros_utf8 (chars : List Char) :
    dropTrailingZeros (chars.flatMap String.utf8EncodeChar) =
      (chars.rdropWhile (· == '\x00')).flatMap String.utf8EncodeChar := by
  have hdrop (bytes : List UInt8) : dropTrailingZeros bytes = bytes.rdropWhile (· == 0) := rfl
  induction chars using List.reverseRecOn with
  | nil => rfl
  | append_singleton chars c ih =>
      rw [hdrop] at ih ⊢
      rw [List.flatMap_append, List.flatMap_singleton]
      by_cases hc : c = '\x00'
      · subst hc
        rw [List.rdropWhile_concat_pos _ _ _ rfl, ← ih]
        exact List.rdropWhile_concat_pos _ _ _ rfl
      · obtain ⟨front, last, hencode, hlast⟩ := exists_utf8EncodeChar_eq hc
        rw [List.rdropWhile_concat_neg _ _ _ (by simpa using hc), List.flatMap_append,
          List.flatMap_singleton, hencode, ← List.append_assoc]
        exact List.rdropWhile_concat_neg _ _ _ (by simpa using hlast)

theorem dropTrailingZeros_append_zeros (bytes : List UInt8) (count : Nat) :
    dropTrailingZeros (bytes ++ List.replicate count 0) = dropTrailingZeros bytes := by
  have hzeros : ∀ byte ∈ List.replicate count (0 : UInt8), (byte == 0) = true := by
    intro byte hbyte
    rw [List.eq_of_mem_replicate hbyte]
    rfl
  rw [dropTrailingZeros, List.reverse_append, List.reverse_replicate,
    List.dropWhile_append_of_pos hzeros, ← dropTrailingZeros]

-- Behind a text its message holds zeros only.
theorem exists_listBytes_ofText (text : String) :
    ∃ count, Word.listBytes (ofText text) = utf8Bytes text ++ List.replicate count 0 := by
  rw [ofText, fillPages_eq, Word.listBytes_append, Word.listBytes_ofByteList,
    Word.listBytes_replicate_zero, List.append_assoc, List.replicate_append_replicate]
  exact ⟨_, rfl⟩

theorem toText_ofText (text : String) :
    toText (ofText text) = .ok (String.ofList (text.toList.rdropWhile (· == '\x00'))) := by
  obtain ⟨count, hbytes⟩ := exists_listBytes_ofText text
  rw [toText, hbytes, dropTrailingZeros_append_zeros, utf8Bytes_eq, dropTrailingZeros_utf8]
  have hshort := utf8Bytes_eq (String.ofList (text.toList.rdropWhile (· == '\x00')))
  rw [String.toList_ofList] at hshort
  rw [← hshort, ofUtf8_utf8Bytes]

end Utf8

section Codecs

theorem textOfHex_hexOfText (text : String) : textOfHex (hexOfText text) = .ok text := by
  rw [textOfHex, hexOfText, String.toList_ofList, trim_encode, Hex.decode?_encode]
  exact ofUtf8_utf8Bytes text

theorem wordsOfHex_toHex (words : List Word) : wordsOfHex (toHex words) = .ok words := by
  rw [toHex, wordsOfHex_encode, Word.ofByteList_listBytes]

-- A text becomes the same message on the way over its digits.
theorem ofHex_hexOfText (text : String) : ofHex (hexOfText text) = .ok (ofText text) := by
  rw [ofHex, hexOfText, wordsOfHex_encode]
  rfl

-- Writing words as digits and texts as digits or messages loses nothing but the zeros at the end
-- of a text. Digits are read unless something else stands among them, and written again in lower
-- case, with zeros up to a whole word.
theorem codecs_agree (words : List Word) (text hex : String) :
    wordsOfHex (toHex words) = .ok words ∧
    ofHex (toHex words) =
      .ok (words ++ List.replicate (4 * max 1 ((words.length + 3) / 4) - words.length) 0) ∧
    ofHex (hexOfText text) = .ok (ofText text) ∧
    textOfHex (hexOfText text) = .ok text ∧
    toText (ofText text) = .ok (String.ofList (text.toList.rdropWhile (· == '\x00'))) ∧
    ((∃ read, wordsOfHex hex = .ok read) ↔
      ∃ digits, Remains hex.toList digits ∧ ∀ c ∈ digits, c ∈ Hex.alphabet) ∧
    ∀ read digits, wordsOfHex hex = .ok read → Remains hex.toList digits →
      (toHex read).toList =
        digits.map Char.toLower ++ List.replicate ((16 - digits.length % 16) % 16) '0' := by
  refine ⟨wordsOfHex_toHex words, ?_, ofHex_hexOfText text, textOfHex_hexOfText text,
    toText_ofText text, ?_, ?_⟩
  · rw [ofHex, wordsOfHex_toHex, ← fillPages_eq]
    rfl
  · simp only [exists_wordsOfHex_iff, remains_iff, exists_eq_left']
  · intro read rest hread hrest
    rw [remains_iff] at hrest
    rw [toHex_of_wordsOfHex hread, padTo, List.length_map, wordDigits, hrest]

-- A page and a word, a text that ends in zeros, and digits of both cases behind a mark.
theorem codecs_agree_padded :
    ofHex (toHex [1, 2, 3, 4, 5]) = .ok [1, 2, 3, 4, 5, 0, 0, 0] ∧
    toText (ofText "ção\x00\x00") = .ok "ção" ∧
    wordsOfHex "\t0XaBc " = .ok [0xc0ab] ∧ Remains "\t0XaBc ".toList "aBc".toList ∧
    toHex [0xc0ab] = "abc0000000000000" := by
  obtain ⟨-, hpages, -, -, htext, -, hread⟩ :=
    codecs_agree [1, 2, 3, 4, 5] "ção\x00\x00" "\t0XaBc "
  have hwords : wordsOfHex "\t0XaBc " = .ok [0xc0ab] := by decide
  have hremains : Remains "\t0XaBc ".toList "aBc".toList := remains_iff.mpr (by decide)
  have hlist := hread _ _ hwords hremains
  refine ⟨hpages, ?_, hwords, hremains, ?_⟩
  · rw [htext]
    decide
  · rw [← String.toList_inj, hlist]
    decide

end Codecs

end ContractSim.Message
