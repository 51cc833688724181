import ContractSim.Digest
import ContractSim.Proofs.Word.Bytes

namespace ContractSim

namespace Digest

theorem toNat_ofLittleBytes (b0 b1 b2 b3 : UInt8) :
    (ofLittleBytes b0 b1 b2 b3).toNat = Word.littleEndian [b0, b1, b2, b3] := by
  have h0 : b0.toNat < 2 ^ 8 := b0.toNat_lt
  have h1 : b1.toNat < 2 ^ 8 := b1.toNat_lt
  have h2 : b2.toNat < 2 ^ 8 := b2.toNat_lt
  have hshift (byte : UInt8) (place : UInt32) (hfits : place.toNat ≤ 24) :
      (byte.toUInt32 <<< place).toNat = byte.toNat * 2 ^ place.toNat := by
    have hcount : place.toNat % 32 = place.toNat := Nat.mod_eq_of_lt (by omega)
    have hpower : 2 ^ place.toNat ≤ 2 ^ 24 := Nat.pow_le_pow_right (by decide) hfits
    have hproduct : byte.toNat * 2 ^ place.toNat < 2 ^ 8 * 2 ^ 24 :=
      Nat.mul_lt_mul_of_lt_of_le byte.toNat_lt hpower (by decide)
    rw [UInt32.toNat_shiftLeft, hcount, Nat.shiftLeft_eq, UInt8.toNat_toUInt32]
    exact Nat.mod_eq_of_lt hproduct
  -- Each byte stands above all that has been read before it, so no two of them share a bit.
  have hor (low high place : Nat) (hlow : low < 2 ^ place) :
      low ||| high * 2 ^ place = low + high * 2 ^ place := by
    rw [Nat.or_comm, Nat.add_comm, Nat.mul_comm, Nat.two_pow_add_eq_or_of_lt hlow]
  have hfirst := hor b0.toNat b1.toNat 8 h0
  have hsecond := hor (b0.toNat + b1.toNat * 2 ^ 8) b2.toNat 16 (by omega)
  have hthird := hor (b0.toNat + b1.toNat * 2 ^ 8 + b2.toNat * 2 ^ 16) b3.toNat 24 (by omega)
  rw [ofLittleBytes, UInt32.toNat_or, UInt32.toNat_or, UInt32.toNat_or, hshift b1 8 (by decide),
    hshift b2 16 (by decide), hshift b3 24 (by decide), UInt8.toNat_toUInt32]
  change ((b0.toNat ||| b1.toNat * 2 ^ 8) ||| b2.toNat * 2 ^ 16) ||| b3.toNat * 2 ^ 24 = _
  rw [hfirst, hsecond, hthird]
  simp only [Word.littleEndian]
  omega

theorem littleBytes_eq_lowBytes (short : UInt32) :
    littleBytes short = Word.lowBytes 4 short.toNat := by
  have hbyte (place : UInt32) :
      (short >>> place).toUInt8 = UInt8.ofNat (short.toNat / 2 ^ (place.toNat % 32)) := by
    apply UInt8.toNat_inj.mp
    rw [UInt32.toNat_toUInt8, UInt32.toNat_shiftRight, Nat.shiftRight_eq_div_pow,
      UInt8.toNat_ofNat']
  have hlowest : short.toUInt8 = UInt8.ofNat short.toNat := by
    apply UInt8.toNat_inj.mp
    rw [UInt32.toNat_toUInt8, UInt8.toNat_ofNat']
  simp only [littleBytes, hbyte, hlowest, Word.lowBytes, Nat.div_div_eq_div_mul]
  rfl

theorem littleEndian_littleBytes (short : UInt32) :
    Word.littleEndian (littleBytes short) = short.toNat := by
  have hlt : short.toNat < 256 ^ 4 := short.toNat_lt
  rw [littleBytes_eq_lowBytes, Word.littleEndian_lowBytes, Nat.mod_eq_of_lt hlt]

theorem littleBytes_injective {left right : UInt32} (heq : littleBytes left = littleBytes right) :
    left = right := by
  apply UInt32.toNat_inj.mp
  rw [← littleEndian_littleBytes, heq, littleEndian_littleBytes]

theorem littleBytes_ofLittleBytes (b0 b1 b2 b3 : UInt8) :
    littleBytes (ofLittleBytes b0 b1 b2 b3) = [b0, b1, b2, b3] := by
  have hfill : [b0, b1, b2, b3].length ≤ 4 := Nat.le_refl 4
  rw [littleBytes_eq_lowBytes, toNat_ofLittleBytes, Word.lowBytes_littleEndian hfill]
  exact List.append_nil _

-- A short word with its bytes in the opposite order.
def swapBytes (short : UInt32) : UInt32 :=
  ofLittleBytes (short >>> 24).toUInt8 (short >>> 16).toUInt8 (short >>> 8).toUInt8 short.toUInt8

theorem littleBytes_swapBytes (short : UInt32) : littleBytes (swapBytes short) = bigBytes short :=
  littleBytes_ofLittleBytes _ _ _ _

theorem swapBytes_ofLittleBytes (b0 b1 b2 b3 : UInt8) :
    swapBytes (ofLittleBytes b0 b1 b2 b3) = ofLittleBytes b3 b2 b1 b0 := by
  apply littleBytes_injective
  rw [littleBytes_swapBytes, bigBytes, littleBytes_ofLittleBytes, littleBytes_ofLittleBytes]
  rfl

-- The two byte orders read the same short words, up to the order of their bytes.
theorem bigWords_eq_map_swapBytes (bytes : List UInt8) :
    bigWords bytes = (littleWords bytes).map swapBytes := by
  induction bytes using littleWords.induct with
  | case1 b0 b1 b2 b3 rest ih =>
      rw [bigWords, littleWords, List.map_cons, swapBytes_ofLittleBytes, ih]
  | case2 rest hshort =>
      rw [littleWords.eq_2 rest hshort, bigWords.eq_2 rest hshort, List.map_nil]

theorem flatMap_bigBytes (shorts : List UInt32) :
    shorts.flatMap bigBytes = (shorts.map swapBytes).flatMap littleBytes := by
  have hbytes : bigBytes = fun short => littleBytes (swapBytes short) :=
    funext fun short => (littleBytes_swapBytes short).symm
  rw [List.flatMap_map, hbytes]

theorem littleWords_littleBytes_append (short : UInt32) (rest : List UInt8) :
    littleWords (littleBytes short ++ rest) = short :: littleWords rest := by
  have hshort : ofLittleBytes short.toUInt8 (short >>> 8).toUInt8 (short >>> 16).toUInt8
      (short >>> 24).toUInt8 = short :=
    littleBytes_injective (littleBytes_ofLittleBytes _ _ _ _)
  exact congrArg (· :: littleWords rest) hshort

-- Bytes that make up whole short words are the bytes of these words.
theorem flatMap_littleWords {bytes : List UInt8} (hwhole : 4 ∣ bytes.length) :
    (littleWords bytes).flatMap littleBytes = bytes := by
  induction bytes using littleWords.induct with
  | case1 b0 b1 b2 b3 rest ih =>
      have hrest : 4 ∣ rest.length := (Nat.dvd_add_left (Nat.dvd_refl 4)).mp hwhole
      rw [littleWords, List.flatMap_cons, littleBytes_ofLittleBytes, ih hrest]
      rfl
  | case2 rest hshort =>
      match rest, hshort with
      | [], _ => rfl
      | [_], _ | [_, _], _ | [_, _, _], _ => simp at hwhole
      | _ :: _ :: _ :: _ :: _, hshort => exact (hshort _ _ _ _ _ rfl).elim

end Digest

open Digest

namespace Word

def lowHalf (word : Word) : UInt32 := word.toUInt32

def highHalf (word : Word) : UInt32 := (word >>> 32).toUInt32

def ofHalves (low high : UInt32) : Word := UInt64.ofNat (low.toNat + 2 ^ 32 * high.toNat)

theorem toNat_ofHalves (low high : UInt32) :
    (ofHalves low high).toNat = low.toNat + 2 ^ 32 * high.toNat := by
  have hlow : low.toNat < 2 ^ 32 := low.toNat_lt
  have hhigh : high.toNat < 2 ^ 32 := high.toNat_lt
  exact toNat_ofNat (by unfold modulus; omega)

theorem ofHalves_halves (word : Word) : ofHalves word.lowHalf word.highHalf = word := by
  have hlow : word.lowHalf.toNat = word.toNat % 2 ^ 32 := UInt64.toNat_toUInt32 word
  have hhigh : word.highHalf.toNat = word.toNat / 2 ^ 32 % 2 ^ 32 := by
    rw [highHalf, UInt64.toNat_toUInt32, UInt64.toNat_shiftRight, Nat.shiftRight_eq_div_pow]
    rfl
  have hlt := word.toNat_lt_modulus
  unfold modulus at hlt
  apply UInt64.toNat_inj.mp
  rw [toNat_ofHalves, hlow, hhigh]
  omega

theorem ofBytes_littleBytes (low : UInt32) : ofBytes (littleBytes low) = ofHalves low 0 := by
  simp only [ofBytes, littleEndian_littleBytes, ofHalves, UInt32.toNat_zero, Nat.mul_zero,
    Nat.add_zero]

theorem ofBytes_littleBytes_append (low high : UInt32) :
    ofBytes (littleBytes low ++ littleBytes high) = ofHalves low high := by
  have hplace : 256 ^ (littleBytes low).length = 2 ^ 32 := by
    change 256 ^ 4 = 2 ^ 32
    decide
  rw [ofBytes, littleEndian_append, littleEndian_littleBytes, littleEndian_littleBytes, hplace,
    ofHalves]

theorem bytes_eq_halves (word : Word) :
    word.bytes = littleBytes word.lowHalf ++ littleBytes word.highHalf := by
  have hlength : (littleBytes word.lowHalf ++ littleBytes word.highHalf).length = 8 := rfl
  have hbytes := bytes_ofBytes (Nat.le_of_eq hlength)
  rw [ofBytes_littleBytes_append, ofHalves_halves, hlength] at hbytes
  rw [hbytes]
  exact List.append_nil _

-- Joins short words two by two, the low half first; a missing last half is zero.
def joinHalves : List UInt32 → List Word
  | low :: high :: rest => ofHalves low high :: joinHalves rest
  | [low] => [ofHalves low 0]
  | [] => []

theorem length_joinHalves (shorts : List UInt32) :
    (joinHalves shorts).length = (shorts.length + 1) / 2 := by
  induction shorts using joinHalves.induct with
  | case1 low high rest ih =>
      simp only [joinHalves, List.length_cons, ih]
      omega
  | case2 low => simp only [joinHalves, List.length_singleton, Nat.reduceAdd, Nat.reduceDiv]
  | case3 => rfl

theorem toNat_getD_joinHalves (shorts : List UInt32) (index : Nat) :
    ((joinHalves shorts).getD index 0).toNat =
      (shorts.getD (2 * index) 0).toNat + 2 ^ 32 * (shorts.getD (2 * index + 1) 0).toNat := by
  induction shorts using joinHalves.induct generalizing index with
  | case1 low high rest ih =>
      cases index with
      | zero => exact toNat_ofHalves low high
      | succ index => exact ih index
  | case2 low =>
      cases index with
      | zero => exact toNat_ofHalves low 0
      | succ index => rfl
  | case3 => rfl

theorem ofByteList_flatMap_littleBytes (shorts : List UInt32) :
    ofByteList (shorts.flatMap littleBytes) = joinHalves shorts := by
  induction shorts using joinHalves.induct with
  | case1 low high rest ih =>
      rw [joinHalves, ← ih, ← ofBytes_littleBytes_append]
      rfl
  | case2 low =>
      rw [joinHalves, ← ofBytes_littleBytes]
      rfl
  | case3 => rfl

-- Whole short words are joined two by two.
theorem ofByteList_eq_joinHalves {bytes : List UInt8} (hwhole : 4 ∣ bytes.length) :
    ofByteList bytes = joinHalves (littleWords bytes) := by
  rw [← ofByteList_flatMap_littleBytes, flatMap_littleWords hwhole]

theorem littleWords_listBytes (words : List Word) :
    littleWords (listBytes words) = words.flatMap fun word => [word.lowHalf, word.highHalf] := by
  induction words with
  | nil => rfl
  | cons word rest ih =>
      rw [listBytes_cons, bytes_eq_halves, List.append_assoc, littleWords_littleBytes_append,
        littleWords_littleBytes_append, ih, List.flatMap_cons]
      rfl

end Word

namespace HashAlgorithm

-- The number of short words in a digest.
def outputShorts : HashAlgorithm → Nat
  | .md5 => 4
  | .ripemd160 => 5
  | .sha256 => 8

-- A digest is made of whole short words.
theorem exists_shorts (algorithm : HashAlgorithm) (message : List UInt8) :
    ∃ shorts : List UInt32, shorts.length = algorithm.outputShorts ∧
      algorithm.digestBytes message = shorts.flatMap littleBytes := by
  cases algorithm with
  | md5 => exact ⟨_, rfl, rfl⟩
  | ripemd160 => exact ⟨_, rfl, rfl⟩
  | sha256 => exact ⟨_, rfl, flatMap_bigBytes _⟩

theorem exists_digest_eq_joinHalves (algorithm : HashAlgorithm) (words : List Word) :
    ∃ shorts : List UInt32, shorts.length = algorithm.outputShorts ∧
      algorithm.digest words = Word.joinHalves shorts := by
  obtain ⟨shorts, hlength, hbytes⟩ := algorithm.exists_shorts (Word.listBytes words)
  refine ⟨shorts, hlength, ?_⟩
  rw [digest, hbytes, Word.ofByteList_flatMap_littleBytes]

theorem length_digest (algorithm : HashAlgorithm) (words : List Word) :
    (algorithm.digest words).length = algorithm.outputWords := by
  obtain ⟨shorts, hlength, hdigest⟩ := algorithm.exists_digest_eq_joinHalves words
  rw [hdigest, Word.length_joinHalves, hlength]
  cases algorithm <;> rfl

-- Five short words leave the upper half of the third word empty.
theorem ripemd160_third_lt (words : List Word) :
    ((ripemd160.digest words).getD 2 0).toNat < 2 ^ 32 := by
  obtain ⟨shorts, hlength, hdigest⟩ := ripemd160.exists_digest_eq_joinHalves words
  have hmissing : shorts.getD 5 0 = 0 := by
    have hnone : shorts[5]? = none := List.getElem?_eq_none (Nat.le_of_eq hlength)
    rw [List.getD_eq_getElem?_getD, hnone, Option.getD_none]
  have hlow : (shorts.getD 4 0).toNat < 2 ^ 32 := (shorts.getD 4 0).toNat_lt
  rw [hdigest, Word.toNat_getD_joinHalves, hmissing]
  exact hlow

-- The halves of the words, in either byte order, are the short words that are hashed; the short
-- words of a digest are joined two by two again, which gives the words that each algorithm has.
theorem words_are_packed_by_halves (words : List Word) (bytes : List UInt8)
    (algorithm : HashAlgorithm) :
    littleWords (Word.listBytes words) =
        (words.flatMap fun word => [word.lowHalf, word.highHalf]) ∧
      bigWords (Word.listBytes words) =
        (words.flatMap fun word => [swapBytes word.lowHalf, swapBytes word.highHalf]) ∧
      Word.ofByteList (Word.listBytes words) = words ∧
      (4 ∣ bytes.length →
        (Word.ofByteList bytes).length = ((littleWords bytes).length + 1) / 2 ∧
        ∀ index, ((Word.ofByteList bytes).getD index 0).toNat =
          ((littleWords bytes).getD (2 * index) 0).toNat +
            2 ^ 32 * ((littleWords bytes).getD (2 * index + 1) 0).toNat) ∧
      (algorithm.digest words).length = algorithm.outputWords ∧
      ((ripemd160.digest words).getD 2 0).toNat < 2 ^ 32 := by
  refine ⟨Word.littleWords_listBytes words, ?_, Word.ofByteList_listBytes words, ?_,
    algorithm.length_digest words, ripemd160_third_lt words⟩
  · rw [bigWords_eq_map_swapBytes, Word.littleWords_listBytes, List.map_flatMap]
    rfl
  · intro hwhole
    rw [Word.ofByteList_eq_joinHalves hwhole]
    exact ⟨Word.length_joinHalves _, Word.toNat_getD_joinHalves _⟩

-- Three short words, of which the last has no partner.
def unpaired : List UInt8 := [1, 0, 0, 0, 2, 0, 0, 0, 0, 0, 0, 0x80]

theorem words_are_packed_by_halves_unpaired :
    4 ∣ unpaired.length ∧
      (Word.ofByteList unpaired).length = ((littleWords unpaired).length + 1) / 2 ∧
      ∀ index, ((Word.ofByteList unpaired).getD index 0).toNat =
        ((littleWords unpaired).getD (2 * index) 0).toNat +
          2 ^ 32 * ((littleWords unpaired).getD (2 * index + 1) 0).toNat := by
  have hwhole : 4 ∣ unpaired.length := by decide
  exact ⟨hwhole, (words_are_packed_by_halves [1, Word.top] unpaired sha256).2.2.2.1 hwhole⟩

end HashAlgorithm

end ContractSim
