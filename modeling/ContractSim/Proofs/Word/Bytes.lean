import ContractSim.Proofs.Word

namespace ContractSim.Word

-- The lowest bytes of a number, least significant first, as many as asked for.
def lowBytes : Nat → Nat → List UInt8
  | 0, _ => []
  | width + 1, value => UInt8.ofNat value :: lowBytes width (value / 256)

theorem littleEndian_lowBytes (width value : Nat) :
    littleEndian (lowBytes width value) = value % 256 ^ width := by
  induction width generalizing value with
  | zero => rw [lowBytes, littleEndian, Nat.pow_zero, Nat.mod_one]
  | succ width ih =>
      have hbyte : (UInt8.ofNat value).toNat = value % 256 := UInt8.toNat_ofNat'
      rw [lowBytes, littleEndian, ih, hbyte, Nat.pow_succ', Nat.mod_mul]

theorem lowBytes_zero (width : Nat) : lowBytes width 0 = List.replicate width 0 := by
  induction width with
  | zero => rfl
  | succ width ih =>
      rw [lowBytes, Nat.zero_div, ih, List.replicate_succ]
      rfl

-- Bytes past the given ones are zero.
theorem lowBytes_littleEndian {width : Nat} {bytes : List UInt8} (hwidth : bytes.length ≤ width) :
    lowBytes width (littleEndian bytes) = bytes ++ List.replicate (width - bytes.length) 0 := by
  induction bytes generalizing width with
  | nil => exact lowBytes_zero width
  | cons byte rest ih =>
      rw [List.length_cons] at hwidth
      obtain ⟨width, rfl⟩ : ∃ w, width = w + 1 := ⟨width - 1, by omega⟩
      have hlt : byte.toNat < 256 := byte.toNat_lt
      have hrest : (byte.toNat + 256 * littleEndian rest) / 256 = littleEndian rest := by omega
      have hbyte : UInt8.ofNat (byte.toNat + 256 * littleEndian rest) = byte := by
        apply UInt8.toNat_inj.mp
        rw [UInt8.toNat_ofNat']
        omega
      rw [littleEndian, lowBytes, hbyte, hrest, ih (by omega), List.cons_append,
        List.length_cons, Nat.add_sub_add_right]

theorem littleEndian_lt (bytes : List UInt8) : littleEndian bytes < 256 ^ bytes.length := by
  induction bytes with
  | nil => decide
  | cons byte rest ih =>
      have hlt : byte.toNat < 256 := byte.toNat_lt
      rw [littleEndian, List.length_cons, Nat.pow_succ']
      omega

theorem littleEndian_append (front back : List UInt8) :
    littleEndian (front ++ back) = littleEndian front + 256 ^ front.length * littleEndian back := by
  induction front with
  | nil =>
      rw [List.nil_append, littleEndian, List.length_nil, Nat.pow_zero, Nat.one_mul, Nat.zero_add]
  | cons byte rest ih =>
      rw [List.cons_append, littleEndian, littleEndian, ih, List.length_cons, Nat.pow_succ',
        Nat.mul_add, Nat.mul_assoc, Nat.add_assoc]

theorem bytes_eq_lowBytes (word : Word) : word.bytes = lowBytes 8 word.toNat := by
  have hbyte (place : Word) :
      (word >>> place).toUInt8 = UInt8.ofNat (word.toNat / 2 ^ (place.toNat % 64)) := by
    apply UInt8.toNat_inj.mp
    rw [UInt64.toNat_toUInt8, UInt64.toNat_shiftRight, Nat.shiftRight_eq_div_pow,
      UInt8.toNat_ofNat']
  have hlowest : word.toUInt8 = UInt8.ofNat word.toNat := by
    apply UInt8.toNat_inj.mp
    rw [UInt64.toNat_toUInt8, UInt8.toNat_ofNat']
  simp only [bytes, hbyte, hlowest, lowBytes, Nat.div_div_eq_div_mul]
  rfl

theorem littleEndian_bytes (word : Word) : littleEndian word.bytes = word.toNat := by
  have hlt : word.toNat < 256 ^ 8 := word.toNat_lt_modulus
  rw [bytes_eq_lowBytes, littleEndian_lowBytes, Nat.mod_eq_of_lt hlt]

@[simp]
theorem ofBytes_bytes (word : Word) : ofBytes word.bytes = word := by
  rw [ofBytes, littleEndian_bytes, UInt64.ofNat_toNat]

theorem toNat_ofBytes {bytes : List UInt8} (hlength : bytes.length ≤ 8) :
    (ofBytes bytes).toNat = littleEndian bytes := by
  have hlt : littleEndian bytes < 256 ^ 8 :=
    Nat.lt_of_lt_of_le (littleEndian_lt bytes) (Nat.pow_le_pow_right (by decide) hlength)
  exact toNat_ofNat hlt

-- Zero bytes fill up a word.
theorem bytes_ofBytes {bytes : List UInt8} (hlength : bytes.length ≤ 8) :
    (ofBytes bytes).bytes = bytes ++ List.replicate (8 - bytes.length) 0 := by
  rw [bytes_eq_lowBytes, toNat_ofBytes hlength, lowBytes_littleEndian hlength]

@[simp]
theorem listBytes_cons (word : Word) (words : List Word) :
    listBytes (word :: words) = word.bytes ++ listBytes words :=
  List.flatMap_cons

theorem listBytes_append (front back : List Word) :
    listBytes (front ++ back) = listBytes front ++ listBytes back :=
  List.flatMap_append

-- Zero words have zero bytes only.
theorem listBytes_replicate_zero (count : Nat) :
    listBytes (List.replicate count 0) = List.replicate (8 * count) 0 := by
  induction count with
  | zero => rfl
  | succ count ih =>
      have hzero : (0 : Word).bytes = List.replicate 8 0 := by decide
      rw [List.replicate_succ, listBytes_cons, ih, hzero, List.replicate_append_replicate]
      congr 1
      omega

theorem ofByteList_bytes_append (word : Word) (rest : List UInt8) :
    ofByteList (word.bytes ++ rest) = word :: ofByteList rest :=
  congrArg (· :: ofByteList rest) (ofBytes_bytes word)

@[simp]
theorem ofByteList_listBytes (words : List Word) : ofByteList (listBytes words) = words := by
  induction words with
  | nil => rfl
  | cons word rest ih => rw [listBytes_cons, ofByteList_bytes_append, ih]

-- Bytes that do not begin with a whole word are less than eight.
theorem length_lt_of_short {bytes : List UInt8}
    (hshort : ∀ b0 b1 b2 b3 b4 b5 b6 b7 rest,
      bytes = b0 :: b1 :: b2 :: b3 :: b4 :: b5 :: b6 :: b7 :: rest → False) :
    bytes.length < 8 :=
  match bytes, hshort with
  | [], _ | [_], _ | [_, _], _ | [_, _, _], _ | [_, _, _, _], _ | [_, _, _, _, _], _
  | [_, _, _, _, _, _], _ | [_, _, _, _, _, _, _], _ => by simp
  | _ :: _ :: _ :: _ :: _ :: _ :: _ :: _ :: _, hshort => (hshort _ _ _ _ _ _ _ _ _ rfl).elim

theorem listBytes_ofByteList (bytes : List UInt8) :
    listBytes (ofByteList bytes) =
      bytes ++ List.replicate ((8 - bytes.length % 8) % 8) 0 := by
  induction bytes using ofByteList.induct with
  | case1 b0 b1 b2 b3 b4 b5 b6 b7 rest ih =>
      have hlength : (8 - (rest.length + 8) % 8) % 8 = (8 - rest.length % 8) % 8 := by omega
      rw [ofByteList, listBytes_cons, ih, bytes_ofBytes (by simp)]
      simp [hlength]
  | case2 => rfl
  | case3 rest hlong hsome =>
      have hlt := length_lt_of_short hlong
      have hpos : 0 < rest.length := List.length_pos_iff.mpr hsome
      have hfill : (8 - rest.length % 8) % 8 = 8 - rest.length := by omega
      rw [ofByteList.eq_3 rest hlong hsome, listBytes_cons, bytes_ofBytes (by omega), hfill]
      exact List.append_nil _

-- Of bytes that fill up their last word none is dropped.
theorem ofChunks_eq_ofByteList {bytes : List UInt8} (hwhole : bytes.length % 8 = 0) :
    ofChunks bytes = ofByteList bytes := by
  induction bytes using ofByteList.induct with
  | case1 b0 b1 b2 b3 b4 b5 b6 b7 rest ih =>
      have hrest : rest.length % 8 = 0 := by
        simp only [List.length_cons] at hwhole
        omega
      rw [ofChunks, ofByteList, ih hrest]
  | case2 => rfl
  | case3 rest hlong hsome =>
      have hlt := length_lt_of_short hlong
      have hpos : 0 < rest.length := List.length_pos_iff.mpr hsome
      omega

-- Zero bytes that fill up the last word change nothing.
theorem ofByteList_fill (bytes : List UInt8) :
    ofByteList (bytes ++ List.replicate ((8 - bytes.length % 8) % 8) 0) = ofByteList bytes := by
  rw [← listBytes_ofByteList, ofByteList_listBytes]

end ContractSim.Word
