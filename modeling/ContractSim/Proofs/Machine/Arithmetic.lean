import ContractSim.Proofs.Contract.Memory
import ContractSim.Proofs.Machine.Effect
import ContractSim.Proofs.Word.Signed

namespace ContractSim

-- Quotient and remainder of integers, rounded toward zero.
structure Truncated (dividend divisor quotient remainder : Int) : Prop where
  exact : dividend = quotient * divisor + remainder
  small : remainder.natAbs < divisor.natAbs
  toward : (quotient * divisor).natAbs ≤ dividend.natAbs

-- The numbers that a given width holds in two's complement.
def InRange (bits : Nat) (value : Int) : Prop := -2 ^ (bits - 1) ≤ value ∧ value < 2 ^ (bits - 1)

theorem truncated_tdiv_tmod (dividend : Int) {divisor : Int} (hdivisor : divisor ≠ 0) :
    Truncated dividend divisor (dividend.tdiv divisor) (dividend.tmod divisor) := by
  have hpositive : 0 < divisor.natAbs := Int.natAbs_pos.mpr hdivisor
  refine ⟨(Int.tdiv_mul_add_tmod dividend divisor).symm, ?_, ?_⟩
  · rw [Int.natAbs_tmod]
    exact Nat.mod_lt _ hpositive
  · rw [Int.natAbs_mul, Int.natAbs_tdiv]
    exact Nat.div_mul_le_self _ _

namespace Word

variable {left right : Word} {quotient remainder : Int}

-- What is left of a division by a word is less than the word, so it is read back from a word.
theorem signed_ofInt_remainder
    (htruncated : Truncated left.signed right.signed quotient remainder) :
    (ofInt remainder).signed = remainder := by
  have hsmall := htruncated.small
  have hright := right.signed_bounds
  exact signed_ofInt (by omega) (by omega)

-- The words of quotient and remainder put the dividend together again, also when the quotient
-- does not fit.
theorem toNat_mul_add_of_truncated
    (htruncated : Truncated left.signed right.signed quotient remainder) :
    ((ofInt quotient).toNat * right.toNat + (ofInt remainder).toNat) % 2 ^ 64 = left.toNat := by
  have hwhole : (((ofInt quotient).toNat * right.toNat + (ofInt remainder).toNat : Nat) : Int) %
      2 ^ 64 = left.toNat := by
    calc (((ofInt quotient).toNat * right.toNat + (ofInt remainder).toNat : Nat) : Int) % 2 ^ 64
        = (quotient % 2 ^ 64 * (right.signed % 2 ^ 64) + remainder % 2 ^ 64) % 2 ^ 64 := by
          rw [signed_emod, ← toNat_ofInt quotient, ← toNat_ofInt remainder]
          rfl
      _ = (quotient * right.signed + remainder) % 2 ^ 64 := by
          rw [Int.add_emod, Int.emod_emod, ← Int.mul_emod, ← Int.add_emod]
      _ = left.toNat := by rw [← htruncated.exact, signed_emod]
  omega

-- The largest product is that of the two most negative numbers.
theorem natAbs_product_le (left right : Word) : (left.signed * right.signed).natAbs ≤ 2 ^ 126 := by
  have hleft := left.signed_bounds
  have hright := right.signed_bounds
  rw [Int.natAbs_mul]
  calc left.signed.natAbs * right.signed.natAbs ≤ 2 ^ 63 * 2 ^ 63 :=
        Nat.mul_le_mul (by omega) (by omega)
    _ = 2 ^ 126 := by decide

end Word

theorem inRange_of_natAbs_le {value : Int} (hvalue : value.natAbs ≤ 2 ^ 126) :
    InRange 128 value := by
  unfold InRange
  omega

-- Dividing by an integer makes no number larger than it is.
theorem Truncated.natAbs_le {dividend divisor quotient remainder : Int}
    (htruncated : Truncated dividend divisor quotient remainder) :
    quotient.natAbs ≤ dividend.natAbs := by
  have hsmall := htruncated.small
  have htoward := htruncated.toward
  rw [Int.natAbs_mul] at htoward
  exact Nat.le_trans (Nat.le_mul_of_pos_right _ (by omega)) htoward

namespace Memory

-- Memory in which a name has a value and every other cell is as before. A name without a cell
-- has been given the next one.
structure Assigned (name : String) (value : Word) (before after : Memory) : Prop where
  limit : after.limit = before.limit
  names : after.cells.map Cell.name =
    before.cells.map Cell.name ++ if (before.address? name).isSome then [] else [some name]
  index : after.index = before.index ++
    if (before.address? name).isSome then [] else [(name, before.cells.length)]
  value : after.read name = value
  cells : ∀ index, after.address? name ≠ some index → after.cells[index]? = before.cells[index]?

-- Where a name is declared, only a cell is added behind the others.
theorem getElem?_declare_of_ne (memory : Memory) (name : String) {place : Nat}
    (hplace : place ≠ (memory.declare name).1) :
    (memory.declare name).2.cells[place]? = memory.cells[place]? := by
  cases haddress : memory.address? name with
  | some address => simp only [declare, haddress]
  | none =>
      simp only [declare, haddress] at hplace ⊢
      by_cases hlt : place < memory.cells.length
      · exact List.getElem?_append_left hlt
      · rw [List.getElem?_eq_none (by simp; omega), List.getElem?_eq_none (by omega)]

theorem assigned_write (memory : Memory) (name : String) (value : Word) :
    Assigned name value memory (memory.write name value) := by
  have haddress : (memory.write name value).address? name = some (memory.declare name).1 :=
    (memory.address?_declare name).1
  constructor
  · cases hold : memory.address? name with
    | some address => simp only [write, declare, hold, store]
    | none => simp only [write, declare, hold, store]
  · rw [write, map_name_store]
    cases hold : memory.address? name with
    | some address => simp [declare, hold]
    | none => simp [declare, hold]
  · cases hold : memory.address? name with
    | some address => simp [write, declare, hold, store]
    | none => simp [write, declare, hold, store]
  · exact memory.read_write name value
  · intro place hplace
    rw [haddress] at hplace
    have hne : place ≠ (memory.declare name).1 := fun heq => hplace (congrArg some heq.symm)
    rw [write, getElem?_store_of_ne hne, memory.getElem?_declare_of_ne name hne]

end Memory

namespace Machine

variable (protocol : Protocol) (line : Nat) (machine : Machine)

-- The value of a cell of memory.
def cell (name : String) : Word := machine.contract.memory.read name

-- The instruction goes on with a value in one cell and everything else as it was.
def Assigns (instruction : Instruction) (target : String) (value : Word) : Prop :=
  ∃ memory, (execute protocol line instruction).run machine =
      (.ok .next, { machine with contract := { machine.contract with memory } }) ∧
    Memory.Assigned target value machine.contract.memory memory

-- The instruction divides by zero and leaves everything as it was.
def DividesByZero (instruction : Instruction) : Prop :=
  (execute protocol line instruction).run machine = (.error .divisionByZero, machine)

-- What the instructions with two operands do to their target. The operands may be one cell.
structure ExactArithmetic (target source : String) : Prop where
  add : ∃ value : Word, Assigns protocol line machine (.arith .add target source) target value ∧
    value.toNat = ((machine.cell target).toNat + (machine.cell source).toNat) % 2 ^ 64
  sub : ∃ value : Word, Assigns protocol line machine (.arith .sub target source) target value ∧
    (value.toNat : Int) = ((machine.cell target).toNat - (machine.cell source).toNat) % 2 ^ 64
  mul : ∃ value : Word, Assigns protocol line machine (.arith .mul target source) target value ∧
    value.toNat = (machine.cell target).toNat * (machine.cell source).toNat % 2 ^ 64
  byZero : machine.cell source = 0 →
    DividesByZero protocol line machine (.arith .div target source) ∧
    DividesByZero protocol line machine (.arith .mod target source)
  -- The signed quotient and remainder, and how their words go with the words of the operands.
  divide : machine.cell source ≠ 0 → ∃ (quotient remainder : Word) (whole rest : Int),
    Assigns protocol line machine (.arith .div target source) target quotient ∧
    Assigns protocol line machine (.arith .mod target source) target remainder ∧
    Truncated (machine.cell target).signed (machine.cell source).signed whole rest ∧
    (quotient.toNat : Int) = whole % 2 ^ 64 ∧ (remainder.toNat : Int) = rest % 2 ^ 64 ∧
    (quotient.toNat * (machine.cell source).toNat + remainder.toNat) % 2 ^ 64 =
      (machine.cell target).toNat ∧
    remainder.signed.natAbs < (machine.cell source).signed.natAbs
  shl : ∃ value : Word, Assigns protocol line machine (.arith .shl target source) target value ∧
    value.toNat = (machine.cell target).toNat * 2 ^ (machine.cell source).toNat % 2 ^ 64
  shr : ∃ value : Word, Assigns protocol line machine (.arith .shr target source) target value ∧
    value.toNat = (machine.cell target).toNat / 2 ^ (machine.cell source).toNat

-- A signed product divided by a third cell. Product and quotient are numbers of 128 bits.
structure ExactMulDiv (target multiplier divisor : String) : Prop where
  byZero : machine.cell divisor = 0 →
    DividesByZero protocol line machine (.mulDiv target multiplier divisor)
  divide : machine.cell divisor ≠ 0 → ∃ (value : Word) (whole rest : Int),
    Assigns protocol line machine (.mulDiv target multiplier divisor) target value ∧
    Truncated ((machine.cell target).signed * (machine.cell multiplier).signed)
      (machine.cell divisor).signed whole rest ∧
    (value.toNat : Int) = whole % 2 ^ 64 ∧
    InRange 128 ((machine.cell target).signed * (machine.cell multiplier).signed) ∧
    InRange 128 whole

variable {protocol line machine} {op : ArithOp} {target source multiplier divisor : String}
  {value : Word}

theorem assigns_arith (heval : op.eval (machine.cell target) (machine.cell source) = .ok value) :
    Assigns protocol line machine (.arith op target source) target value := by
  refine ⟨_, ?_, Memory.assigned_write _ target value⟩
  unfold cell at heval
  simp only [execute, Action.run_bind, run_readCell, run_orFault, heval, run_storeNext]

theorem dividesByZero_arith
    (heval : op.eval (machine.cell target) (machine.cell source) = .error .divisionByZero) :
    DividesByZero protocol line machine (.arith op target source) := by
  unfold cell at heval
  simp only [DividesByZero, execute, Action.run_bind, run_readCell, run_orFault, heval]

theorem exactArithmetic (protocol : Protocol) (line : Nat) (machine : Machine)
    (target source : String) : ExactArithmetic protocol line machine target source := by
  constructor
  · exact ⟨_, assigns_arith rfl, UInt64.toNat_add _ _⟩
  · refine ⟨_, assigns_arith rfl, ?_⟩
    have hleft : (machine.cell target).toNat < 2 ^ 64 := Word.toNat_lt_modulus _
    have hright : (machine.cell source).toNat < 2 ^ 64 := Word.toNat_lt_modulus _
    rw [UInt64.toNat_sub]
    omega
  · exact ⟨_, assigns_arith rfl, UInt64.toNat_mul _ _⟩
  · intro hzero
    exact ⟨dividesByZero_arith (if_pos hzero), dividesByZero_arith (if_pos hzero)⟩
  · intro hsource
    have htruncated := truncated_tdiv_tmod (machine.cell target).signed
      (fun hzero => hsource (Word.signed_eq_zero_iff.mp hzero))
    refine ⟨_, _, _, _, assigns_arith (if_neg hsource), assigns_arith (if_neg hsource), htruncated,
      Word.toNat_ofInt _, Word.toNat_ofInt _, Word.toNat_mul_add_of_truncated htruncated, ?_⟩
    rw [Word.signed_ofInt_remainder htruncated]
    exact htruncated.small
  · exact ⟨_, assigns_arith rfl, Word.toNat_shiftLeft _ _⟩
  · exact ⟨_, assigns_arith rfl, Word.toNat_shiftRight _ _⟩

theorem exactMulDiv (protocol : Protocol) (line : Nat) (machine : Machine)
    (target multiplier divisor : String) :
    ExactMulDiv protocol line machine target multiplier divisor := by
  constructor
  · intro hzero
    unfold cell at hzero
    simp only [DividesByZero, execute, Action.run_bind, run_readCell, run_orFault,
      ContractSim.mulDiv, hzero, ite_true]
  · intro hdivisor
    have htruncated := truncated_tdiv_tmod
      ((machine.cell target).signed * (machine.cell multiplier).signed)
      (fun hzero => hdivisor (Word.signed_eq_zero_iff.mp hzero))
    have hproduct := Word.natAbs_product_le (machine.cell target) (machine.cell multiplier)
    refine ⟨_, _, _, ⟨_, ?_, Memory.assigned_write _ target _⟩, htruncated, Word.toNat_ofInt _,
      inRange_of_natAbs_le hproduct,
      inRange_of_natAbs_le (Nat.le_trans htruncated.natAbs_le hproduct)⟩
    unfold cell at hdivisor
    simp only [execute, Action.run_bind, run_readCell, run_orFault, ContractSim.mulDiv,
      hdivisor, ite_false, run_storeNext]
    rfl

-- Arithmetic on cells gives the mathematical result modulo 2^64, in the target and nowhere else;
-- only division by zero fails, and it changes nothing.
theorem arithmetic_is_exact (protocol : Protocol) (line : Nat) (machine : Machine)
    (target source multiplier divisor : String) :
    ExactArithmetic protocol line machine target source ∧
      ExactMulDiv protocol line machine target multiplier divisor :=
  ⟨exactArithmetic protocol line machine target source,
    exactMulDiv protocol line machine target multiplier divisor⟩

-- The one quotient that is no number of 64 bits.
example :
    ArithOp.div.eval (Word.ofInt (-2 ^ 63)) (Word.ofInt (-1)) = .ok (Word.ofInt (-2 ^ 63)) ∧
      ArithOp.mod.eval (Word.ofInt (-2 ^ 63)) (Word.ofInt (-1)) = .ok 0 := by
  decide

end Machine

end ContractSim
