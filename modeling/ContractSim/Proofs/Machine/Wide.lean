import ContractSim.Proofs.Assembly.Grammar
import ContractSim.Proofs.Machine.Effect
import Mathlib.Algebra.Group.Int.Defs

namespace ContractSim

namespace Register

theorem value_lt_modulus (register : Register) : register.value < modulus := by
  have h1 := register.w1.toNat_lt_modulus
  have h2 := register.w2.toNat_lt_modulus
  have h3 := register.w3.toNat_lt_modulus
  have h4 := register.w4.toNat_lt_modulus
  unfold value modulus
  unfold Word.modulus at *
  omega

-- The words are the digits of the number in base 2^64.
theorem value_eq (register : Register) :
    register.value = register.w1.toNat + register.w2.toNat * 2 ^ 64 +
      register.w3.toNat * 2 ^ 128 + register.w4.toNat * 2 ^ 192 := by
  unfold value Word.modulus
  omega

-- Four digits keep the remainder modulo 2^256, one digit after another.
theorem value_ofNat (number : Nat) : (ofNat number).value = number % modulus := by
  have hdigit : ∀ digit, (UInt64.ofNat digit).toNat = digit % Word.modulus :=
    fun digit => UInt64.toNat_ofNat
  have hbase : modulus =
      Word.modulus * (Word.modulus * (Word.modulus * Word.modulus)) := by decide
  rw [hbase, Nat.mod_mul, Nat.mod_mul, Nat.mod_mul]
  simp only [value, ofNat, hdigit]

theorem value_ofNat_of_lt {number : Nat} (hnumber : number < modulus) :
    (ofNat number).value = number := by
  rw [value_ofNat, Nat.mod_eq_of_lt hnumber]

theorem ofNat_value (register : Register) : ofNat register.value = register := by
  have hlow : ∀ (word : Word) (rest : Nat),
      UInt64.ofNat (word.toNat + Word.modulus * rest) = word := by
    intro word rest
    have hlt := word.toNat_lt_modulus
    rw [← UInt64.toNat_inj, UInt64.toNat_ofNat']
    unfold Word.modulus at *
    omega
  have hhigh : ∀ (word : Word) (rest : Nat),
      (word.toNat + Word.modulus * rest) / Word.modulus = rest := by
    intro word rest
    have hlt := word.toNat_lt_modulus
    unfold Word.modulus at *
    omega
  simp only [ofNat, value, hlow, hhigh, UInt64.ofNat_toNat]

theorem value_sub (left right : Register) :
    ((left.sub right).value : Int) = ((left.value : Int) - right.value) % modulus := by
  have hright := right.value_lt_modulus
  rw [sub, value_ofNat, Int.natCast_emod, Int.natCast_add, Int.natCast_sub (by omega)]
  have hturn : (left.value : Int) + (modulus - right.value) =
      left.value - right.value + modulus := by omega
  rw [hturn, Int.add_emod_right]

-- A quotient is not larger than its dividend.
theorem value_div (left right : Register) : (left.div right).value = left.value / right.value :=
  value_ofNat_of_lt (Nat.lt_of_le_of_lt (Nat.div_le_self _ _) left.value_lt_modulus)

-- The complement fills the register up to the largest number.
theorem value_complement (register : Register) :
    register.complement.value = modulus - 1 - register.value := by
  have hword : ∀ word : Word, (~~~word).toNat = Word.modulus - 1 - word.toNat := by
    intro word
    rw [UInt64.toNat_not]
    rfl
  have h1 := register.w1.toNat_lt_modulus
  have h2 := register.w2.toNat_lt_modulus
  have h3 := register.w3.toNat_lt_modulus
  have h4 := register.w4.toNat_lt_modulus
  simp only [complement, Quad.map, value, hword]
  unfold modulus
  unfold Word.modulus at *
  omega

-- One more than the complement is the number that is missing to 2^256.
theorem value_ofSigned {number : Nat} (hnumber : number < modulus) :
    (ofSigned true number).value = (modulus - number) % modulus := by
  have hone : (ofWord 1).value = 1 := by decide
  have hmissing : modulus - 1 - number + 1 = modulus - number := by omega
  rw [ofSigned, if_pos rfl, add, value_ofNat, value_complement, value_ofNat_of_lt hnumber, hone,
    hmissing]

end Register

namespace Machine

variable (protocol : Protocol) (machine : Machine)

-- A number has come into one register, and everything else is as before.
structure Receives (target : RegisterName) (number : Int) (before after : Machine) : Prop where
  value : ((after.contract.register target).value : Int) = number
  other : after.contract.register target.other = before.contract.register target.other
  memory : after.contract.memory = before.contract.memory
  contract : after.contract =
    { before.contract with a := after.contract.a, b := after.contract.b }
  ledger : after.ledger = before.ledger

-- The built-in function of a name leaves a number in one register and everything else as it was,
-- whatever its arguments.
def Sets (name : String) (target : RegisterName) (number : Int) : Prop :=
  ∃ function after, ApiFunction.ofName? name = some function ∧
    (∀ first second, (call protocol function first second).run machine = (.ok .done, after)) ∧
    Receives target number machine after

-- The built-in function of a name leaves everything as it was.
def Rests (name : String) : Prop :=
  ∃ function, ApiFunction.ofName? name = some function ∧
    ∀ first second, (call protocol function first second).run machine = (.ok .done, machine)

-- What the functions of wide arithmetic do with the numbers a and b in the registers.
structure WideArithmetic (a b : Nat) : Prop where
  addTo : Sets protocol machine "add_A_to_B" .b ((a + b : Nat) % 2 ^ 256) ∧
    Sets protocol machine "add_B_to_A" .a ((a + b : Nat) % 2 ^ 256)
  subFrom : Sets protocol machine "sub_A_from_B" .b (((b : Int) - a) % 2 ^ 256) ∧
    Sets protocol machine "sub_B_from_A" .a (((a : Int) - b) % 2 ^ 256)
  mulBy : Sets protocol machine "mul_A_by_B" .b ((a * b : Nat) % 2 ^ 256) ∧
    Sets protocol machine "mul_B_by_A" .a ((a * b : Nat) % 2 ^ 256)
  divBy : (b ≠ 0 → Sets protocol machine "div_A_by_B" .b (a / b : Nat)) ∧
    (a ≠ 0 → Sets protocol machine "div_B_by_A" .a (b / a : Nat))
  divByZero : (b = 0 → Rests protocol machine "div_A_by_B") ∧
    (a = 0 → Rests protocol machine "div_B_by_A")

variable {protocol machine} {op : WideOp} {target : RegisterName} {number : Int}

theorem run_wide (op : WideOp) (target : RegisterName) (first second : Word) :
    (call protocol (.wide op target) first second).run machine =
      (.ok .done, { machine with
        contract := machine.contract.setRegister
          (op.eval (machine.contract.register target) (machine.contract.register target.other))
          target }) := rfl

theorem sets_wide (hvalue : ((op.eval (machine.contract.register target)
      (machine.contract.register target.other)).value : Int) = number) :
    Sets protocol machine (ApiFunction.wide op target).name target number := by
  refine ⟨.wide op target, _, ApiFunction.ofName?_eq_some_iff.mpr rfl, run_wide op target, ?_⟩
  cases target with
  | a => exact ⟨hvalue, rfl, rfl, rfl, rfl⟩
  | b => exact ⟨hvalue, rfl, rfl, rfl, rfl⟩

-- With a zero divisor the target is set to what it holds.
theorem rests_wide (hzero : (machine.contract.register target).value = 0) :
    Rests protocol machine (ApiFunction.wide .div target).name := by
  refine ⟨.wide .div target, ApiFunction.ofName?_eq_some_iff.mpr rfl, ?_⟩
  intro first second
  rw [run_wide, WideOp.eval, if_pos hzero]
  cases target with
  | a => rfl
  | b => rfl

theorem sets_add (target : RegisterName) :
    Sets protocol machine (ApiFunction.wide .add target).name target
      (((machine.contract.register target).value +
        (machine.contract.register target.other).value : Nat) % 2 ^ 256) :=
  sets_wide (congrArg Int.ofNat (Register.value_ofNat _))

theorem sets_sub (target : RegisterName) :
    Sets protocol machine (ApiFunction.wide .sub target).name target
      (((machine.contract.register target).value -
        (machine.contract.register target.other).value : Int) % 2 ^ 256) :=
  sets_wide (Register.value_sub _ _)

theorem sets_mul (target : RegisterName) :
    Sets protocol machine (ApiFunction.wide .mul target).name target
      (((machine.contract.register target).value *
        (machine.contract.register target.other).value : Nat) % 2 ^ 256) :=
  sets_wide (congrArg Int.ofNat (Register.value_ofNat _))

theorem sets_div (hdivisor : (machine.contract.register target).value ≠ 0) :
    Sets protocol machine (ApiFunction.wide .div target).name target
      ((machine.contract.register target.other).value /
        (machine.contract.register target).value : Nat) := by
  apply sets_wide
  rw [WideOp.eval, if_neg hdivisor, Register.value_div]

theorem wideArithmetic (protocol : Protocol) (machine : Machine) :
    WideArithmetic protocol machine (machine.contract.register .a).value
      (machine.contract.register .b).value := by
  constructor
  · refine ⟨?_, sets_add .a⟩
    rw [Nat.add_comm]
    exact sets_add .b
  · exact ⟨sets_sub .b, sets_sub .a⟩
  · refine ⟨?_, sets_mul .a⟩
    rw [Nat.mul_comm]
    exact sets_mul .b
  · exact ⟨@sets_div _ _ .b, @sets_div _ _ .a⟩
  · exact ⟨@rests_wide _ _ .b, @rests_wide _ _ .a⟩

-- Wide arithmetic is arithmetic modulo 2^256 on the number whose digits in base 2^64 the register
-- holds, and registers and numbers below 2^256 stand for each other.
theorem wide_arithmetic_is_modular (protocol : Protocol) (machine : Machine) :
    WideArithmetic protocol machine machine.contract.a.value machine.contract.b.value ∧
    (∀ register : Register, Register.ofNat register.value = register ∧
      register.value = register.w1.toNat + register.w2.toNat * 2 ^ 64 +
        register.w3.toNat * 2 ^ 128 + register.w4.toNat * 2 ^ 192) ∧
    (∀ number : Fin (2 ^ 256), (Register.ofNat number).value = number ∧
      (Register.ofSigned true number).value = (2 ^ 256 - number) % 2 ^ 256) := by
  refine ⟨wideArithmetic protocol machine,
    fun register => ⟨register.ofNat_value, register.value_eq⟩, ?_⟩
  intro number
  exact ⟨Register.value_ofNat_of_lt number.isLt, Register.value_ofSigned number.isLt⟩

end Machine

end ContractSim
