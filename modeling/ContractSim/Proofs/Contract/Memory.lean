import ContractSim.Contract.Memory
import ContractSim.Proofs.Word
import Mathlib.Data.List.Basic

namespace ContractSim

-- A numbered list leads from an entry to its first place.
theorem lookup_zipIdx (names : List String) (start : Nat) (name : String) :
    (names.zipIdx start).lookup name = (names.idxOf? name).map (start + ·) := by
  induction names generalizing start with
  | nil => rfl
  | cons first rest ih =>
      rw [List.zipIdx_cons, List.lookup_cons, List.idxOf?_cons]
      by_cases hname : name = first
      · subst hname
        simp
      · rw [beq_eq_false_iff_ne.mpr hname, beq_eq_false_iff_ne.mpr (Ne.symm hname), ih]
        simp only [Bool.false_eq_true, ite_false, Option.map_map]
        congr 1
        funext offset
        simp only [Function.comp_apply]
        omega

namespace Memory

variable {memory after : Memory} {names : List String} {name : String} {address value : Word}

-- Cells with the given names come first, in order, and the index leads to them. All cells behind
-- them have no name.
structure LaidOut (names : List String) (memory : Memory) : Prop where
  cells : memory.cells.map Cell.name =
    names.map some ++ List.replicate (memory.cells.length - names.length) none
  index : memory.index = names.zipIdx

theorem LaidOut.length_le (hlaid : LaidOut names memory) :
    names.length ≤ memory.cells.length := by
  have hlength := congrArg List.length hlaid.cells
  simp only [List.length_map, List.length_append, List.length_replicate] at hlength
  omega

-- The address of a name is its place among the names.
theorem LaidOut.address?_eq (hlaid : LaidOut names memory) (name : String) :
    memory.address? name = names.idxOf? name := by
  rw [address?, hlaid.index, lookup_zipIdx]
  simp only [Nat.zero_add, Option.map_id']

-- It is the address of a cell that has the name.
theorem LaidOut.exists_address (hlaid : LaidOut names memory) (hname : name ∈ names) :
    ∃ address, memory.address? name = some address ∧ address < names.length ∧
      memory.cells[address]?.map Cell.name = some (some name) := by
  rw [hlaid.address?_eq]
  cases hindex : names.idxOf? name with
  | none => exact absurd hname (List.idxOf?_eq_none_iff.mp hindex)
  | some address =>
      obtain ⟨hlt, hfound, -⟩ := List.idxOf?_eq_some_iff.mp hindex
      refine ⟨address, rfl, hlt, ?_⟩
      rw [← List.getElem?_map, hlaid.cells, List.getElem?_append_left (by simpa using hlt),
        List.getElem?_map, List.getElem?_eq_getElem hlt, hfound]
      rfl

theorem lt_of_address? {address : Nat} (haddress : memory.address? name = some address) :
    address < memory.cells.length := by
  obtain ⟨front, back, hindex, -⟩ := List.lookup_eq_some_iff.mp haddress
  refine memory.bounded (name, address) ?_
  rw [hindex]
  exact List.mem_append_right front List.mem_cons_self

theorem length_store (memory : Memory) (address : Nat) (value : Word) :
    (memory.store address value).cells.length = memory.cells.length :=
  List.length_modify _ _ _

theorem map_name_store (memory : Memory) (address : Nat) (value : Word) :
    (memory.store address value).cells.map Cell.name = memory.cells.map Cell.name := by
  apply List.ext_getElem?
  intro place
  rw [List.getElem?_map, store, List.getElem?_modify, List.getElem?_map]
  cases memory.cells[place]? with
  | none => rfl
  | some cell =>
      simp only [Option.map_eq_map, Option.map_some]
      split_ifs
      · rfl
      · rfl

theorem getElem?_store_of_ne {address other : Nat} (hne : other ≠ address) (value : Word) :
    (memory.store address value).cells[other]? = memory.cells[other]? := by
  rw [store, List.getElem?_modify]
  simp only [Ne.symm hne, ite_false, Option.map_eq_map, Option.map_id']

theorem valueAt_store {address : Nat} (haddress : address < memory.cells.length) (value : Word) :
    (memory.store address value).valueAt address = value := by
  rw [valueAt, store, List.getElem?_modify, List.getElem?_eq_getElem haddress]
  simp only [ite_true, Option.map_eq_map, Option.map_some, Option.getD_some]

-- Cells without a name hold what absent cells count as.
theorem valueAt_extend (memory : Memory) (length address : Nat) :
    (memory.extend length).valueAt address = memory.valueAt address := by
  rw [valueAt, valueAt, extend, List.getElem?_append]
  split_ifs with hplace
  · rfl
  · rw [List.getElem?_eq_none (Nat.le_of_not_lt hplace), List.getElem?_replicate]
    split_ifs
    · rfl
    · rfl

-- A name that has an address is written there, and nothing else changes.
theorem write_eq_store {address : Nat} (haddress : memory.address? name = some address)
    (value : Word) : memory.write name value = memory.store address value := by
  simp only [write, declare, haddress]

-- A declared name has the address that is told, and there is a cell.
theorem address?_declare (memory : Memory) (name : String) :
    (memory.declare name).2.address? name = some (memory.declare name).1 ∧
      (memory.declare name).1 < (memory.declare name).2.cells.length := by
  cases haddress : memory.address? name with
  | some address =>
      simp only [declare, haddress]
      exact ⟨trivial, lt_of_address? haddress⟩
  | none =>
      rw [address?] at haddress
      simp only [declare, address?, haddress, List.lookup_append, List.lookup_cons_self,
        Option.none_or, List.length_append, List.length_singleton, true_and]
      exact Nat.lt_succ_self _

-- What has been written under a name is read there.
theorem read_write (memory : Memory) (name : String) (value : Word) :
    (memory.write name value).read name = value := by
  obtain ⟨haddress, hlt⟩ := memory.address?_declare name
  have hplace : (memory.write name value).address? name = some (memory.declare name).1 := haddress
  rw [read, hplace]
  exact valueAt_store hlt value

theorem read_eq_valueAt {address : Nat} (haddress : memory.address? name = some address) :
    memory.read name = memory.valueAt address := by
  rw [read, haddress]
  rfl

theorem writeAt_eq_ok (hwrite : memory.writeAt address value = .ok after) :
    address.toNat < memory.limit ∧
      after = (memory.extend (address.toNat + 1)).store address.toNat value := by
  unfold writeAt at hwrite
  split_ifs at hwrite with hlimit
  cases hwrite
  exact ⟨hlimit, rfl⟩

-- What one instruction can do to memory: nothing, a write to one of some names, or a write to an
-- address.
inductive Stores (names : List String) (memory : Memory) : Memory → Prop
  | nothing : Stores names memory memory
  | named {name : String} (hname : name ∈ names) (value : Word) :
      Stores names memory (memory.write name value)
  | addressed {address value : Word} {after : Memory}
      (hwrite : memory.writeAt address value = .ok after) : Stores names memory after

theorem Stores.mono {others : List String} (hstores : Stores names memory after)
    (hsubset : ∀ name ∈ names, name ∈ others) : Stores others memory after := by
  cases hstores with
  | nothing => exact .nothing
  | named hname value => exact .named (hsubset _ hname) value
  | addressed hwrite => exact .addressed hwrite

-- A write to a name neither adds a cell nor touches the index.
theorem LaidOut.write_keeps (hlaid : LaidOut names memory) (hname : name ∈ names) (value : Word) :
    (memory.write name value).cells.length = memory.cells.length ∧
      (memory.write name value).index = memory.index := by
  obtain ⟨address, haddress, -⟩ := hlaid.exists_address hname
  rw [write_eq_store haddress]
  exact ⟨memory.length_store address value, rfl⟩

theorem LaidOut.store (hlaid : LaidOut names memory) (address : Nat) (value : Word) :
    LaidOut names (memory.store address value) := by
  constructor
  · rw [map_name_store, length_store]
    exact hlaid.cells
  · exact hlaid.index

theorem LaidOut.extend (hlaid : LaidOut names memory) (length : Nat) :
    LaidOut names (memory.extend length) := by
  have hlength := hlaid.length_le
  constructor
  · rw [Memory.extend]
    dsimp only
    rw [List.map_append, hlaid.cells, List.map_replicate, List.append_assoc,
      List.replicate_append_replicate, List.length_append, List.length_replicate]
    congr 2
    omega
  · exact hlaid.index

-- Names keep their places, in the cells and in the index, and new cells get none.
theorem LaidOut.of_stores (hlaid : LaidOut names memory) (hstores : Stores names memory after) :
    LaidOut names after := by
  cases hstores with
  | nothing => exact hlaid
  | named hname value =>
      obtain ⟨address, haddress, -⟩ := hlaid.exists_address hname
      rw [write_eq_store haddress]
      exact hlaid.store address value
  | addressed hwrite =>
      obtain ⟨-, rfl⟩ := writeAt_eq_ok hwrite
      exact (hlaid.extend _).store _ _

theorem LaidOut.limit_of_stores (hlaid : LaidOut names memory)
    (hstores : Stores names memory after) : after.limit = memory.limit := by
  cases hstores with
  | nothing => rfl
  | named hname value =>
      obtain ⟨address, haddress, -⟩ := hlaid.exists_address hname
      rw [write_eq_store haddress]
      rfl
  | addressed hwrite =>
      obtain ⟨-, rfl⟩ := writeAt_eq_ok hwrite
      rfl

-- Cells are only added below an address within the limit.
theorem LaidOut.length_le_limit_of_stores (hlaid : LaidOut names memory)
    (hstores : Stores names memory after) (hlimit : memory.cells.length ≤ memory.limit) :
    after.cells.length ≤ after.limit := by
  cases hstores with
  | nothing => exact hlimit
  | named hname value =>
      rw [(hlaid.write_keeps hname value).1, hlaid.limit_of_stores (.named hname value)]
      exact hlimit
  | @addressed address value _ hwrite =>
      obtain ⟨haddress, rfl⟩ := writeAt_eq_ok hwrite
      have hsame : ((memory.extend (address.toNat + 1)).store address.toNat value).limit =
          memory.limit := rfl
      rw [length_store, hsame, Memory.extend, List.length_append, List.length_replicate]
      omega

-- Within one limit it is enough to compare the values.
theorem readAt_congr (hlimit : after.limit = memory.limit)
    (hvalue : after.valueAt address.toNat = memory.valueAt address.toNat) :
    after.readAt address = memory.readAt address := by
  rw [readAt, readAt, hlimit, hvalue]

theorem valueAt_store_of_ne {address other : Nat} (hne : other ≠ address) (value : Word) :
    (memory.store address value).valueAt other = memory.valueAt other := by
  rw [valueAt, getElem?_store_of_ne hne, valueAt]

-- Whatever is stored, at most one address reads differently afterwards.
theorem LaidOut.readAt_of_stores (hlaid : LaidOut names memory)
    (hstores : Stores names memory after) :
    ∃ address : Word, ∀ other, other ≠ address → after.readAt other = memory.readAt other := by
  have hlimit := hlaid.limit_of_stores hstores
  cases hstores with
  | nothing => exact ⟨0, fun _ _ => rfl⟩
  | named hname value =>
      obtain ⟨address, haddress, -⟩ := hlaid.exists_address hname
      refine ⟨UInt64.ofNat address, ?_⟩
      intro other hne
      apply readAt_congr hlimit
      have hplace : other.toNat ≠ address := by
        rintro rfl
        exact hne (UInt64.ofNat_toNat).symm
      rw [write_eq_store haddress, valueAt_store_of_ne hplace]
  | @addressed address value _ hwrite =>
      obtain ⟨-, rfl⟩ := writeAt_eq_ok hwrite
      refine ⟨address, ?_⟩
      intro other hne
      apply readAt_congr hlimit
      have hplace : other.toNat ≠ address.toNat := fun heq => hne (UInt64.toNat_inj.mp heq)
      rw [valueAt_store_of_ne hplace, valueAt_extend]

-- The cell that carries a name is the one that the index leads to. Both accesses read it.
theorem LaidOut.access (hlaid : LaidOut names memory) (hname : name ∈ names)
    (hlimit : names.length ≤ memory.limit) (hword : memory.limit < Word.modulus) :
    ∃ address : Word, memory.address? name = some address.toNat ∧
      memory.cells[address.toNat]? = some ⟨some name, memory.read name⟩ ∧
      memory.readAt address = .ok (memory.read name) := by
  obtain ⟨address, haddress, hlt, hcell⟩ := hlaid.exists_address hname
  have hplace : (UInt64.ofNat address).toNat = address := Word.toNat_ofNat (by omega)
  refine ⟨UInt64.ofNat address, ?_, ?_, ?_⟩
  · rw [hplace, haddress]
  · obtain ⟨cell, hfound, hnamed⟩ := Option.map_eq_some_iff.mp hcell
    rw [hplace, hfound, read_eq_valueAt haddress, valueAt, hfound, ← hnamed]
    rfl
  · rw [readAt, hplace, if_pos (by omega), read_eq_valueAt haddress]

end Memory

end ContractSim
