import ContractSim.Machine.Fault
import ContractSim.UpdateFirst

namespace ContractSim

-- A cell of memory. Cells that only fill the space below a written address have no name.
structure Cell where
  name : Option String
  value : Word
deriving DecidableEq, Repr

-- The cells of a contract, in order of address, and the addresses of its names. Addresses below
-- the limit can be used.
structure Memory where
  cells : List Cell
  index : List (String × Nat)
  limit : Nat
  bounded : ∀ entry ∈ index, entry.2 < cells.length
deriving DecidableEq, Repr

namespace Memory

-- Cells in one page of memory.
def pageCells : Nat := 32

-- The limit is a word.
def empty (pages : Nat) : Memory where
  cells := []
  index := []
  limit := min (pages * pageCells) (Word.modulus - 1)
  bounded := fun _ hmem => absurd hmem List.not_mem_nil

def address? (memory : Memory) (name : String) : Option Nat := memory.index.lookup name

-- Gives a name the next address, unless it has one, and tells the address.
def declare (memory : Memory) (name : String) : Nat × Memory :=
  match memory.address? name with
  | some address => (address, memory)
  | none =>
      (memory.cells.length,
        { memory with
          cells := memory.cells ++ [⟨some name, 0⟩]
          index := memory.index ++ [(name, memory.cells.length)]
          bounded := by
            intro entry hmem
            rw [List.length_append]
            rcases List.mem_append.mp hmem with hold | hnew
            · exact Nat.lt_add_right 1 (memory.bounded entry hold)
            · rw [List.mem_singleton.mp hnew]
              exact Nat.lt_succ_self _ })

-- The value of the cell at an address; a cell that does not exist counts as zero.
def valueAt (memory : Memory) (address : Nat) : Word :=
  (memory.cells[address]?.map Cell.value).getD 0

-- Changes the value of the cell at an address.
def store (memory : Memory) (address : Nat) (value : Word) : Memory :=
  { memory with
    cells := memory.cells.modify address ({ · with value })
    bounded := by
      intro entry hmem
      rw [List.length_modify]
      exact memory.bounded entry hmem }

-- The value under a name; an unknown name reads as zero.
def read (memory : Memory) (name : String) : Word :=
  ((memory.address? name).map memory.valueAt).getD 0

-- Stores a value under a name, which is declared if it is new.
def write (memory : Memory) (name : String) (value : Word) : Memory :=
  let (address, memory) := memory.declare name
  memory.store address value

-- The value at an address; a cell that does not exist reads as zero.
def readAt (memory : Memory) (address : Word) : Except Fault Word :=
  if address.toNat < memory.limit then .ok (memory.valueAt address.toNat)
  else .error (.invalidAddress address)

-- Adds cells without a name up to a length. They are not in the index.
def extend (memory : Memory) (length : Nat) : Memory :=
  { memory with
    cells := memory.cells ++ List.replicate (length - memory.cells.length) ⟨none, 0⟩
    bounded := by
      intro entry hmem
      rw [List.length_append]
      exact Nat.lt_add_right _ (memory.bounded entry hmem) }

-- Stores a value at an address, adding cells up to it.
def writeAt (memory : Memory) (address value : Word) : Except Fault Memory :=
  if address.toNat < memory.limit then
    .ok ((memory.extend (address.toNat + 1)).store address.toNat value)
  else .error (.invalidAddress address)

end Memory

end ContractSim
