import ContractSim.Machine.Fault

namespace ContractSim

-- Values are pushed on the user stack, return lines on the code stack.
inductive StackKind where
  | user
  | code
deriving DecidableEq, Repr

namespace StackKind

def overflow : StackKind → Fault
  | .user => .userStackOverflow
  | .code => .codeStackOverflow

def underflow : StackKind → Fault
  | .user => .userStackUnderflow
  | .code => .codeStackUnderflow

end StackKind

-- A stack with a limit. The entries are kept from the top down.
structure Stack (α : Type) where
  kind : StackKind
  entries : List α
  limit : Nat
deriving DecidableEq, Repr

namespace Stack

variable {α : Type}

-- Entries in one page of a stack.
def pageEntries : Nat := 16

-- The limit is a word.
def empty (kind : StackKind) (pages : Nat) : Stack α :=
  ⟨kind, [], min (pages * pageEntries) (Word.modulus - 1)⟩

def push (stack : Stack α) (value : α) : Except Fault (Stack α) :=
  if stack.limit ≤ stack.entries.length then .error stack.kind.overflow
  else .ok { stack with entries := value :: stack.entries }

def pop (stack : Stack α) : Except Fault (α × Stack α) :=
  match stack.entries with
  | [] => .error stack.kind.underflow
  | value :: rest => .ok (value, { stack with entries := rest })

def depth (stack : Stack α) : Nat := stack.entries.length

-- The entries from the bottom up.
def toList (stack : Stack α) : List α := stack.entries.reverse

end Stack

end ContractSim
