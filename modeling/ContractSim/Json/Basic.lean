import ContractSim.Word

namespace ContractSim

-- JSON values. Objects keep their members in order, repeated keys included.
inductive Json where
  | null
  | bool (value : Bool)
  | integer (value : Int)
  | real (value : Float)
  | string (value : String)
  | list (elements : List Json)
  | object (members : List (String × Json))
  -- Well-formed text without a value: a number past the doubles, or text with half a surrogate
  -- pair in it.
  | unreadable

namespace Json

def word (value : Word) : Json := .integer value.toNat

def nat (value : Nat) : Json := .integer value

def words (values : List Word) : Json := .list (values.map word)

def option {α : Type} (encode : α → Json) : Option α → Json
  | some value => encode value
  | none => .null

mutual

-- The number of lists and objects around the innermost value.
def depth : Json → Nat
  | .list elements => depthList elements + 1
  | .object members => depthMembers members + 1
  | .null | .bool _ | .integer _ | .real _ | .string _ | .unreadable => 0

def depthList : List Json → Nat
  | [] => 0
  | value :: rest => max (depth value) (depthList rest)

def depthMembers : List (String × Json) → Nat
  | [] => 0
  | (_, value) :: rest => max (depth value) (depthMembers rest)

end

mutual

-- Every part of the value can be read.
def isReadable : Json → Bool
  | .list elements => isReadableList elements
  | .object members => isReadableMembers members
  | .unreadable => false
  | .null | .bool _ | .integer _ | .real _ | .string _ => true

def isReadableList : List Json → Bool
  | [] => true
  | value :: rest => isReadable value && isReadableList rest

def isReadableMembers : List (String × Json) → Bool
  | [] => true
  | (_, value) :: rest => isReadable value && isReadableMembers rest

end

-- Puts a member into members sorted by key; a member of the same key goes away.
def insertMember (key : String) (value : Json) : List (String × Json) → List (String × Json)
  | [] => [(key, value)]
  | (other, held) :: rest =>
      if key < other then (key, value) :: (other, held) :: rest
      else if key = other then (key, value) :: rest
      else (other, held) :: insertMember key value rest

mutual

-- The value with members sorted by key. Of repeated keys the last one stays.
def sorted : Json → Json
  | .list elements => .list (sortedList elements)
  | .object members => .object (sortedMembers [] members)
  | .null => .null
  | .bool value => .bool value
  | .integer value => .integer value
  | .real value => .real value
  | .string value => .string value
  | .unreadable => .unreadable

def sortedList : List Json → List Json
  | [] => []
  | value :: rest => sorted value :: sortedList rest

def sortedMembers (done : List (String × Json)) : List (String × Json) → List (String × Json)
  | [] => done
  | (key, value) :: rest => sortedMembers (insertMember key (sorted value) done) rest

end

end Json

end ContractSim
