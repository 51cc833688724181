import ContractSim.Proofs.Contract.Directives
import ContractSim.Proofs.Contract.Memory

namespace ContractSim

namespace Header

-- A header that only sets constants under names that it declares.
def Proper (header : Header) : Prop := ∀ entry ∈ header.constants, entry.1 ∈ header.declared

-- Directives declare the names of the program, in order.
theorem ofProgram_eq_ok {program : Program} {header : Header}
    (hheader : ofProgram program = .ok header) :
    header.declared = program.declaredNames.foldl addName [] ∧ header.Proper := by
  rw [program.ofProgram_eq] at hheader
  cases hfault : program.firstFault? with
  | some error =>
      rw [hfault] at hheader
      cases hheader
  | none =>
      rw [hfault] at hheader
      cases hheader
      refine ⟨(foldl_addName_eraseDups [] program.declaredNames).symm, ?_⟩
      intro entry hentry
      exact List.mem_eraseDups.mpr (Program.mem_declaredNames_of_constants hfault hentry)

end Header

-- The last value that constants give to a name, or zero.
def lastValue (constants : List (String × Word)) (name : String) : Word :=
  ((constants.filter (·.1 == name)).getLast?.map Prod.snd).getD 0

theorem lastValue_concat (constants : List (String × Word)) (target name : String)
    (value : Word) :
    lastValue (constants ++ [(target, value)]) name =
      if name = target then value else lastValue constants name := by
  by_cases hname : name = target
  · simp [lastValue, hname]
  · simp [lastValue, hname, Ne.symm hname]

namespace Memory

-- The memory with a cell for each of some names, in order.
def ofNames (limit : Nat) (names : List String) (value : String → Word) : Memory where
  cells := names.map fun name => ⟨some name, value name⟩
  index := names.zipIdx
  limit := limit
  bounded := by
    intro entry hmem
    rw [List.length_map]
    exact List.snd_lt_of_mem_zipIdx hmem

variable {memory : Memory} {limit : Nat} {names : List String}

theorem LaidOut.of_map_name (hnames : memory.cells.map Cell.name = names.map some)
    (hindex : memory.index = names.zipIdx) : LaidOut names memory := by
  have hlength := congrArg List.length hnames
  rw [List.length_map, List.length_map] at hlength
  refine ⟨?_, hindex⟩
  rw [hnames, hlength, Nat.sub_self, List.replicate_zero, List.append_nil]

theorem map_name_ofNames (value : String → Word) :
    (ofNames limit names value).cells.map Cell.name = names.map some := by
  rw [ofNames, List.map_map]
  rfl

theorem laidOut_ofNames (value : String → Word) : LaidOut names (ofNames limit names value) :=
  .of_map_name (map_name_ofNames value) rfl

theorem declare_ofNames {name : String} (hnew : name ∉ names) :
    ((ofNames limit names fun _ => 0).declare name).2 =
      ofNames limit (names ++ [name]) fun _ => 0 := by
  have haddress : (ofNames limit names fun _ => 0).address? name = none := by
    rw [(laidOut_ofNames _).address?_eq, List.idxOf?_eq_none_iff]
    exact hnew
  simp only [declare, haddress]
  simp [ofNames, List.zipIdx_append]

theorem write_ofNames (hnodup : names.Nodup) {name : String} (hname : name ∈ names)
    (value : String → Word) (word : Word) :
    (ofNames limit names value).write name word =
      ofNames limit names fun other => if other = name then word else value other := by
  have hlaid : LaidOut names (ofNames limit names value) := laidOut_ofNames value
  obtain ⟨address, haddress, hlt, hcell⟩ := hlaid.exists_address hname
  have hfound : names[address] = name := by
    rw [ofNames, List.getElem?_map, List.getElem?_eq_getElem hlt] at hcell
    exact Option.some.inj (Option.some.inj hcell)
  have hcells : (ofNames limit names value).cells.modify address ({ · with value := word }) =
      (ofNames limit names fun other => if other = name then word else value other).cells := by
    refine List.ext_getElem (by simp [ofNames]) ?_
    intro place hleft hright
    have hbound : place < names.length := by simpa [ofNames] using hright
    have hplace : names[place] = name ↔ address = place := by
      rw [← hfound, hnodup.getElem_inj_iff, eq_comm]
    rw [List.getElem_modify]
    simp only [ofNames, List.getElem_map, hplace]
    split_ifs
    · rfl
    · rfl
  rw [write_eq_store haddress]
  simp only [store, hcells]
  rfl

theorem foldl_declare_empty (hnodup : names.Nodup) (pages : Nat) :
    names.foldl (fun memory name => (memory.declare name).2) (empty pages) =
      ofNames (empty pages).limit names fun _ => 0 := by
  induction names using List.reverseRecOn with
  | nil => rfl
  | append_singleton names name ih =>
      rw [List.nodup_append] at hnodup
      obtain ⟨hnames, -, hnew⟩ := hnodup
      rw [List.foldl_concat, ih hnames, declare_ofNames]
      intro hmem
      exact hnew name hmem name (List.mem_singleton_self name) rfl

theorem foldl_write_ofNames (hnodup : names.Nodup) {constants : List (String × Word)}
    (hconstants : ∀ entry ∈ constants, entry.1 ∈ names) :
    constants.foldl (fun memory (name, value) => memory.write name value)
        (ofNames limit names fun _ => 0) =
      ofNames limit names (lastValue constants) := by
  induction constants using List.reverseRecOn with
  | nil => rfl
  | append_singleton constants entry ih =>
      rw [List.forall_mem_append] at hconstants
      have hname := hconstants.2 entry (List.mem_singleton_self entry)
      rw [List.foldl_concat, ih hconstants.1]
      refine (write_ofNames hnodup hname _ entry.2).trans ?_
      congr 1
      funext name
      exact (lastValue_concat constants entry.1 name entry.2).symm

end Memory

namespace Contract

-- At first there is a cell for each name and no other, with the last constant for it.
theorem initialMemory_eq {names : List String} (hnodup : names.Nodup)
    {constants : List (String × Word)} (hconstants : ∀ entry ∈ constants, entry.1 ∈ names)
    (pages : Word) :
    initialMemory pages names constants =
      Memory.ofNames (Memory.empty pages.toNat).limit names (lastValue constants) := by
  rw [initialMemory, Memory.foldl_declare_empty hnodup,
    Memory.foldl_write_ofNames hnodup hconstants]

theorem initialMemory_names {names : List String} (hnodup : names.Nodup)
    {constants : List (String × Word)} (hconstants : ∀ entry ∈ constants, entry.1 ∈ names)
    (pages : Word) :
    (initialMemory pages names constants).cells.map Cell.name = names.map some ∧
      (initialMemory pages names constants).index = names.zipIdx ∧
      (initialMemory pages names constants).limit =
        min (pages.toNat * Memory.pageCells) (Word.modulus - 1) := by
  rw [initialMemory_eq hnodup hconstants]
  exact ⟨Memory.map_name_ofNames _, rfl, rfl⟩

theorem length_le_of_pagesFor {cells pages : Nat} (hpages : pagesFor cells ≤ pages) :
    cells ≤ pages * Memory.pageCells := by
  unfold pagesFor Memory.pageCells at *
  omega

-- A contract that has just been loaded. It stands on its first executable line and has done
-- nothing yet.
theorem exists_load_eq {deployment : Deployment} {protocol : Protocol} {height : Word}
    {contract : Contract} (hload : load deployment protocol height = .ok contract) :
    ∃ header first id creator activationAmount dataPages userStackPages codeStackPages,
      Header.ofProgram (Program.parse deployment.source) = .ok header ∧
      (Program.parse deployment.source).firstExecutable? = some first ∧
      pagesFor (Program.parse deployment.source).names.length ≤ dataPages.toNat ∧
      contract =
        { id, creator,
          program := Program.parse deployment.source
          memory := initialMemory dataPages (Program.parse deployment.source).names
            header.constants
          userStack := Stack.empty .user userStackPages.toNat
          codeStack := Stack.empty .code codeStackPages.toNat
          ip := first, pcs := first, activationAmount, creationBlock := height, dataPages,
          userStackPages, codeStackPages } := by
  unfold load at hload
  cases hheader : Header.ofProgram (Program.parse deployment.source) with
  | error error =>
      simp only [hheader] at hload
      cases hload
  | ok header =>
      have hnames : (Program.parse deployment.source).cellNames.foldl Header.addName
          header.declared = (Program.parse deployment.source).names := by
        rw [(Header.ofProgram_eq_ok hheader).1, ← List.foldl_append]
        rfl
      cases hfirst : (Program.parse deployment.source).firstExecutable? with
      | none =>
          simp only [hheader, hfirst] at hload
          cases hload
      | some first =>
          simp only [hheader, hfirst] at hload
          change (if _ then _ else _) = _ at hload
          split_ifs at hload with hpages
          · cases hload
          · cases hload
          · cases hload
          · cases hload
            rw [← hnames]
            exact ⟨header, first, _, _, _, _, _, _, rfl, rfl, Nat.not_lt.mp hpages, rfl⟩

end Contract

end ContractSim
