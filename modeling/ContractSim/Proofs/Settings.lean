import ContractSim.Proofs.Toml.Document
import ContractSim.Settings.Document

namespace ContractSim.Settings

open ContractSim.Toml

section Entries

theorem lookup_map {α β : Type} (key : α → String) (value : α → β) {elements : List α}
    (hkeys : (elements.map key).Nodup) {element : α} (hmem : element ∈ elements) :
    (elements.map fun element => (key element, value element)).lookup (key element) =
      some (value element) := by
  induction elements with
  | nil => cases hmem
  | cons first rest ih =>
      rw [List.map_cons, List.nodup_cons] at hkeys
      rw [List.map_cons, List.lookup_cons]
      rcases List.mem_cons.mp hmem with rfl | hrest
      · rw [beq_self_eq_true]
      · have hne : key element ≠ key first := fun h => hkeys.1 (h ▸ List.mem_map_of_mem hrest)
        rw [beq_eq_false_iff_ne.mpr hne]
        exact ih hkeys.2 hrest

-- A number of the settings as a value of a document.
def wordValue (word : Word) : Value := .integer (.ofNat word.toNat)

def protocolValues (protocol : Protocol) : Entries :=
  Protocol.fields.map fun field => (field.key, wordValue (field.get protocol))

def startValues (start : StartSettings) : Entries :=
  [("rng_seed", wordValue start.rngSeed), ("start_block", wordValue start.startBlock)]

def logValues (log : LogSettings) : Entries :=
  [("level", .string log.level), ("json", .bool log.json)]

theorem word?_wordValue (word : Word) : word? (wordValue word) = some word :=
  congrArg some UInt64.ofNat_toNat

theorem protocol?_protocolValues (kind : TableKind) (protocol : Protocol) :
    protocol? (.table kind (protocolValues protocol)) = some protocol := by
  have hkeys : (Protocol.fields.map Protocol.Field.key).Nodup := by decide
  have hread : ∀ field ∈ Protocol.fields, ∀ fallback,
      read? word? field.key fallback (protocolValues protocol) = some (field.get protocol) := by
    intro field hfield fallback
    have hlookup := lookup_map Protocol.Field.key (fun field => wordValue (field.get protocol))
      hkeys hfield
    rw [read?, protocolValues, hlookup]
    exact word?_wordValue _
  have hfold : ∀ fields : List Protocol.Field, fields ⊆ Protocol.fields → ∀ read,
      fields.foldlM (fun protocol' field => do
          return field.set protocol'
            (← read? word? field.key (field.get protocol') (protocolValues protocol))) read =
        some (fields.foldl (fun read field => field.set read (field.get protocol)) read) := by
    intro fields hfields
    induction fields with
    | nil => exact fun read => rfl
    | cons field rest ih =>
        intro read
        obtain ⟨hfield, hrest⟩ := List.cons_subset.mp hfields
        rw [List.foldlM_cons, hread field hfield]
        exact ih hrest _
  exact hfold Protocol.fields (List.Subset.refl _) {}

theorem startSettings?_startValues (kind : TableKind) (start : StartSettings) :
    startSettings? (.table kind (startValues start)) = some start := by
  simp [startSettings?, partEntries?, startValues, read?, List.lookup_cons, word?_wordValue]

theorem logSettings?_logValues (kind : TableKind) (log : LogSettings) :
    logSettings? (.table kind (logValues log)) = some log := by
  simp [logSettings?, partEntries?, logValues, read?, List.lookup_cons, string?, bool?]

-- The tables of the document.
def tables (settings : Settings) : List (String × Entries) :=
  [("protocol", protocolValues settings.protocol), ("simulation", startValues settings.simulation),
    ("log", logValues settings.log)]

theorem ofEntries?_tables (settings : Settings) :
    ofEntries? (settings.tables.map fun (name, values) => (name, .table .header values)) =
      some settings := by
  simp [tables, ofEntries?, read?, List.lookup_cons, protocol?_protocolValues,
    startSettings?_startValues, logSettings?_logValues]

end Entries

section Document

variable {settings : Settings} {text : String}

-- A number that a document can hold.
def Printable (word : Word) : Prop := word.toNat < integerBound

instance (word : Word) : Decidable (Printable word) :=
  inferInstanceAs (Decidable (word.toNat < integerBound))

theorem integerText?_of_printable {word : Word} (hword : Printable word) :
    integerText? word.toNat = some (toString word.toNat) :=
  if_pos hword

theorem integerText?_of_not_printable {word : Word} (hword : ¬Printable word) :
    integerText? word.toNat = none :=
  if_neg hword

-- A document holds all numbers of the protocol or none.
theorem mapM_integerText? {protocol : Protocol} {fields : List Protocol.Field}
    (hwords : ∀ field ∈ fields, Printable (field.get protocol)) :
    (fields.mapM fun field => do
        return (field.key, ← integerText? (field.get protocol).toNat)) =
      some (fields.map fun field => (field.key, toString (field.get protocol).toNat)) := by
  induction fields with
  | nil => rfl
  | cons field rest ih =>
      obtain ⟨hfield, hrest⟩ := List.forall_mem_cons.mp hwords
      rw [List.mapM_cons, integerText?_of_printable hfield, ih hrest]
      rfl

theorem mapM_integerText?_eq_none {protocol : Protocol} {fields : List Protocol.Field}
    {field : Protocol.Field} (hfield : field ∈ fields) (hword : ¬Printable (field.get protocol)) :
    (fields.mapM fun field => do
        return (field.key, ← integerText? (field.get protocol).toNat)) = none := by
  induction fields with
  | nil => cases hfield
  | cons first rest ih =>
      rw [List.mapM_cons]
      rcases List.mem_cons.mp hfield with rfl | hrest
      · rw [integerText?_of_not_printable hword]
        rfl
      · rw [ih hrest]
        cases integerText? (first.get protocol).toNat with
        | none => rfl
        | some text => rfl

-- The numbers of the settings fit into a document.
structure Fits (settings : Settings) : Prop where
  protocol : ∀ field ∈ Protocol.fields, Printable (field.get settings.protocol)
  rngSeed : Printable settings.simulation.rngSeed
  startBlock : Printable settings.simulation.startBlock

-- The tables of the document with all numbers written out.
def texts (settings : Settings) : List (String × List (String × String)) :=
  [("protocol", Protocol.fields.map fun field =>
      (field.key, toString (field.get settings.protocol).toNat)),
    ("simulation", [("rng_seed", toString settings.simulation.rngSeed.toNat),
      ("start_block", toString settings.simulation.startBlock.toNat)]),
    ("log", logEntries settings.log)]

def document (settings : Settings) : String :=
  "\n".intercalate (settings.texts.map fun (name, entries) => table name entries)

theorem toText_of_fits (hfits : settings.Fits) : settings.toText = .ok settings.document := by
  have hprotocol : protocolEntries? settings.protocol = some (Protocol.fields.map fun field =>
      (field.key, toString (field.get settings.protocol).toNat)) :=
    mapM_integerText? hfits.protocol
  have hstart : startEntries? settings.simulation =
      some [("rng_seed", toString settings.simulation.rngSeed.toNat),
        ("start_block", toString settings.simulation.startBlock.toNat)] := by
    rw [startEntries?, integerText?_of_printable hfits.rngSeed,
      integerText?_of_printable hfits.startBlock]
    rfl
  rw [toText, hprotocol, hstart]
  rfl

theorem toText_of_not_fits (hfits : ¬settings.Fits) : settings.toText = .error .unprintable := by
  have hnone : protocolEntries? settings.protocol = none ∨
      startEntries? settings.simulation = none := by
    by_cases hprotocol : ∀ field ∈ Protocol.fields, Printable (field.get settings.protocol)
    · right
      rw [startEntries?]
      by_cases hseed : Printable settings.simulation.rngSeed
      · have hblock : ¬Printable settings.simulation.startBlock :=
          fun hblock => hfits ⟨hprotocol, hseed, hblock⟩
        rw [integerText?_of_printable hseed, integerText?_of_not_printable hblock]
        rfl
      · rw [integerText?_of_not_printable hseed]
        rfl
    · left
      push Not at hprotocol
      obtain ⟨field, hfield, hword⟩ := hprotocol
      exact mapM_integerText?_eq_none hfield hword
  rw [toText]
  rcases hnone with hnone | hnone
  · rw [hnone]
  · rw [hnone]
    cases protocolEntries? settings.protocol with
    | none => rfl
    | some entries => rfl

theorem bare_of_mem_fields : ∀ field ∈ Protocol.fields, Bare field.key := by decide

theorem spelled_wordValue {key : String} (hkey : Bare key) {word : Word} (hword : Printable word) :
    Spelled (key, toString word.toNat) (key, wordValue word) :=
  ⟨rfl, hkey, written_toString hword⟩

theorem spelled_protocolValues {protocol : Protocol}
    (hwords : ∀ field ∈ Protocol.fields, Printable (field.get protocol)) :
    List.Forall₂ Spelled
      (Protocol.fields.map fun field => (field.key, toString (field.get protocol).toNat))
      (protocolValues protocol) := by
  rw [protocolValues, List.forall₂_map_left_iff, List.forall₂_map_right_iff, List.forall₂_same]
  exact fun field hfield =>
    spelled_wordValue (bare_of_mem_fields field hfield) (hwords field hfield)

theorem spelled_startValues {start : StartSettings} (hseed : Printable start.rngSeed)
    (hblock : Printable start.startBlock) :
    List.Forall₂ Spelled
      [("rng_seed", toString start.rngSeed.toNat), ("start_block", toString start.startBlock.toNat)]
      (startValues start) :=
  .cons (spelled_wordValue (by decide) hseed)
    (.cons (spelled_wordValue (by decide) hblock) .nil)

theorem spelled_logValues (log : LogSettings) :
    List.Forall₂ Spelled (logEntries log) (logValues log) := by
  have hlevel : Bare "level" := by decide
  have hjson : Bare "json" := by decide
  exact .cons ⟨rfl, hlevel, written_quote log.level⟩
    (.cons ⟨rfl, hjson, written_boolText log.json⟩ .nil)

theorem nodup_tables (settings : Settings) : (settings.tables.map Prod.fst).Nodup := by
  change ["protocol", "simulation", "log"].Nodup
  decide

theorem nodup_keys : ∀ table ∈ settings.tables, (table.2.map Prod.fst).Nodup := by
  have hprotocol : ((protocolValues settings.protocol).map Prod.fst).Nodup := by
    rw [protocolValues, List.map_map]
    change (Protocol.fields.map Protocol.Field.key).Nodup
    decide
  have hsimulation : ((startValues settings.simulation).map Prod.fst).Nodup := by
    change ["rng_seed", "start_block"].Nodup
    decide
  have hlog : ((logValues settings.log).map Prod.fst).Nodup := by
    change ["level", "json"].Nodup
    decide
  simp only [tables, List.forall_mem_cons]
  exact ⟨hprotocol, hsimulation, hlog, List.forall_mem_nil _⟩

theorem tabled_texts (hfits : settings.Fits) :
    List.Forall₂ Tabled settings.texts settings.tables := by
  have hprotocol : Bare "protocol" := by decide
  have hsimulation : Bare "simulation" := by decide
  have hlog : Bare "log" := by decide
  exact .cons ⟨rfl, hprotocol, spelled_protocolValues hfits.protocol⟩
    (.cons ⟨rfl, hsimulation, spelled_startValues hfits.rngSeed hfits.startBlock⟩
      (.cons ⟨rfl, hlog, spelled_logValues settings.log⟩ .nil))

-- Settings that fit into a document are read back from it, unless they are refused themselves.
theorem ofText_document (hfits : settings.Fits) :
    ofText settings.document = settings.validate.map fun _ => settings := by
  have hentries : (parse? settings.document).bind ofEntries? = some settings := by
    rw [document, parse?_intercalate (tabled_texts hfits) settings.nodup_tables nodup_keys]
    exact ofEntries?_tables settings
  rw [ofText, hentries]
  cases hvalid : settings.validate with
  | error fault => simp [hvalid, Except.map]
  | ok done => simp [hvalid, Except.map]

-- Printing and reading loses nothing exactly on the settings that are accepted and whose numbers
-- are signed words.
theorem roundTrips_iff (settings : Settings) :
    settings.roundTrips = true ↔ settings.validate = .ok () ∧ settings.Fits := by
  by_cases hfits : settings.Fits
  · rw [roundTrips, toText_of_fits hfits]
    simp only [ofText_document hfits]
    cases settings.validate with
    | error fault => simp [Except.map]
    | ok done => simp [Except.map, hfits]
  · rw [roundTrips, toText_of_not_fits hfits]
    simp [hfits]

-- Settings that were read have passed the check.
theorem validate_of_ofText (hread : ofText text = .ok settings) : settings.validate = .ok () := by
  rw [ofText] at hread
  cases hentries : (parse? text).bind ofEntries? with
  | none =>
      rw [hentries] at hread
      cases hread
  | some found =>
      rw [hentries] at hread
      cases hvalid : found.validate with
      | error fault => simp [hvalid] at hread
      | ok done =>
          have hsame : found = settings := by simpa [hvalid] using hread
          rw [← hsame, hvalid]

-- The settings that stand for missing ones are accepted and lose nothing either.
theorem roundTrips_default : roundTrips {} = true :=
  (roundTrips_iff {}).mpr ⟨rfl, by decide, by decide, by decide⟩

end Document

end ContractSim.Settings
