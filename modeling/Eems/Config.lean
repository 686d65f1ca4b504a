/-
The configuration: what the settings of a TOML document make of the defaults,
and which configurations a document can bring about.
-/
import Eems.Startup

namespace Eems

/-- A TOML value as far as the loader looks at it; a table knows its line. -/
inductive TomlValue where
  | boolean (value : Bool)
  | integer (value : Int64)
  | string (value : Bytes)
  | array (items : List TomlValue)
  | table (line : Nat) (entries : List (Bytes × TomlValue))
  | other

abbrev TomlTable := List (Bytes × TomlValue)

/-- The exceptions of loading: the TOML library's for a value of another type
and for a key that is missing, the UUID library's for a string that is none,
the loader's own, and the system's when it has no host name. -/
inductive ConfigError where
  | typeError
  | keyNotFound (key : String)
  | invalidUuid
  | unknownContentType (line : Nat)
  | noHostName
deriving DecidableEq, Repr

namespace TomlValue

/-- `toml::get<bool>` -/
def asBoolean : TomlValue → Except ConfigError Bool
  | .boolean value => .ok value
  | _ => .error .typeError

/-- `toml::get<toml::integer>` -/
def asInteger : TomlValue → Except ConfigError Int64
  | .integer value => .ok value
  | _ => .error .typeError

/-- `toml::get<std::string>` -/
def asString : TomlValue → Except ConfigError Bytes
  | .string value => .ok value
  | _ => .error .typeError

def asArray : TomlValue → Except ConfigError (List TomlValue)
  | .array items => .ok items
  | _ => .error .typeError

def asTable : TomlValue → Except ConfigError TomlTable
  | .table _ entries => .ok entries
  | _ => .error .typeError

/-- `location().line()` -/
def line : TomlValue → Nat
  | .table line _ => line
  | _ => 0

/-- `toml::find<std::string>`, which wants a table with the key. -/
def findString (value : TomlValue) (key : String) : Except ConfigError Bytes := do
  let entries ← value.asTable
  match entries.lookup (ascii key) with
  | none => .error (.keyNotFound key)
  | some found => found.asString

end TomlValue

/-- A UUID, nil if all of its bytes are 0. -/
abbrev Uuid := Vector UInt8 16

def nilUuid : Uuid := Vector.replicate 16 0

structure DataConfig where
  contentDirectories : List DirectoryConfig := []

structure StoreConfig where
  dbPath : Path := ascii "/var/lib/eems/db"

/-- `server_config` without the URL that the server fills in. -/
structure ServerSettings where
  uuid : Uuid := nilUuid
  listenPort : UInt16 := 0
  hostName : Bytes := []
  name : Bytes := []

structure LoggingConfig where
  truncate : Bool := false
  path : Path := []

structure Config where
  data : DataConfig
  db : StoreConfig
  server : ServerSettings
  logging : LoggingConfig

/-- What loading takes from outside the document: how a string is read as a
UUID and one is made of a name, and the name of the machine. -/
structure ConfigHost where
  stringGenerator : Bytes → Option Uuid
  nameGenerator : Bytes → Uuid
  hostName : Option Bytes

/-- `try_get`: a key that is missing changes nothing. -/
def tryGet {T C : Type} (get : TomlValue → Except ConfigError T) (table : TomlTable) (key : String)
    (func : T → C → Except ConfigError C) (config : C) : Except ConfigError C :=
  match table.lookup (ascii key) with
  | none => .ok config
  | some found => do
      let value ← get found
      func value config

def loadMoviesConfig (data : TomlTable) : Except ConfigError MoviesLibraryConfig :=
  tryGet TomlValue.asBoolean data "use_folder_names"
    (fun value config => .ok { config with useFolderNames := value }) {}

def loadDataConfig : List TomlValue → DataConfig → Except ConfigError DataConfig
  | [], config => .ok config
  | table :: data, config => do
      let type ← table.findString "type"
      let path ← table.findString "path"
      if type = ascii "movies" then
        let scannerConfig ← loadMoviesConfig (← table.asTable)
        loadDataConfig data ⟨config.contentDirectories ++ [⟨path, scannerConfig⟩]⟩
      else .error (.unknownContentType table.line)

def loadDbConfig (data : TomlTable) (config : StoreConfig) : Except ConfigError StoreConfig :=
  tryGet TomlValue.asString data "path" (fun value _ => .ok ⟨value⟩) config

def setUuid (host : ConfigHost) (value : Bytes) (config : ServerSettings) :
    Except ConfigError ServerSettings :=
  match host.stringGenerator value with
  | none => .error .invalidUuid
  | some uuid => .ok { config with uuid }

/-- The port is cut down to 16 bits. -/
def loadServerConfig (host : ConfigHost) (data : TomlTable) (config : ServerSettings) :
    Except ConfigError ServerSettings := do
  let config ← tryGet TomlValue.asString data "uuid" (setUuid host) config
  let config ← tryGet TomlValue.asInteger data "port" (fun value config =>
    .ok { config with listenPort := value.toUInt64.toUInt16 }) config
  let config ← tryGet TomlValue.asString data "hostname" (fun value config =>
    .ok { config with hostName := value }) config
  tryGet TomlValue.asString data "name" (fun value config =>
    .ok { config with name := value }) config

def loadLoggingConfig (data : TomlTable) (config : LoggingConfig) :
    Except ConfigError LoggingConfig := do
  let config ← tryGet TomlValue.asString data "path" (fun value config =>
    .ok { config with path := value }) config
  tryGet TomlValue.asBoolean data "truncate" (fun value config =>
    .ok { config with truncate := value }) config

/-- The machine's host name, where none is set. -/
def completeHostName (host : ConfigHost) (server : ServerSettings) :
    Except ConfigError ServerSettings :=
  if server.hostName = [] then
    match host.hostName with
    | none => .error .noHostName
    | some hostName => .ok { server with hostName }
  else .ok server

def completeName (server : ServerSettings) : ServerSettings :=
  if server.name = [] then { server with name := ascii "EEMSat " ++ server.hostName } else server

def completeUuid (host : ConfigHost) (server : ServerSettings) : ServerSettings :=
  if server.uuid = nilUuid then { server with uuid := host.nameGenerator server.hostName }
  else server

/-- `load_configuration`, from the document on. -/
def loadConfiguration (host : ConfigHost) (document : TomlValue) : Except ConfigError Config := do
  let dataTable ← document.asTable
  let data ← tryGet TomlValue.asArray dataTable "content" loadDataConfig {}
  let db ← tryGet TomlValue.asTable dataTable "db" loadDbConfig {}
  let server ← tryGet TomlValue.asTable dataTable "server" (loadServerConfig host) {}
  let logging ← tryGet TomlValue.asTable dataTable "logging" loadLoggingConfig {}
  let server ← completeHostName host server
  .ok ⟨data, db, completeUuid host (completeName server), logging⟩

section Settings

variable {T C : Type} {table : TomlTable} {key : String} {config after : C}

/-- What a setting is, read from the table or by default. -/
def Setting (read : TomlValue → Except ConfigError T) (table : TomlTable) (key : String)
    (default value : T) : Prop :=
  match table.lookup (ascii key) with
  | none => value = default
  | some found => read found = .ok value

theorem setting_of_lookup {read : TomlValue → Except ConfigError T} {found : TomlValue}
    (default value : T) (h : table.lookup (ascii key) = some found) :
    Setting read table key default value ↔ read found = .ok value := by
  simp only [Setting, h]

theorem bind_eq_ok_iff {A B E : Type} {first : Except E A} {next : A → Except E B} {result : B} :
    first >>= next = .ok result ↔ ∃ value, first = .ok value ∧ next value = .ok result := by
  cases first <;> simp [bind, Except.bind]

/-- Where the default would change nothing, `try_get` takes over the setting. -/
theorem tryGet_eq_ok_iff {get : TomlValue → Except ConfigError T}
    {func : T → C → Except ConfigError C} (default : T)
    (hdefault : func default config = .ok config) :
    tryGet get table key func config = .ok after ↔
      ∃ value, Setting get table key default value ∧ func value config = .ok after := by
  cases hlookup : table.lookup (ascii key) with
  | none =>
      simp only [tryGet, Setting, hlookup, exists_eq_left, hdefault]
  | some found =>
      simp only [tryGet, Setting, hlookup, bind_eq_ok_iff]

/-- A setting that is read and goes into one field. -/
theorem tryGet_read_iff {U : Type} {get : TomlValue → Except ConfigError T}
    {func : T → C → Except ConfigError C} (read : TomlValue → Except ConfigError U)
    {set : U → C → C} (default : U) (hdefault : set default config = config)
    (hread : ∀ found, (get found >>= fun value => func value config) =
      (read found).map fun value => set value config) :
    tryGet get table key func config = .ok after ↔
      ∃ value, Setting read table key default value ∧ after = set value config := by
  cases hlookup : table.lookup (ascii key) with
  | none =>
      simp only [tryGet, Setting, hlookup, exists_eq_left, hdefault, Except.ok.injEq]
      exact eq_comm
  | some found =>
      simp only [tryGet, Setting, hlookup, hread]
      cases read found <;> simp [Except.map, eq_comm]

theorem tryGet_field_iff {get : TomlValue → Except ConfigError T} {set : T → C → C} (default : T)
    (hdefault : set default config = config) :
    tryGet get table key (fun value config => .ok (set value config)) config = .ok after ↔
      ∃ value, Setting get table key default value ∧ after = set value config :=
  tryGet_read_iff get default hdefault fun found => by cases get found <;> rfl

end Settings

/-- The server's UUID, as it is set. -/
def ConfigHost.readUuid (host : ConfigHost) (value : TomlValue) : Except ConfigError Uuid := do
  let text ← value.asString
  match host.stringGenerator text with
  | none => .error .invalidUuid
  | some uuid => .ok uuid

/-- The server's port, as it is set: whatever the integer is. -/
def TomlValue.readPort (value : TomlValue) : Except ConfigError UInt16 :=
  value.asInteger.map fun port => port.toUInt64.toUInt16

/-- A table of `content` and the directory that it adds. -/
def DescribesDirectory (item : TomlValue) (directory : DirectoryConfig) : Prop :=
  ∃ line entries, item = .table line entries ∧
    entries.lookup (ascii "type") = some (.string (ascii "movies")) ∧
    entries.lookup (ascii "path") = some (.string directory.path) ∧
    Setting TomlValue.asBoolean entries "use_folder_names" true
      directory.scannerConfig.useFolderNames ∧
    directory.scannerConfig.useCollections = true

theorem loadMoviesConfig_eq_ok_iff {data : TomlTable} {config : MoviesLibraryConfig} :
    loadMoviesConfig data = .ok config ↔
      Setting TomlValue.asBoolean data "use_folder_names" true config.useFolderNames ∧
        config.useCollections = true := by
  rw [loadMoviesConfig, tryGet_field_iff true rfl]
  constructor
  · rintro ⟨value, hsetting, rfl⟩
    exact ⟨hsetting, rfl⟩
  · rintro ⟨hsetting, hcollections⟩
    exact ⟨_, hsetting, by rw [← hcollections]⟩

theorem findString_table {line : Nat} {entries : TomlTable} {key : String} {text : Bytes} :
    (TomlValue.table line entries).findString key = .ok text ↔
      entries.lookup (ascii key) = some (.string text) := by
  simp only [TomlValue.findString, TomlValue.asTable, bind, Except.bind]
  cases hlookup : entries.lookup (ascii key) with
  | none => simp
  | some found => cases found <;> simp [TomlValue.asString]

theorem findString_eq_ok {item : TomlValue} {key : String} {text : Bytes}
    (h : item.findString key = .ok text) : ∃ line entries, item = .table line entries := by
  cases item <;> first | exact ⟨_, _, rfl⟩ | cases h

/-- A turn of the loop over `content`. -/
theorem loadDataConfig_cons {item : TomlValue} {rest : List TomlValue}
    {config after : DataConfig} :
    loadDataConfig (item :: rest) config = .ok after ↔
      ∃ directory, DescribesDirectory item directory ∧
        loadDataConfig rest ⟨config.contentDirectories ++ [directory]⟩ = .ok after := by
  constructor
  · intro h
    simp only [loadDataConfig, bind_eq_ok_iff] at h
    obtain ⟨type, htype, path, hpath, h⟩ := h
    obtain ⟨line, entries, rfl⟩ := findString_eq_ok htype
    split at h
    · rename_i hmovies
      simp only [bind_eq_ok_iff, TomlValue.asTable, Except.ok.injEq, exists_eq_left'] at h
      obtain ⟨scannerConfig, hload, hrest⟩ := h
      obtain ⟨hnames, hcollections⟩ := loadMoviesConfig_eq_ok_iff.mp hload
      exact ⟨⟨path, scannerConfig⟩, ⟨line, entries, rfl, hmovies ▸ findString_table.mp htype,
        findString_table.mp hpath, hnames, hcollections⟩, hrest⟩
    · simp at h
  · rintro ⟨directory, ⟨line, entries, rfl, htype, hpath, hnames, hcollections⟩, hrest⟩
    have hload := loadMoviesConfig_eq_ok_iff.mpr ⟨hnames, hcollections⟩
    simp only [loadDataConfig, findString_table.mpr htype, findString_table.mpr hpath,
      TomlValue.asTable, hload, bind, Except.bind, ↓reduceIte]
    exact hrest

/-- The tables of `content` add their directories in order. -/
theorem loadDataConfig_eq_ok_iff {items : List TomlValue} {config after : DataConfig} :
    loadDataConfig items config = .ok after ↔
      ∃ directories, List.Forall₂ DescribesDirectory items directories ∧
        after.contentDirectories = config.contentDirectories ++ directories := by
  induction items generalizing config with
  | nil =>
      obtain ⟨directories⟩ := after
      obtain ⟨earlier⟩ := config
      simp [loadDataConfig, eq_comm]
  | cons item rest ih =>
      simp only [loadDataConfig_cons, ih, List.forall₂_cons_left_iff]
      constructor
      · rintro ⟨directory, hitem, directories, hrest, hafter⟩
        exact ⟨directory :: directories, ⟨directory, directories, hitem, hrest, rfl⟩,
          by simpa using hafter⟩
      · rintro ⟨_, ⟨directory, directories, hitem, hrest, rfl⟩, hafter⟩
        exact ⟨directory, hitem, directories, hrest, by simpa using hafter⟩

theorem bind_setUuid (host : ConfigHost) (config : ServerSettings) (found : TomlValue) :
    (found.asString >>= fun value => setUuid host value config) =
      (host.readUuid found).map fun uuid => { config with uuid } := by
  simp only [ConfigHost.readUuid, bind, Except.bind]
  cases found.asString with
  | error error => rfl
  | ok text => cases hread : host.stringGenerator text <;> simp [setUuid, hread, Except.map]

theorem bind_readPort (config : ServerSettings) (found : TomlValue) :
    (found.asInteger >>= fun value => .ok { config with listenPort := value.toUInt64.toUInt16 }) =
      found.readPort.map fun listenPort => { config with listenPort } := by
  cases found <;> rfl

theorem loadServerConfig_eq_ok_iff {host : ConfigHost} {data : TomlTable}
    {config after : ServerSettings} :
    loadServerConfig host data config = .ok after ↔
      Setting host.readUuid data "uuid" config.uuid after.uuid ∧
      Setting TomlValue.readPort data "port" config.listenPort after.listenPort ∧
      Setting TomlValue.asString data "hostname" config.hostName after.hostName ∧
      Setting TomlValue.asString data "name" config.name after.name := by
  have huuid := fun mid : ServerSettings => @tryGet_read_iff _ _ data "uuid" config mid _ _ _
    host.readUuid (fun uuid config => { config with uuid }) config.uuid rfl
    (bind_setUuid host config)
  have hport := fun config mid : ServerSettings => @tryGet_read_iff _ _ data "port" config mid _ _
    (fun (value : Int64) config => .ok { config with listenPort := value.toUInt64.toUInt16 })
    TomlValue.readPort (fun listenPort config => { config with listenPort }) config.listenPort rfl
    (bind_readPort config)
  have hhostName := fun config mid : ServerSettings =>
    @tryGet_field_iff _ _ data "hostname" config mid TomlValue.asString
      (fun hostName config => { config with hostName }) config.hostName rfl
  have hname := fun config mid : ServerSettings =>
    @tryGet_field_iff _ _ data "name" config mid TomlValue.asString
      (fun name config => { config with name }) config.name rfl
  simp only [loadServerConfig, bind_eq_ok_iff, huuid, hport, hhostName, hname]
  constructor
  · rintro ⟨_, ⟨uuid, huuid, rfl⟩, _, ⟨port, hport, rfl⟩, _, ⟨hostName, hhostName, rfl⟩, name,
      hname, rfl⟩
    exact ⟨huuid, hport, hhostName, hname⟩
  · rintro ⟨huuid, hport, hhostName, hname⟩
    exact ⟨_, ⟨_, huuid, rfl⟩, _, ⟨_, hport, rfl⟩, _, ⟨_, hhostName, rfl⟩, _, hname, rfl⟩

theorem loadDbConfig_eq_ok_iff {data : TomlTable} {config after : StoreConfig} :
    loadDbConfig data config = .ok after ↔
      Setting TomlValue.asString data "path" config.dbPath after.dbPath := by
  rw [loadDbConfig, tryGet_field_iff config.dbPath rfl]
  constructor
  · rintro ⟨path, hpath, rfl⟩
    exact hpath
  · intro hpath
    exact ⟨_, hpath, rfl⟩

theorem loadLoggingConfig_eq_ok_iff {data : TomlTable} {config after : LoggingConfig} :
    loadLoggingConfig data config = .ok after ↔
      Setting TomlValue.asString data "path" config.path after.path ∧
      Setting TomlValue.asBoolean data "truncate" config.truncate after.truncate := by
  have hpath := fun config mid : LoggingConfig =>
    @tryGet_field_iff _ _ data "path" config mid TomlValue.asString
      (fun path config => { config with path }) config.path rfl
  have htruncate := fun config mid : LoggingConfig =>
    @tryGet_field_iff _ _ data "truncate" config mid TomlValue.asBoolean
      (fun truncate config => { config with truncate }) config.truncate rfl
  simp only [loadLoggingConfig, bind_eq_ok_iff, hpath, htruncate]
  constructor
  · rintro ⟨_, ⟨path, hpath, rfl⟩, truncate, htruncate, rfl⟩
    exact ⟨hpath, htruncate⟩
  · rintro ⟨hpath, htruncate⟩
    exact ⟨_, ⟨_, hpath, rfl⟩, _, htruncate, rfl⟩

/-- What becomes of the settings of the server: a host name that is empty is
the machine's, and the name and the UUID come after it. -/
structure Completes (host : ConfigHost) (settings server : ServerSettings) : Prop where
  listenPort : server.listenPort = settings.listenPort
  hostName : if settings.hostName = [] then host.hostName = some server.hostName
    else server.hostName = settings.hostName
  name : server.name =
    if settings.name = [] then ascii "EEMSat " ++ server.hostName else settings.name
  uuid : server.uuid =
    if settings.uuid = nilUuid then host.nameGenerator server.hostName else settings.uuid

theorem completeHostName_eq_ok_iff {host : ConfigHost} {settings named : ServerSettings} :
    completeHostName host settings = .ok named ↔
      named = { settings with hostName := named.hostName } ∧
      if settings.hostName = [] then host.hostName = some named.hostName
      else named.hostName = settings.hostName := by
  obtain ⟨uuid, listenPort, hostName, name⟩ := settings
  unfold completeHostName
  split
  · cases hmachine : host.hostName with
    | none => simp
    | some machine =>
        simp only [Except.ok.injEq, Option.some.injEq]
        constructor
        · rintro rfl
          exact ⟨rfl, rfl⟩
        · rintro ⟨hnamed, rfl⟩
          exact hnamed.symm
  · simp only [Except.ok.injEq]
    constructor
    · rintro rfl
      exact ⟨rfl, rfl⟩
    · rintro ⟨hnamed, hhostName⟩
      rw [hnamed, hhostName]

theorem completeUuid_completeName (host : ConfigHost) (named : ServerSettings) :
    completeUuid host (completeName named) =
      { named with
        name := if named.name = [] then ascii "EEMSat " ++ named.hostName else named.name
        uuid := if named.uuid = nilUuid then host.nameGenerator named.hostName
          else named.uuid } := by
  by_cases hname : named.name = [] <;> by_cases huuid : named.uuid = nilUuid <;>
    simp [completeUuid, completeName, hname, huuid]

theorem completes_iff {host : ConfigHost} {settings server : ServerSettings} :
    (∃ named, completeHostName host settings = .ok named ∧
      completeUuid host (completeName named) = server) ↔ Completes host settings server := by
  simp only [completeHostName_eq_ok_iff, completeUuid_completeName]
  constructor
  · rintro ⟨named, ⟨hnamed, hhostName⟩, rfl⟩
    refine ⟨by rw [hnamed], hhostName, ?_, ?_⟩
    · rw [hnamed]
    · rw [hnamed]
  · intro h
    refine ⟨{ settings with hostName := server.hostName }, ⟨rfl, h.hostName⟩, ?_⟩
    rw [← h.name, ← h.uuid, ← h.listenPort]

/-- The configuration that a document describes. -/
structure Describes (host : ConfigHost) (entries : TomlTable) (config : Config) : Prop where
  content : ∃ items, Setting TomlValue.asArray entries "content" [] items ∧
    List.Forall₂ DescribesDirectory items config.data.contentDirectories
  db : ∃ part, Setting TomlValue.asTable entries "db" [] part ∧
    Setting TomlValue.asString part "path" (ascii "/var/lib/eems/db") config.db.dbPath
  server : ∃ part settings, Setting TomlValue.asTable entries "server" [] part ∧
    Setting host.readUuid part "uuid" nilUuid settings.uuid ∧
    Setting TomlValue.readPort part "port" 0 settings.listenPort ∧
    Setting TomlValue.asString part "hostname" [] settings.hostName ∧
    Setting TomlValue.asString part "name" [] settings.name ∧
    Completes host settings config.server
  logging : ∃ part, Setting TomlValue.asTable entries "logging" [] part ∧
    Setting TomlValue.asString part "path" [] config.logging.path ∧
    Setting TomlValue.asBoolean part "truncate" false config.logging.truncate

/-- A document is loaded exactly if it describes a configuration, which is the
one that is loaded. -/
theorem loadConfiguration_eq_ok_iff {host : ConfigHost} {document : TomlValue} {config : Config} :
    loadConfiguration host document = .ok config ↔
      ∃ entries, document.asTable = .ok entries ∧ Describes host entries config := by
  have hdata := fun (entries : TomlTable) (after : DataConfig) =>
    @tryGet_eq_ok_iff _ _ entries "content" {} after TomlValue.asArray loadDataConfig [] rfl
  have hdb := fun (entries : TomlTable) (after : StoreConfig) =>
    @tryGet_eq_ok_iff _ _ entries "db" {} after TomlValue.asTable loadDbConfig [] rfl
  have hserver := fun (entries : TomlTable) (after : ServerSettings) =>
    @tryGet_eq_ok_iff _ _ entries "server" {} after TomlValue.asTable (loadServerConfig host) [] rfl
  have hlogging := fun (entries : TomlTable) (after : LoggingConfig) =>
    @tryGet_eq_ok_iff _ _ entries "logging" {} after TomlValue.asTable loadLoggingConfig [] rfl
  simp only [loadConfiguration, bind_eq_ok_iff, hdata, hdb, hserver, hlogging,
    loadDataConfig_eq_ok_iff, loadDbConfig_eq_ok_iff, loadServerConfig_eq_ok_iff,
    loadLoggingConfig_eq_ok_iff, List.nil_append, Except.ok.injEq]
  constructor
  · rintro ⟨entries, hentries, data, ⟨items, hitems, directories, hall, hdirectories⟩, db, hdb,
      settings, ⟨part, hpart, huuid, hport, hhostName, hname⟩, logging, hlogging, named, hnamed,
      rfl⟩
    exact ⟨entries, hentries, ⟨items, hitems, hdirectories ▸ hall⟩, hdb,
      ⟨part, settings, hpart, huuid, hport, hhostName, hname,
        completes_iff.mp ⟨named, hnamed, rfl⟩⟩, hlogging⟩
  · rintro ⟨entries, hentries, ⟨items, hitems, hall⟩, hdb,
      ⟨part, settings, hpart, huuid, hport, hhostName, hname, hcompletes⟩, hlogging⟩
    obtain ⟨named, hnamed, hserver⟩ := completes_iff.mpr hcompletes
    exact ⟨entries, hentries, config.data, ⟨items, hitems, _, hall, rfl⟩, config.db, hdb, settings,
      ⟨part, hpart, huuid, hport, hhostName, hname⟩, config.logging, hlogging, named, hnamed,
      by rw [hserver]⟩

/-- The configurations that some document brings about: `use_collections` is
never read, and the server has a name. -/
structure Loadable (host : ConfigHost) (config : Config) : Prop where
  collections : ∀ directory ∈ config.data.contentDirectories,
    directory.scannerConfig.useCollections = true
  hostName : config.server.hostName = [] → host.hostName = some []
  name : config.server.name ≠ []
  uuid : config.server.uuid = host.nameGenerator config.server.hostName ∨
    config.server.uuid ≠ nilUuid ∧ ∃ text, host.stringGenerator text = some config.server.uuid

theorem DescribesDirectory.collections {items : List TomlValue} {directories : List DirectoryConfig}
    (h : List.Forall₂ DescribesDirectory items directories) :
    ∀ directory ∈ directories, directory.scannerConfig.useCollections = true := by
  induction h with
  | nil => simp
  | cons hitem _ ih =>
      obtain ⟨line, entries, -, -, -, -, hcollections⟩ := hitem
      exact List.forall_mem_cons.mpr ⟨hcollections, ih⟩

/-- A UUID that is set was read from some text. -/
theorem exists_text_of_setting {host : ConfigHost} {table : TomlTable} {uuid : Uuid}
    (h : Setting host.readUuid table "uuid" nilUuid uuid) (hset : uuid ≠ nilUuid) :
    ∃ text, host.stringGenerator text = some uuid := by
  unfold Setting at h
  split at h
  · exact absurd h hset
  · simp only [ConfigHost.readUuid, bind_eq_ok_iff] at h
    obtain ⟨text, -, hread⟩ := h
    split at hread
    · simp at hread
    · rename_i found hfound
      exact ⟨text, by rw [hfound, Except.ok.inj hread]⟩

theorem Describes.loadable {host : ConfigHost} {entries : TomlTable} {config : Config}
    (h : Describes host entries config) : Loadable host config := by
  obtain ⟨⟨items, -, hall⟩, -, ⟨part, settings, -, huuid, -, -, -, hcompletes⟩, -⟩ := h
  refine ⟨DescribesDirectory.collections hall, ?_, ?_, ?_⟩
  · intro hempty
    have hhostName := hcompletes.hostName
    rw [hempty] at hhostName
    split at hhostName
    · exact hhostName
    · rename_i hset
      exact absurd hhostName.symm hset
  · rw [hcompletes.name]
    split
    · simp [ascii]
    · assumption
  · rw [hcompletes.uuid]
    split
    · exact Or.inl rfl
    · rename_i hset
      exact Or.inr ⟨hset, exists_text_of_setting huuid hset⟩

section Documents

def directoryTable (directory : DirectoryConfig) : TomlValue :=
  .table 0 [(ascii "type", .string (ascii "movies")), (ascii "path", .string directory.path),
    (ascii "use_folder_names", .boolean directory.scannerConfig.useFolderNames)]

/-- A document with every setting but the UUID, which may be left out. -/
def documentOf (config : Config) (uuid : Option Bytes) : TomlTable :=
  [(ascii "content", .array (config.data.contentDirectories.map directoryTable)),
    (ascii "db", .table 0 [(ascii "path", .string config.db.dbPath)]),
    (ascii "server", .table 0
      ([(ascii "port", .integer config.server.listenPort.toUInt64.toInt64),
        (ascii "hostname", .string config.server.hostName),
        (ascii "name", .string config.server.name)] ++
        uuid.toList.map fun text => (ascii "uuid", .string text))),
    (ascii "logging", .table 0 [(ascii "path", .string config.logging.path),
      (ascii "truncate", .boolean config.logging.truncate)])]

theorem describes_directoryTable {directories : List DirectoryConfig}
    (h : ∀ directory ∈ directories, directory.scannerConfig.useCollections = true) :
    List.Forall₂ DescribesDirectory (directories.map directoryTable) directories := by
  rw [List.forall₂_map_left_iff, List.forall₂_same]
  intro directory hdirectory
  exact ⟨0, _, rfl, rfl, rfl, rfl, h directory hdirectory⟩

/-- A configuration is described by its document, if the UUID is. -/
theorem describes_documentOf {host : ConfigHost} {config : Config} (h : Loadable host config)
    (uuid : Option Bytes) (read : Uuid)
    (huuid : Setting host.readUuid (uuid.toList.map fun text => (ascii "uuid", .string text))
      "uuid" nilUuid read)
    (hread : config.server.uuid =
      if read = nilUuid then host.nameGenerator config.server.hostName else read) :
    Describes host (documentOf config uuid) config where
  content := ⟨_, rfl, describes_directoryTable h.collections⟩
  db := ⟨_, rfl, rfl⟩
  server := by
    refine ⟨_, { config.server with uuid := read }, rfl, huuid, ?_, rfl, rfl, rfl, ?_, ?_, hread⟩
    · rw [setting_of_lookup _ _
        (by rfl : _ = some (TomlValue.integer config.server.listenPort.toUInt64.toInt64))]
      simp [TomlValue.readPort, TomlValue.asInteger, Except.map]
    · split
      · rename_i hempty
        rw [h.hostName hempty]
        exact congrArg some hempty.symm
      · rfl
    · rw [if_neg h.name]
  logging := ⟨_, rfl, rfl, rfl⟩

/-- A loadable configuration, written down with a UUID of its own or without
one, is loaded again. -/
theorem Loadable.describes {host : ConfigHost} {config : Config} (h : Loadable host config) :
    ∃ uuid, Describes host (documentOf config uuid) config := by
  rcases h.uuid with hgenerated | ⟨hset, text, htext⟩
  · refine ⟨none, describes_documentOf h none nilUuid rfl ?_⟩
    rw [if_pos rfl, hgenerated]
  · refine ⟨some text, describes_documentOf h (some text) config.server.uuid ?_ ?_⟩
    · rw [setting_of_lookup _ _ (by rfl : _ = some (TomlValue.string text))]
      simp [ConfigHost.readUuid, TomlValue.asString, htext, bind, Except.bind]
    · rw [if_neg hset]

end Documents

/-- Exactly the loadable configurations come from some document. -/
theorem exists_document_iff {host : ConfigHost} {config : Config} :
    (∃ document, loadConfiguration host document = .ok config) ↔ Loadable host config := by
  constructor
  · rintro ⟨document, hload⟩
    obtain ⟨entries, -, hdescribes⟩ := loadConfiguration_eq_ok_iff.mp hload
    exact hdescribes.loadable
  · intro h
    obtain ⟨uuid, hdescribes⟩ := h.describes
    exact ⟨.table 0 (documentOf config uuid),
      loadConfiguration_eq_ok_iff.mpr ⟨_, rfl, hdescribes⟩⟩

end Eems
