import ChainFold.Double.Decimal
import ChainFold.Json.Comparison
import ChainFold.Log
import ChainFold.Store.Backend
import ChainFold.Yaml.Reader
/-!
# Settings

The settings of an engine, from an object, from environment variables or from a
settings document.  A setting keeps the value it was given, which is any value that a
document can hold; the backend and the two sizes are checked.
-/

namespace ChainFold

structure Settings where
  backend : Backend
  dbPath : Yaml.Value
  cacheSize : Amount
  archivePath : Yaml.Value
  modelsFile : Yaml.Value
  maxBlockBytes : Option Amount
  logLevel : Yaml.Value
  structuredLog : Yaml.Value

namespace Settings

abbrev Given := List (String × Yaml.Value)

/-- The names of the settings with the values that stand for missing ones. -/
def defaults : Given :=
  [("backend", .str "memory"), ("db_path", .str ":memory:"), ("projection_cache_size", .int 1000),
   ("block_store_path", .null), ("models_file", .null), ("max_block_bytes", .null),
   ("log_level", .str "INFO"), ("structured_logging", .bool false)]

def value (given : Given) (key : String) : Yaml.Value :=
  (given.lookup key).getD ((defaults.lookup key).getD .null)

/-- A value that must be a number and not below a bound. -/
def atLeast (key : String) (bound : Int) (v : Yaml.Value) : Except Failure Amount :=
  match v.scalar?.bind Amount.of? with
  | none => .error (.defect .wrongKind)
  | some a =>
    if !a.isBelow bound then .ok a
    else
      match v.display with
      | .ok text => .error (.invalid key s!"must be >= {bound}" (.str text))
      | .error d => .error (.defect d)

/-- A value as a detail: what JSON has no room for is left out. -/
def detailOf (v : Yaml.Value) : Json :=
  match v.toJson with
  | .ok j => j
  | .error _ => .null

def backendOf (v : Yaml.Value) : Except Failure Backend :=
  match v.text?.bind Backend.ofName? with
  | some b => .ok b
  | none =>
    let names := Text.join ", " (Backend.all.map Backend.name)
    .error (.invalid "backend" s!"must be one of {names}" (detailOf v))

/-- Check the settings and take them. -/
def ofGiven (given : Given) : Except Failure Settings := do
  let backend ← backendOf (value given "backend")
  let cacheSize ← atLeast "projection_cache_size" 0 (value given "projection_cache_size")
  let limit ← match value given "max_block_bytes" with
    | .null => pure none
    | v => some <$> atLeast "max_block_bytes" 1 v
  pure
    { backend := backend
      dbPath := value given "db_path"
      cacheSize := cacheSize
      archivePath := value given "block_store_path"
      modelsFile := value given "models_file"
      maxBlockBytes := limit
      logLevel := value given "log_level"
      structuredLog := value given "structured_logging" }

def ofMembers (ms : Members) : Except Failure Settings :=
  ofGiven (ms.map fun m => (m.1, .ofJson m.2))

/-- Put a text before the first greater one, and once only. -/
def insertOnce (s : String) : List String → List String
  | [] => [s]
  | t :: rest =>
    if s = t then t :: rest else if s < t then s :: t :: rest else t :: insertOnce s rest

/-- The names that are no settings, in order and each once. -/
def unknown (names : List String) : List String :=
  (names.filter fun s => (defaults.lookup s).isNone).foldr insertOnce []

def checkNames (names : List String) : Except Failure Unit :=
  let strange := unknown names
  let listed := Text.join ", " strange
  if strange.isEmpty then .ok ()
  else .error (.invalid "engine" s!"unknown settings: {listed}" .null)

/--
Settings from a section of a document.  Names that are no texts cannot be settings, and
a collection that is no mapping can only be refused.
-/
def ofSection (v : Yaml.Value) : Except Failure Settings :=
  match v.parts?.bind fun parts => parts.mapM Yaml.Value.text? with
  | none => .error (.defect .wrongKind)
  | some names => do
    checkNames names
    match v.textMembers? with
    | some given => ofGiven given
    | none => .error (.defect .wrongKind)

def ofJson (j : Json) : Except Failure Settings := ofSection (.ofJson j)

def toValue (s : Settings) : Yaml.Value :=
  .map [(.str "backend", .str s.backend.name), (.str "db_path", s.dbPath),
    (.str "projection_cache_size", .ofJson s.cacheSize.given),
    (.str "block_store_path", s.archivePath), (.str "models_file", s.modelsFile),
    (.str "max_block_bytes", (s.maxBlockBytes.map fun a => .ofJson a.given).getD .null),
    (.str "log_level", s.logLevel), (.str "structured_logging", s.structuredLog)]

def level (s : Settings) : Except Defect Int :=
  (s.logLevel.scalar?).elim (.error .wrongKind) Log.levelOf

def levelName (s : Settings) (level : Int) : String :=
  (s.logLevel.scalar?).elim (Log.levelName level) (Log.setLevelName · level)

abbrev Environment := List (String × String)

/-- What the names of environment variables start with. -/
def environmentMark : String := "DATAVERSE_STREAMS_"

def setting? (env : Environment) (name : String) : Option String :=
  env.lookup (environmentMark ++ name)

/-- The value of an environment variable, or another text if it is not set. -/
def variableOr (env : Environment) (name default : String) : String :=
  (setting? env name).getD default

/-- A text, unless it is missing or empty. -/
def given (s : Option String) : Option String := s.filter (· != "")

/-- The words that switch a setting on. -/
def onWords : List String := ["1", "true", "yes", "on"]

/-- Whether a word switches a setting on. -/
def isOn (word : String) : Bool := onWords.contains (Text.lower (Text.trim word))

def integerOf (text : String) : Except Failure Json :=
  match Text.readInteger 10 text with
  | .ok n => .ok (.int n)
  | .error fault => .error (.invalid "environment" fault.message .null)

/-- A text that is not empty, or null. -/
def optional (s : Option String) : Json := .ofText? (given s)

def ofEnvironment (env : Environment) : Except Failure Settings := do
  let cacheSize ← integerOf (variableOr env "PROJECTION_CACHE_SIZE" "1000")
  let limit ← match given (setting? env "MAX_BLOCK_BYTES") with
    | none => pure .null
    | some text => integerOf text
  ofMembers
    [("backend", .str (variableOr env "BACKEND" "memory")),
     ("db_path", .str (variableOr env "DB_PATH" ":memory:")),
     ("projection_cache_size", cacheSize),
     ("block_store_path", optional (setting? env "BLOCK_STORE_PATH")),
     ("models_file", optional (setting? env "MODELS_FILE")),
     ("max_block_bytes", limit),
     ("log_level", .str (variableOr env "LOG_LEVEL" "INFO")),
     ("structured_logging", .bool (isOn (variableOr env "STRUCTURED_LOGGING" "false")))]

/-- The failure of a settings file that cannot be read. -/
def unreadable (field path : String) : Failure := .invalid field "cannot read" path

/-- The section `engine` of a document: an empty one if it is missing. -/
def sectionOf (v : Yaml.Value) : Yaml.Value :=
  let found := (v.textMembers?.bind (·.lookup "engine")).getD (.map [])
  if found.isPresent then found else .map []

def ofDocument (path text : String) : Except Failure Settings :=
  match Yaml.read text with
  | .error (.notYaml _) => .error (.invalid "config_file" "invalid YAML" path)
  | .error d => .error (.defect d)
  | .ok v => ofSection (sectionOf v)

/-- Where a relational backend keeps its data, and how long it waits for it. -/
structure Connection where
  dbPath : String
  timeout : Option Double

def sqliteConnection (env : Environment) : Except Failure Connection :=
  match Double.read? (variableOr env "SQLITE_TIMEOUT" "5.0") with
  | some seconds => .ok ⟨variableOr env "SQLITE_PATH" ":memory:", some seconds⟩
  | none => .error (.defect .badValue)

def duckdbConnection (env : Environment) : Connection :=
  ⟨variableOr env "DUCKDB_PATH" ":memory:", none⟩

end Settings

end ChainFold
