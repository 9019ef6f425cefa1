import ChainFold.Engine.Basic
import ChainFold.Settings
/-!
# Starting and stopping engines

An engine is started from settings and what they point to outside; it can be
closed and opened again, or give way to another engine over the same store.
-/

namespace ChainFold.Engine

/-- What the settings of an engine point to. -/
structure Surroundings where
  /-- Whether the directory of the data file exists. -/
  reachable : Bool
  /-- What the data file holds. -/
  stored : Tables
  /-- The archive at its path. -/
  archive : Archive
  /-- The text of the models file, if there is one. -/
  models : Option String

def registryLogger : String := "dataverse_streams.registry"

/-- The text of a setting that is a path. -/
def pathOf (v : Yaml.Value) : Except Failure String :=
  match v.display with
  | .ok path => .ok path
  | .error d => .error (.defect d)

def openStore (s : Settings) (out : Surroundings) : Except Failure (Store × List Log.Line) := do
  let path ← pathOf s.dbPath
  let closed := Store.closed s.backend path
  if s.backend == .memory then pure closed.opened
  else if !out.reachable then throw (.connection path)
  else pure { closed with tables := out.stored }.opened

/-- The recently used states of settings: none for a size of zero. -/
def recentOf (s : Settings) : Except Failure (Option Fold.Recent) :=
  if s.cacheSize.given.isPresent then some <$> Fold.Recent.create s.cacheSize.given else .ok none

def registryAt (path : String) (text : Option String) : Except Failure (Registry × List Log.Line) :=
  match text with
  | none => .error (Settings.unreadable "models_file" path)
  | some text => do
    let document ← match Yaml.read text with
      | .ok v => .ok v
      | .error d => .error (.defect d)
    let registry ← Registry.ofDocument document
    pure (registry,
      [⟨Log.info, registryLogger, s!"Loaded {registry.size} models from {path}", none, []⟩])

def registryOf (s : Settings) (out : Surroundings) :
    Except Failure (Registry × List Log.Line) :=
  if s.modelsFile.isPresent then do registryAt (← pathOf s.modelsFile) out.models
  else .ok (.empty, [])

def readyLine (b : Backend) : Log.Line :=
  ⟨Log.info, logger, s!"Stream engine ready on {b.name} backend", none, []⟩

def checkLevel (s : Settings) : Except Failure Unit :=
  match s.level with
  | .ok _ => .ok ()
  | .error d => .error (.defect d)

def start (s : Settings) (out : Surroundings) (extract : Extractor) : Except Failure Engine := do
  checkLevel s
  let (store, opening) ← openStore s out
  let recent ← recentOf s
  let (registry, loading) ← registryOf s out
  let archive := if s.archivePath.scalar? = some .null then Archive.inMemory else out.archive
  let en : Engine := ⟨store, archive, registry, ⟨recent, []⟩, extract, s.maxBlockBytes⟩
  pure (en.noted (opening ++ loading ++ [readyLine s.backend]))

def close (en : Engine) : Engine := { en with store := en.store.shut }

def reopenStore (en : Engine) : Engine :=
  let (store, lines) := en.store.opened
  { en with store := store }.noted lines

/-- Open the store if it is closed, as an engine does when it is entered. -/
def entered (en : Engine) : Engine := if en.store.isOpen then en else en.reopenStore

/-- Another engine over the same store, archive and registry, with recent states of its own. -/
def successor (en : Engine) (recent : Option Fold.Recent) : Engine :=
  { en with
    desk := { en.desk with recent := recent }
    extract := Index.ownSignal
    maxBlockBytes := none }

/-- Another engine over the same store and nothing else. -/
def bare (en : Engine) : Engine :=
  { en.successor none with archive := Archive.inMemory, registry := .empty }

/-- An engine over a store that is given, opened if need be, with the default settings. -/
def ofStore (store : Store) : Engine :=
  let en : Engine :=
    ⟨store, Archive.inMemory, .empty, ⟨none, []⟩, Index.ownSignal, none⟩
  en.entered.noted [readyLine store.backend]

end ChainFold.Engine
