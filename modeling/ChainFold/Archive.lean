import ChainFold.Digest.Sha256
import ChainFold.Event.Basic
import ChainFold.Store.Table
import ChainFold.Text.Codes
/-!
# Archives

An archive keeps bytes under cids; what is once there stays.  It is held in
memory, or in files below a directory: a file is named by the cid in base32, or
by the digest of a cid too long for that, and lies in a directory named by the
first octet of the digest.
-/

namespace ChainFold

namespace Archive

/-- The most characters of a file name that spells out its cid. -/
def maxNameLength : Nat := 200

/-- The file name of a cid, without its ending. -/
def fileName (cid : String) : String :=
  let name := 'b' :: Text.Base32.encode (Text.utf8 cid)
  if maxNameLength < name.length then
    String.ofList ('h' :: Text.Base32.encode (Digest.sha256Text cid))
  else String.ofList name

/-- The directory of a cid, below the root. -/
def shard (cid : String) : String :=
  String.ofList (((Digest.sha256Text cid).take 1).flatMap Digest.hexOctet)

/-- The place of a cid, below the root. -/
def place (cid : String) : String := s!"{shard cid}/{fileName cid}.block"

/-- What is found at a place. -/
inductive Entry where
  | file (bs : Bytes)
  | directory
  deriving DecidableEq

/-- The files below a root. -/
structure Disk where
  root : String
  /-- Whether directories can be made below the root. -/
  writable : Bool
  entries : Table Entry

end Archive

/-- An archive in memory or in files. -/
inductive Archive where
  | memory (blocks : Table Bytes)
  | files (disk : Archive.Disk)

namespace Archive

def inMemory : Archive := .memory .empty

def below (root : String) (writable : Bool) : Archive := .files ⟨root, writable, .empty⟩

/-- The key under which a cid is kept: the cid itself, or its place, which only a text has. -/
def keyOf (a : Archive) (cid : Json) : Except Failure Key :=
  match a, cid with
  | .memory _, _ =>
    match cid.key? with
    | some k => .ok k
    | none => .error (.defect .wrongKind)
  | .files _, .str s => .ok (.text (place s))
  | .files _, _ => .error (.defect .noSuchPart)

def holds (a : Archive) (k : Key) : Bool :=
  match a with
  | .memory blocks => blocks.has k
  | .files disk => disk.entries.has k

def has (a : Archive) (cid : Json) : Except Failure Bool := a.holds <$> a.keyOf cid

/-- The path of what a cid has below a root; only a text has anything there. -/
def pathOf (disk : Disk) (part : String → String) (cid : Json) : String :=
  let below := (cid.text?.map part).getD ""
  s!"{disk.root}/{below}"

/-- The failure of a disk on which no directory can be made for a cid. -/
def unwritable (disk : Disk) (cid : Json) : Failure :=
  .storage "create_directory" (pathOf disk shard cid)

/-- Keep bytes under a key where nothing is kept yet. -/
def write (a : Archive) (k : Key) (bs : Bytes) : Archive :=
  match a with
  | .memory blocks => .memory (blocks.insert k bs)
  | .files disk => .files { disk with entries := disk.entries.insert k (.file bs) }

/-- Whether a new entry can be made for a cid. -/
def checkRoom (a : Archive) (cid : Json) : Except Failure Unit :=
  match a with
  | .memory _ => .ok ()
  | .files disk => if disk.writable then .ok () else .error (unwritable disk cid)

/-- Keep bytes under a cid, unless something is there already; says whether they were written. -/
def put (a : Archive) (cid : Json) (bs : Bytes) : Except Failure (Bool × Archive) := do
  let k ← a.keyOf cid
  if a.holds k then pure (false, a)
  else
    a.checkRoom cid
    pure (true, a.write k bs)

/--
Keep a block under a cid, whatever the block is read as.  A count of octets has no
length of its own, which an archive in files asks for after it has written them: it
fails then, and what it has written stays.
-/
def putBlock (a : Archive) (cid : Json) (b : Block) : Except Failure Bool × Archive :=
  let attempt : Except Failure (Bool × Archive) := do
    let k ← a.keyOf cid
    if a.holds k then pure (false, a)
    else
      a.checkRoom cid
      match b.stored with
      | .ok bs => pure (true, a.write k bs)
      | .error d => throw (.defect d)
  match attempt, a, b.count? with
  | .ok (true, a'), .files _, some _ => (.error (.defect .wrongKind), a')
  | .ok (written, a'), _, _ => (.ok written, a')
  | .error f, _, _ => (.error f, a)

def get (a : Archive) (cid : Json) : Except Failure (Option Bytes) := do
  let k ← a.keyOf cid
  match a with
  | .memory blocks => pure (blocks.get? k)
  | .files disk =>
    match disk.entries.get? k with
    | none => pure none
    | some (.file bs) => pure (some bs)
    | some .directory =>
      throw (.storage "read_block" (pathOf disk place cid))

def putEvent (a : Archive) (e : Event) : Except Failure (Bool × Archive) :=
  match e.envelope with
  | .ok bs => a.put e.cid bs
  | .error d => .error (.defect d)

def getEvent (a : Archive) (cid : Json) : Except Failure (Option Event) := do
  match ← a.get cid with
  | none => pure none
  | some bs => some <$> Event.ofEnvelope bs

/-- Make a directory at the place of a cid, where nothing may be yet. -/
def makeDirectory (a : Archive) (cid : Json) : Except Failure Archive :=
  match a with
  | .memory _ => .error (.defect .noSuchPart)
  | .files disk => do
    let k ← a.keyOf cid
    if !disk.writable then .error (.defect .notADirectory)
    else if disk.entries.has k then .error (.defect .fileExists)
    else .ok (.files { disk with entries := disk.entries.insert k .directory })

def filePlaces : Archive → List Key
  | .memory _ => []
  | .files disk => (disk.entries.rows.filter (·.2 ≠ .directory)).map (·.1)

/-- The archive as it is found when opened anew: files stay, memory is lost. -/
def reopened : Archive → Archive
  | .memory _ => inMemory
  | .files disk => .files disk

/-- The number of cids that something is kept under; an archive in files is not counted. -/
def size : Archive → Except Defect Nat
  | .memory blocks => .ok blocks.size
  | .files _ => .error .wrongKind

def isFiles : Archive → Bool
  | .memory _ => false
  | .files _ => true

end Archive

end ChainFold
