import ChainFold.Failure
import ChainFold.Json.Key
import ChainFold.Json.Printer
/-!
# Log lines

A line has a level, the name of its logger, a message and extra members.  Lines
are values; writing one as a JSON object is a function of the line.
-/

namespace ChainFold.Log

def namedLevels : List (Int × String) :=
  [(0, "NOTSET"), (10, "DEBUG"), (20, "INFO"), (30, "WARNING"), (40, "ERROR"), (50, "CRITICAL")]

/-- For looking at single steps. -/
def debug : Int := 10

/-- For what happened. -/
def info : Int := 20

/-- For what was refused. -/
def warning : Int := 30

def levelName (level : Int) : String :=
  ((namedLevels.find? (·.1 == level)).map (·.2)).getD s!"Level {level}"

/-- The names that a level may be given by, besides those it is shown by. -/
def levelAliases : List (String × Int) := [("WARN", 30), ("FATAL", 50)]

def levelOf? (name : String) : Option Int :=
  ((namedLevels.find? (·.2 == name)).map (·.1)).or (levelAliases.lookup name)

/-- The level that a value sets: an integer, or a name. -/
def levelOf (j : Json) : Except Defect Int :=
  match j with
  | .int n => .ok n
  | .bool b => .ok b.toNat
  | .str s =>
    match levelOf? s with
    | some level => .ok level
    | none => .error .badValue
  | _ => .error .wrongKind

/-- The name of the level that a value sets; `true` is a level that is named by itself. -/
def setLevelName (j : Json) (level : Int) : String :=
  if j = .bool true then s!"Level {j.display}" else levelName level

/-- The least level of the lines that are kept: level 0 leaves it to the default. -/
def threshold (level : Int) : Int := if level = 0 then warning else level

/-- What a level given as any value is called: the name of a number, the number of a name. -/
def levelLabel (j : Json) : Except Defect Json :=
  match j.key? with
  | none => .error .wrongKind
  | some (.whole n) =>
    .ok (((namedLevels.find? (·.1 == n)).map fun p => Json.str p.2).getD s!"Level {j.display}")
  | some (.text s) => .ok (((levelOf? s).map Json.int).getD s!"Level {s}")
  | some _ => .ok s!"Level {j.display}"

structure Line where
  level : Int
  logger : String
  message : String
  /-- The text of the error that the line is about. -/
  trouble : Option String
  extra : Members

/-- The attributes of a line that are not extra members. -/
def reserved : List String :=
  ["name", "msg", "args", "created", "filename", "funcName", "levelname", "levelno", "lineno",
   "module", "msecs", "pathname", "process", "processName", "relativeCreated", "stack_info",
   "exc_info", "exc_text", "thread", "threadName", "taskName", "message"]

/-- Whether an extra member is written. -/
def isShown (key : String) : Bool := !reserved.contains key && !("_".isPrefixOf key)

/--
A line as an object, without its time: the level, the logger, the message, the text of
an error if there is one, and what else is shown.  An extra member replaces one of the
same name.
-/
def layout (level logger : Json) (message : String) (trouble : Option String) (extra : Members) :
    Json :=
  let base : Members := [("level", level), ("logger", logger), ("message", .str message)]
  let base : Members := match trouble with
    | none => base
    | some text => base ++ [("exception", Json.str text)]
  .obj ((base.merge (extra.filter (isShown ·.1))).erase "timestamp")

/-- A line as an object, without its time. -/
def Line.toJson (l : Line) : Json :=
  layout (levelName l.level) l.logger l.message l.trouble l.extra

/-- The text of an error of a kind with a message of its own. -/
def troubleText (kind text : String) : String :=
  let text := if kind = "KeyError" then Text.quoted text else text
  if text = "" then kind else s!"{kind}: {text}"

/-- The extra members of a line under a context, which takes precedence. -/
def withContext (context extra : Members) : Members := extra.merge context

/-- An argument as an integer in decimal. -/
def integerText : Json → Except Defect (List Char)
  | .int n => .ok (Text.integer n)
  | .bool b => .ok (Text.integer b.toNat)
  | .double d =>
    if d.isFinite then .ok (Text.integer d.truncate)
    else if d.isNaN then .error .badValue
    else .error .tooLarge
  | _ => .error .wrongKind

/--
Fill the places `%s` and `%d` of a template from arguments in order.  `loose` says
that arguments may be left over.
-/
def fillFrom (loose : Bool) : List Char → List Json → Except Defect (List Char)
  | [], args => if args.isEmpty || loose then .ok [] else .error .wrongKind
  | '%' :: '%' :: rest, args => ('%' :: ·) <$> fillFrom loose rest args
  | '%' :: 's' :: rest, arg :: args =>
    (arg.display.toList ++ ·) <$> fillFrom loose rest args
  | '%' :: 'd' :: rest, arg :: args =>
    match integerText arg with
    | .ok text => (text ++ ·) <$> fillFrom loose rest args
    | .error d => .error d
  | '%' :: 's' :: _, [] | '%' :: 'd' :: _, [] => .error .wrongKind
  | '%' :: _, _ => .error .badValue
  | c :: rest, args => (c :: ·) <$> fillFrom loose rest args

/-- What a template is filled from. -/
structure Filling where
  args : List Json
  /-- Whether arguments may be left over. -/
  loose : Bool

def Filling.none : Filling := ⟨[], false⟩

/-- A list of arguments; an object by itself may be left over. -/
def Filling.ofList (args : List Json) : Filling :=
  match args with
  | [.obj (m :: ms)] => ⟨[.obj (m :: ms)], true⟩
  | args => ⟨args, false⟩

/-- A value in the place of a list of arguments: a collection may be left over. -/
def Filling.ofValue (j : Json) : Filling :=
  if !j.isPresent then .none
  else
    match j with
    | .arr _ | .obj _ => ⟨[j], true⟩
    | j => ⟨[j], false⟩

/-- A message from a template; without arguments it is the template itself. -/
def fill (template : String) (f : Filling) : Except Defect String :=
  if f.args.isEmpty then .ok template
  else String.ofList <$> fillFrom f.loose template.toList f.args

/--
The text of an error that is described by a value: the value must be a sequence of at
least three parts, and only the description of no error at all can be written.
-/
def describedTrouble (j : Json) : Except Defect String :=
  let third (n : Nat) : Except Defect String :=
    if n < 3 then .error .noItems else .error .noSuchPart
  match j with
  | .arr (_ :: .null :: .null :: _) => .ok "NoneType: None"
  | .arr items => third items.length
  | .str s => third s.length
  | .obj _ => .error (.missingKey (.int 2))
  | _ => .error .wrongKind

/-- A line whose parts may be any values. -/
structure Record where
  level : Json
  logger : Json
  message : Json
  filling : Filling
  trouble : Option String
  /-- Members that replace the parts of their names, and others. -/
  extra : Members

namespace Record

/-- The text of the error that a record is about. -/
def troubleOf (r : Record) : Except Defect (Option String) :=
  match r.extra.get? "exc_info" with
  | none => .ok r.trouble
  | some j => if j.isPresent then some <$> describedTrouble j else .ok none

/-- The name under which a record makes its message; a member of that name is in the way. -/
def messageMaker : String := "getMessage"

/-- A record as an object, without its time. -/
def toJson (r : Record) : Except Defect Json := do
  let label ← levelLabel r.level
  if r.extra.has messageMaker then throw .wrongKind
  let template := ((r.extra.get? "msg").getD r.message).display
  let filling := ((r.extra.get? "args").map Filling.ofValue).getD r.filling
  let message ← fill template filling
  let trouble ← r.troubleOf
  pure (layout ((r.extra.get? "levelname").getD label) ((r.extra.get? "name").getD r.logger)
    message trouble r.extra)

end Record

end ChainFold.Log
