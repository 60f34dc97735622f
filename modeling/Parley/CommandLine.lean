import Parley.Double.Reading
import Parley.Listing
import Parley.Machine.Workload
import Parley.SettingsFile

/-!
# The command line

`list` lists the workloads; `run`, `stats` and `disasm` run one and print its result, a report, or
its code as specialized by the run. The flags that tune the machine may stand before the command
and after it. Each may be given once in either place, and the place after the command counts.

What is printed is a function of the arguments and of the settings file they name. A command
line that makes no sense is answered by exit code 2, a failure by exit code 1 and a report of
what failed and why.
-/

namespace Parley

namespace CommandLine

/-! ### Arguments -/

/-- The flags that tune the machine. -/
structure Flags where
  config : Option String
  cacheSize : Option Nat
  noInline : Bool
  noEager : Bool
deriving DecidableEq, Inhabited

/-- No flags. -/
def Flags.none : Flags := ⟨Option.none, Option.none, false, false⟩

/-- The flags of two places, of which the second counts. -/
def Flags.over (outer inner : Flags) : Flags where
  config := inner.config <|> outer.config
  cacheSize := inner.cacheSize <|> outer.cacheSize
  noInline := outer.noInline || inner.noInline
  noEager := outer.noEager || inner.noEager

/-- The commands. -/
inductive Command where
  | run (workload : Workload) (n : Option Int64) (statistics : Bool)
  | disasm (workload : Workload) (n : Option Int64) (cold : Bool)
  | stats (workload : Workload) (n : Option Int64)
  | list
deriving DecidableEq, Inhabited

/-- What a command line asks for. -/
inductive Request where
  | execute (flags : Flags) (command : Command)
  | help
  | version
deriving DecidableEq, Inhabited

/-- The arguments of one place so far. -/
structure Reading where
  flags : Flags
  /-- Whether the switch of the command was given. -/
  switched : Bool
  /-- The arguments that are no flags, the last first. -/
  others : List String
deriving Inhabited

/-- The number that a text stands for, if it has no minus and fits into 64 bits. -/
def size? (s : String) : Option Nat :=
  if s.startsWith "-" then none
  else
    match integer? s with
    | some i => if i < Int.pow 2 64 then some i.toNat else none
    | none => none

/-- The small integer that a text stands for. -/
def smallInteger? (s : String) : Option Int64 :=
  (integer? s).bind Number.small?

/-- Whether a path goes up somewhere. -/
def goesUp (path : String) : Bool :=
  (path.splitOn "/").contains ".."

/-- Takes in a flag with a value. None if there is no such flag, if it was given before, or if
    the value is none for it. -/
def takeValue (r : Reading) (flag value : String) : Option Reading :=
  match flag with
  | "--config" =>
    if r.flags.config.isSome || goesUp value then none
    else some { r with flags := { r.flags with config := some value } }
  | "--cache-size" =>
    match r.flags.cacheSize, size? value with
    | none, some n => some { r with flags := { r.flags with cacheSize := some n } }
    | _, _ => none
  | _ => none

/-- Takes in a flag without a value; `switch` is the one of the command. -/
def takeFlag (r : Reading) (switch : Option String) (flag : String) : Option Reading :=
  if some flag = switch then if r.switched then none else some { r with switched := true }
  else
    match flag with
    | "--no-inline" =>
      if r.flags.noInline then none
      else some { r with flags := { r.flags with noInline := true } }
    | "--no-eager" =>
      if r.flags.noEager then none else some { r with flags := { r.flags with noEager := true } }
    | _ => none

/-- Whether an argument is a flag. -/
def isFlag (s : String) : Bool :=
  s.startsWith "-" && s != "-"

/-- Whether a flag takes a value. -/
def takesValue (flag : String) : Bool :=
  flag == "--config" || flag == "--cache-size"

/-- Takes in a flag that is joined to its value by an equals sign, or has none. -/
def takeSingle (r : Reading) (switch : Option String) (arg : String) : Option Reading :=
  match arg.splitOn "=" with
  | [flag] => takeFlag r switch flag
  | flag :: value => takeValue r flag (Text.joined "=" value)
  | [] => none

/-- What one place of the command line comes to. -/
inductive Place where
  | read (r : Reading) (rest : List String)
  | help
  | version
  | senseless
deriving Inhabited

/-- Reads the arguments of one place. Before the command, reading stops at the first that is no
    flag; after a double dash there are no flags any more. -/
def readPlace (before : Bool) (switch : Option String) (r : Reading) : List String → Place
  | [] => .read r []
  | [arg] =>
    if arg == "--" then .read r []
    else if arg == "--help" || arg == "-h" then .help
    else if before && (arg == "--version" || arg == "-V") then .version
    else if isFlag arg then
      match takeSingle r switch arg with
      | some r => .read r []
      | none => .senseless
    else if before then .read r [arg]
    else .read { r with others := arg :: r.others } []
  | arg :: value :: rest =>
    if arg == "--" then
      if before then .senseless
      else .read { r with others := (value :: rest).reverse ++ r.others } []
    else if arg == "--help" || arg == "-h" then .help
    else if before && (arg == "--version" || arg == "-V") then .version
    else if takesValue arg then
      if isFlag value then .senseless
      else
        match takeValue r arg value with
        | some r => readPlace before switch r rest
        | none => .senseless
    else if isFlag arg then
      match takeSingle r switch arg with
      | some r => readPlace before switch r (value :: rest)
      | none => .senseless
    else if before then .read r (arg :: value :: rest)
    else readPlace before switch { r with others := arg :: r.others } (value :: rest)

/-- The workload and the number that a command is given. -/
def workload? (others : List String) : Option (Workload × Option Int64) :=
  match others with
  | [name] => (Workload.ofName? name).map fun w => (w, none)
  | [name, n] =>
    match Workload.ofName? name, smallInteger? n with
    | some w, some n => some (w, some n)
    | _, _ => none
  | _ => none

/-- The switch of a command, if there is a command of that name. -/
def switchOf? (name : String) : Option (Option String) :=
  match name with
  | "run" => some (some "--stats")
  | "disasm" => some (some "--cold")
  | "stats" | "list" => some none
  | _ => none

/-- The command with a name and arguments. -/
def command? (name : String) (r : Reading) : Option Command :=
  let others := r.others.reverse
  match name with
  | "run" => (workload? others).map fun (w, n) => .run w n r.switched
  | "disasm" => (workload? others).map fun (w, n) => .disasm w n r.switched
  | "stats" => (workload? others).map fun (w, n) => .stats w n
  | "list" => if others.isEmpty then some .list else none
  | _ => none

/-- What arguments ask for; none if they make no sense. -/
def parse (arguments : List String) : Option Request :=
  match readPlace true none ⟨.none, false, []⟩ arguments with
  | .help => some .help
  | .version => some .version
  | .senseless | .read _ [] => none
  | .read outer (name :: rest) =>
    if name == "help" then some .help
    else
      match switchOf? name with
      | none => none
      | some switch =>
        match readPlace false switch ⟨.none, false, []⟩ rest with
        | .help => some .help
        | .read inner _ =>
          (command? name inner).map fun c => .execute (outer.flags.over inner.flags) c
        | .version | .senseless => none

/-! ### Execution -/

/-- What a command line comes to. -/
structure Result where
  exitCode : UInt8
  output : String
  errors : String
deriving DecidableEq, Inhabited

/-- The report of a failure and its causes, the failure first. -/
def failureReport (messages : List String) : String :=
  let causes := messages.drop 1
  let numbered := causes.zipIdx.map fun (cause, i) =>
    if causes.length = 1 then "    " ++ cause
    else
      let digits := i.repr
      String.ofList (List.replicate (5 - digits.length) ' ') ++ digits ++ ": " ++ cause
  let lines := ("Error: " ++ messages.headD "") ::
    (if causes.isEmpty then [] else "" :: "Caused by:" :: numbered)
  String.join (lines.map (· ++ "\n"))

/-- A failure. -/
def Result.failure (messages : List String) : Result :=
  ⟨1, "", failureReport messages⟩

/-- The settings that flags ask for, given what reading the settings file came to. -/
def settings (flags : Flags) (file : Except String String) : Except (List String) Settings := do
  let base ← match flags.config with
    | none => .ok Settings.standard
    | some path =>
      match file with
      | .error why => .error ["failed to read config '" ++ path ++ "'", why]
      | .ok text =>
        match Settings.ofText? text with
        | some s => .ok s
        | none => .error [Settings.spoilt]
  if flags.cacheSize = some 0 then .error ["--cache-size must be at least 1"]
  else
    .ok { base with
      cacheSize := flags.cacheSize.getD base.cacheSize
      inlining := base.inlining && !flags.noInline
      eager := base.eager && !flags.noEager }

/-- The text of a value that a run came to. -/
def resultText (v : Value) (w : World) : Except (List String) String :=
  match w.display? v with
  | some text => .ok text
  | none => .error ["a value that contains itself has no text"]

/-- Runs a workload, with its own argument unless another one is given. -/
def runWorkload (workload : Workload) (n : Int64) (w : World) :
    Except (List String) Value × World :=
  match workload.run n w with
  | (.ok v, w) => (.ok v, w)
  | (.error e, w) => (.error e.messages, w)

/-- A world in which the workloads are defined. -/
def prepared (s : Settings) : Except (List String) World :=
  match Workload.install (.boot s .standard .kept false) with
  | (.ok _, w) => .ok w
  | (.error e, _) => .error e.messages

/-- The world after a workload was run. -/
def warmed (workload : Workload) (n : Int64) (w : World) : Except (List String) World :=
  match runWorkload workload n w with
  | (.ok _, w) => .ok w
  | (.error messages, _) => .error messages

/-- The line of a workload in the list. -/
def listLine (w : Workload) : String :=
  Text.padRight 8 w.name ++ Text.padRight 12 w.selector ++ w.standardArgument.toInt.repr ++ "\n"

/-- What a command prints. -/
def perform (c : Command) (s : Settings) : Except (List String) String := do
  match c with
  | .list => return String.join (Workload.all.map listLine)
  | .run workload n statistics =>
    let (r, w) := runWorkload workload (n.getD workload.standardArgument) (← prepared s)
    let text ← resultText (← r) w
    return w.output ++ text ++ "\n" ++ (if statistics then w.thread.statistics.report else "")
  | .stats workload n =>
    let n := n.getD workload.standardArgument
    let (r, w) := runWorkload workload n (← prepared s)
    let text ← resultText (← r) w
    return w.output ++ "workload = \"" ++ workload.name ++ "\"\nargument = " ++ n.toInt.repr ++
      "\nresult = \"" ++ text ++ "\"\n\n[stats]\n" ++ w.thread.statistics.report
  | .disasm workload n cold =>
    let w ← prepared s
    let w ← if cold then .ok w else warmed workload (n.getD workload.standardArgument) w
    match workload.entry w with
    | (.error e, _) => .error e.messages
    | (.ok code, w) =>
      match w.listingText? code with
      | some text => return w.output ++ text
      | none => .error ["a value that contains itself has no text"]

/-- The name and number of this program. -/
def versionText : String := "sprig 0.1.0\n"

/-- A reminder of the commands. -/
def helpText : String :=
  "Usage: sprig [OPTIONS] <COMMAND>\n\n" ++
  "Commands:\n" ++
  "  run     Run a workload and print its result\n" ++
  "  disasm  Print the bytecode of a workload, quickened state included after a run\n" ++
  "  stats   Run a workload and print a TOML report with VM statistics\n" ++
  "  list    List the available workloads\n"

/-- The settings file that a command line names. -/
def fileNamed (arguments : List String) : Option String :=
  match parse arguments with
  | some (.execute flags _) => flags.config
  | _ => none

/-- What a command line comes to, given what reading the file it names came to. -/
def execute (arguments : List String) (file : Except String String) : Result :=
  match parse arguments with
  | none => ⟨2, "", helpText⟩
  | some .help => ⟨0, helpText, ""⟩
  | some .version => ⟨0, versionText, ""⟩
  | some (.execute flags c) =>
    match settings flags file with
    | .error messages => .failure messages
    | .ok s =>
      match perform c s with
      | .error messages => .failure messages
      | .ok text => ⟨0, text, ""⟩

/-! ### Files -/

/-- Why a file is not read that is not there. -/
def notThere : String := "No such file or directory (os error 2)"

/-- The parts of a path that name something. -/
def pathParts (path : String) : List String :=
  (path.splitOn "/").filter fun part => part != "" && part != "."

/-- What reading a path comes to in a directory with nothing but the files given. -/
def readIn (files : List (String × String)) (path : String) : Except String String :=
  let parts := pathParts path
  if path.isEmpty || path.startsWith "/" then .error notThere
  else if parts.isEmpty then .error "Is a directory (os error 21)"
  else
    match files.find? fun (name, _) => pathParts name == parts with
    | some (_, text) =>
      if path.endsWith "/" || path.endsWith "/." then .error "Not a directory (os error 20)"
      else .ok text
    | none =>
      if files.any fun (name, _) => (pathParts name).isPrefixOf parts then
        .error "Not a directory (os error 20)"
      else if files.any fun (name, _) => parts.isPrefixOf (pathParts name) then
        .error "Is a directory (os error 21)"
      else .error notThere

end CommandLine

end Parley
