import EcatDevice.Make.Run

/-! # The command line

The arguments `[-v] [--out-dir DIR] FILE` ask to compile a file and to run its make directives.
Files that directives write lie below the output directory.
-/

namespace EcatDevice.CommandLine

structure Options where
  file : Option String := none
  outDir : Option String := none
  verbose : Bool := false
  deriving DecidableEq, Repr

inductive Invocation where
  /-- compile `file` and write below `outDir` -/
  | compile (file outDir : String) (verbose : Bool)
  | help
  | version
  /-- not a command line of the program -/
  | misuse
  deriving DecidableEq, Repr

namespace Options

/-- Takes a file, once. Paths are not empty. -/
def setFile? (o : Options) (path : String) : Option Options :=
  if o.file.isSome || path = "" then none else some { o with file := some path }

def setOutDir? (o : Options) (path : String) : Option Options :=
  if o.outDir.isSome || path = "" then none else some { o with outDir := some path }

def setVerbose? (o : Options) : Option Options :=
  if o.verbose then none else some { o with verbose := true }

def finish (o : Options) : Invocation :=
  match o.file with
  | some file => .compile file (o.outDir.getD ".") o.verbose
  | none => .misuse

end Options

/-- Whether an argument can be the value of an option: it does not look like an option. -/
def isValue (arg : String) : Bool :=
  !arg.startsWith "-" || arg = "-"

inductive Cluster where
  | options (o : Options)
  /-- the cluster ends in `-o`, whose value is the next argument -/
  | wantsOutDir (o : Options)
  | done (i : Invocation)

def readCluster (o : Options) : List Char → Cluster
  | [] => .options o
  | 'v' :: rest =>
    match o.setVerbose? with
    | some o => readCluster o rest
    | none => .done .misuse
  | 'h' :: _ => .done .help
  | 'V' :: _ => .done .version
  | ['o'] => .wantsOutDir o
  | 'o' :: rest =>
    let value := if rest.head? = some '=' then rest.tail else rest
    match o.setOutDir? (String.ofList value) with
    | some o => .options o
    | none => .done .misuse
  | _ => .done .misuse

def readPaths (o : Options) : List String → Invocation
  | [] => o.finish
  | arg :: rest =>
    match o.setFile? arg with
    | some o => readPaths o rest
    | none => .misuse

def readArgs (o : Options) : List String → Invocation
  | [] => o.finish
  | arg :: rest =>
    let takeOutDir (o : Options) : Invocation :=
      match rest with
      | [] => .misuse
      | value :: rest =>
        if isValue value then
          match o.setOutDir? value with
          | some o => readArgs o rest
          | none => .misuse
        else .misuse
    if arg = "--" then readPaths o rest
    else if arg = "--help" then .help
    else if arg = "--version" then .version
    else if arg = "--verbose" then
      match o.setVerbose? with
      | some o => readArgs o rest
      | none => .misuse
    else if arg = "--out-dir" then takeOutDir o
    else if arg.startsWith "--out-dir=" then
      match o.setOutDir? (String.ofList (arg.toList.drop 10)) with
      | some o => readArgs o rest
      | none => .misuse
    else if isValue arg then
      match o.setFile? arg with
      | some o => readArgs o rest
      | none => .misuse
    else if arg.startsWith "--" then .misuse
    else
      match readCluster o (arg.toList.drop 1) with
      | .options o => readArgs o rest
      | .wantsOutDir o => takeOutDir o
      | .done i => i

def Invocation.ofArgs (args : List String) : Invocation :=
  readArgs {} args

structure Report where
  exitCode : Nat
  stdout : String := ""
  stderr : String := ""
  deriving DecidableEq, Repr

def usage : String :=
  "EtherCAT CoE object dictionary compiler\n\nUsage: coedsl [OPTIONS] <FILE>\n\n" ++
  "Arguments:\n  <FILE>  DSL source file\n\nOptions:\n" ++
  "  -o, --out-dir <OUT_DIR>  Directory relative output paths are written to [default: .]\n" ++
  "  -v, --verbose            Dump the resolved dictionary and log at debug level\n" ++
  "  -h, --help               Print help\n" ++
  "  -V, --version            Print version\n"

def failureText (failure cause : String) : String :=
  "Error: " ++ failure ++ "\n\nCaused by:\n    " ++ cause ++ "\n"

def directiveLine (file : String) (failure : Make.Failure) : String :=
  file ++ ":" ++ failure.directive.place.display ++ ": make " ++ failure.directive.generator ++ ": "
    ++ failure.error.message ++ "\n"

variable {m : Type → Type} [Monad m]

def compileFile (engine : Regex.Engine) (storage : Storage m) (date file outDir : String)
    (verbose : Bool) : m Report := do
  match ← storage.read file with
  | .error fault =>
    return { exitCode := 1
             stderr := failureText (Error.io file fault).message fault.message }
  | .ok source =>
    match compile engine source with
    | .error e =>
      return { exitCode := 1, stderr := failureText ("compiling " ++ file) e.message }
    | .ok compiled =>
      let stdout := if verbose then compiled.device.dictionary.display else ""
      let workshop : Make.Workshop m := { registry := Registry.standard storage, outDir, date }
      let (failures, _) ← (Make.run workshop compiled.makes).run compiled.device
      if failures.isEmpty then return { exitCode := 0, stdout }
      return {
        exitCode := 1, stdout
        stderr := String.join (failures.map (directiveLine file))
          ++ "Error: " ++ Text.decimal failures.length ++ " of "
          ++ Text.decimal compiled.makes.length ++ " make directives failed\n" }

def execute (engine : Regex.Engine) (storage : Storage m) (date : String) (args : List String) :
    m Report :=
  match Invocation.ofArgs args with
  | .compile file outDir verbose => compileFile engine storage date file outDir verbose
  | .help => return { exitCode := 0, stdout := usage }
  | .version => return { exitCode := 0, stdout := "coedsl 0.1.0\n" }
  | .misuse => return { exitCode := 2, stderr := usage }

end EcatDevice.CommandLine
