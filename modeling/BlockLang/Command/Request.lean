import BlockLang.Path

/-!
What the arguments of the command ask for.
-/

namespace BlockLang

inductive Flag where
  | starter
  | checkOnly
  | plainCenter
  deriving DecidableEq, Repr

def Flag.name : Flag → String
  | starter => "init"
  | checkOnly => "check"
  | plainCenter => "no-svg-center"

def Flag.all : List Flag := [.starter, .checkOnly, .plainCenter]

theorem Flag.mem_all (f : Flag) : f ∈ Flag.all := by
  cases f <;> simp [Flag.all]

theorem Flag.name_injective {f g : Flag} (h : f.name = g.name) : f = g := by
  cases f <;> cases g <;> simp_all [Flag.name]

-- What is told about the work to be done: paths, the first of which is the directory of the project
-- and the second one the archive, and flags.
structure Options where
  paths : List Path
  flags : List Flag
  deriving DecidableEq, Repr

namespace Options

def none : Options := ⟨[], []⟩

def input (o : Options) : Path :=
  o.paths.head?.getD ⟨"."⟩

def output? (o : Options) : Option Path :=
  o.paths[1]?

def has (o : Options) (f : Flag) : Bool :=
  f ∈ o.flags

end Options

inductive Request where
  | usage
  | version
  | work (options : Options)
  deriving DecidableEq, Repr

inductive UsageError where
  | unexpected (argument : String)
  | repeated (flag : Flag)
  | valueOf (name value : String)
  | emptyPath
  deriving DecidableEq, Repr

def usageLine : String :=
  "Usage: blockscript [OPTIONS] [INPUT] [OUTPUT]\n"

def usageText : String :=
  "Compile a directory of .gs sources into a Scratch 3 project (.sb3).\n\n" ++ usageLine ++
  "\nArguments:\n" ++
  "  [INPUT]   Project directory holding stage.gs and the sprite sources [default: .]\n" ++
  "  [OUTPUT]  Output archive. Defaults to `<INPUT>/<directory name>.sb3`\n" ++
  "\nOptions:\n" ++
  "      --init           Write a starter project into INPUT and exit.\n" ++
  "      --check          Compile and report errors without writing an archive.\n" ++
  "      --no-svg-center  Do not read SVG sizes to center costume rotation points.\n" ++
  "  -h, --help           Print help\n" ++
  "  -V, --version        Print version\n"

def versionText : String := "blockscript 0.4.0\n"

namespace UsageError

def message : UsageError → String
  | unexpected argument => s!"unexpected argument '{argument}' found"
  | repeated flag => s!"the argument '--{flag.name}' cannot be used multiple times"
  | valueOf name value => s!"unexpected value '{value}' for '--{name}' found; no more were expected"
  | emptyPath => "a value is required for a path but none was supplied"

def render (e : UsageError) : String :=
  s!"error: {e.message}\n\n{usageLine}\nFor more information, try '--help'.\n"

end UsageError

namespace Request

def addPath (o : Options) (argument : String) : Except UsageError Options :=
  if o.paths.length ≥ 2 then .error (.unexpected argument)
  else if argument = "" then .error .emptyPath
  else .ok { o with paths := o.paths ++ [⟨argument⟩] }

def addFlag (o : Options) (f : Flag) : Except UsageError Options :=
  if o.has f then .error (.repeated f) else .ok { o with flags := o.flags ++ [f] }

def ofDashed (o : Options) (argument : String) : Except UsageError (Request ⊕ Options) :=
  match argument.toList with
  | '-' :: '-' :: name =>
    let (name, value) := match Text.splitOnce '=' name with
      | some (name, value) => (String.ofList name, some (String.ofList value))
      | none => (String.ofList name, none)
    let flag := Flag.all.find? (·.name = name)
    if name ≠ "help" && name ≠ "version" && flag.isNone then .error (.unexpected argument)
    else
      match value, flag with
      | some value, _ => .error (.valueOf name value)
      | none, some flag => (addFlag o flag).map .inr
      | none, none => .ok (.inl (if name = "help" then .usage else .version))
  | '-' :: 'h' :: _ => .ok (.inl .usage)
  | '-' :: 'V' :: _ => .ok (.inl .version)
  | _ => .error (.unexpected argument)

-- Reads arguments one by one. After two dashes on their own, all of them are paths.
def read (o : Options) (pathsOnly : Bool) : List String → Except UsageError Request
  | [] => .ok (.work o)
  | argument :: arguments =>
    if pathsOnly || argument = "-" || argument.toList.head? ≠ some '-' then
      match addPath o argument with
      | .error e => .error e
      | .ok o => read o pathsOnly arguments
    else if argument = "--" then read o true arguments
    else
      match ofDashed o argument with
      | .error e => .error e
      | .ok (.inl question) => .ok question
      | .ok (.inr o) => read o false arguments

def ofArguments (arguments : List String) : Except UsageError Request :=
  read .none false arguments

end Request

end BlockLang
