/-!
# Requests on the command line

The command is the first argument: `run`, `check` or `fmt` with the path of a program, or `help`.
`run` also takes `--input` with a path.  Options are written out in full; `--` ends them.

`Request.ofArguments?` answers `none` for arguments that make no request.  Help is given as soon
as it is asked for, unless an earlier argument is wrong.
-/

namespace FrameCode.CommandLine

/-- The commands that take a program. -/
inductive Command where
  | run
  | check
  | fmt
  deriving DecidableEq, Repr

/-- The command with the given name. -/
def Command.ofName? : String → Option Command
  | "run" => some run
  | "check" => some check
  | "fmt" => some fmt
  | _ => none

/-- What is asked for. -/
inductive Request where
  | help
  | version
  | run (source : String) (input : Option String)
  | check (source : String)
  | fmt (source : String)
  deriving DecidableEq, Repr

/-! ## Kinds of arguments -/

/-- An argument, as long as options are not ended. -/
inductive Argument where
  | separator
  | long (name : String) (value : Option String)
  | short (letter : Char)
  | plain (text : String)
  deriving DecidableEq, Repr

/-- The kind of an argument.  A long option can have a value after an equals sign, and a hyphen
alone is a plain argument. -/
def Argument.ofString (s : String) : Argument :=
  match s.toList with
  | ['-', '-'] => separator
  | '-' :: '-' :: cs =>
    let name := String.ofList (cs.takeWhile (· != '='))
    match cs.dropWhile (· != '=') with
    | [] => long name none
    | _ :: value => long name (some (String.ofList value))
  | '-' :: c :: _ => short c
  | _ => plain s

/-! ## Arguments of a command -/

/-- What has been given to a command so far. -/
structure Given where
  source : Option String
  input : Option String
  deriving DecidableEq, Repr

namespace Given

/-- Takes a plain argument: the path of the program, once, and not empty. -/
def takeSource? (g : Given) (s : String) : Option Given :=
  if g.source.isNone && s != "" then some { g with source := some s } else none

/-- Takes the value of `--input`: once, for `run` only, and not empty. -/
def takeInput? (g : Given) (c : Command) (s : String) : Option Given :=
  if c == .run && g.input.isNone && s != "" then some { g with input := some s } else none

/-- The request of a command once all arguments are taken. -/
def request? (g : Given) (c : Command) : Option Request :=
  g.source.map fun source =>
    match c with
    | .run => .run source g.input
    | .check => .check source
    | .fmt => .fmt source

/-- Takes arguments after the end of options. -/
def takePlain? (g : Given) (c : Command) (args : List String) : Option Request :=
  (args.foldlM takeSource? g).bind (·.request? c)

/-- Takes arguments. -/
def take? (g : Given) (c : Command) : List String → Option Request
  | [] => g.request? c
  | s :: rest =>
    match Argument.ofString s with
    | .separator => g.takePlain? c rest
    | .long "help" none => some .help
    | .long "input" (some value) => do take? (← g.takeInput? c value) c rest
    | .long "input" none =>
      match rest with
      | [] => none
      | value :: rest =>
        match Argument.ofString value with
        | .plain value => do take? (← g.takeInput? c value) c rest
        | _ => none
    | .long _ _ => none
    | .short letter => if letter = 'h' then some .help else none
    | .plain s => do take? (← g.takeSource? s) c rest

end Given

/-! ## All arguments -/

/-- The request for help on a command, if any, and nothing else. -/
def helpOn? : List String → Option Request
  | [] => some .help
  | [name] => if name == "help" || (Command.ofName? name).isSome then some .help else none
  | _ => none

/-- The request that arguments make. -/
def Request.ofArguments? : List String → Option Request
  | [] => none
  | s :: rest =>
    match Command.ofName? s with
    | some c => Given.take? ⟨none, none⟩ c rest
    | none =>
      if s = "help" then helpOn? rest
      else
        match Argument.ofString s with
        | .long "help" none => some .help
        | .long "version" none => some .version
        | .short letter =>
          if letter = 'h' then some .help else if letter = 'V' then some .version else none
        | _ => none

end FrameCode.CommandLine
