import FrameCode.CommandLine.Folder
import FrameCode.CommandLine.Request
import FrameCode.Format
import FrameCode.Machine.Run
import FrameCode.Source.Printer

/-!
# Sessions

What the commands answer, given the files they are pointed at and a parser of documents: an exit
status and the text on both channels.  `check` and `fmt` never run a program; `run` takes a bound
on the number of steps, and there is no answer when it is used up.
-/

namespace FrameCode.CommandLine

/-- The exit status and the text on both channels. -/
structure Response where
  status : Nat
  out : String
  err : String
  deriving DecidableEq, Repr

namespace Response

/-- The response to arguments that make no request. -/
def badArguments : Response := ⟨10, "", "error: invalid arguments\n"⟩

/-- The response to a failure before anything is written. -/
def failure (status : Nat) (message : String) : Response := ⟨status, "", s!"error: {message}\n"⟩

/-- The response to a path that cannot be read. -/
def unreadable (path reason : String) : Response := failure 11 s!"cannot read '{path}': {reason}"

/-- The version of the program. -/
def version : Response := ⟨0, "ippi 0.1.0\n", ""⟩

/-- The response with the help text. -/
def help : Response where
  status := 0
  out := "Usage: ippi <COMMAND>\n\nCommands:\n"
    ++ "  run <SOURCE> [--input <INPUT>]  Assemble and execute a program\n"
    ++ "  check <SOURCE>                  Validate a program without running it\n"
    ++ "  fmt <SOURCE>                    Print a program in canonical form\n"
    ++ "  help                            Print this message\n"
  err := ""

end Response

/-! ## Programs -/

variable (parse : Xml.Parser)

/-- The program at a path. -/
def load (files : String → Entry) (path : String) : Except Response Program :=
  match (files path).text with
  | .error reason => .error (.unreadable path reason)
  | .ok text => (Program.ofText parse text).mapError fun e => .failure e.status e.message

/-- The program at a path, in order. -/
def loadOrdered (files : String → Entry) (path : String) : Except Response Program :=
  match load parse files path with
  | .error r => .error r
  | .ok p => p.ordered.mapError fun e => .failure e.status e.message

/-! ## Commands -/

/-- Checks the order numbers and the labels of a program. -/
def check (files : String → Entry) (path : String) : Response :=
  match loadOrdered parse files path with
  | .error r => r
  | .ok p =>
    match p.undefinedLabels with
    | [] => ⟨0, s!"OK: {path} ({p.instructions.length} instructions)\n", ""⟩
    | undefined =>
      let line := fun (order, name) =>
        s!"error: {(Cause.undefinedLabel name).message order}\n"
      ⟨(Cause.undefinedLabel "").status, "", String.join (undefined.map line)⟩

/-- Prints a program in order and in canonical form. -/
def fmt (files : String → Entry) (path : String) : Response :=
  match loadOrdered parse files path with
  | .error r => r
  | .ok p => ⟨0, p.toSource, ""⟩

/-- The input of a run: the file it is pointed at, or else the standard input. -/
def inputOf (files : String → Entry) (stdin : Input) : Option String → Except Response Input
  | none => .ok stdin
  | some path =>
    match (files path).opened with
    | .error reason => .error (.unreadable path reason)
    | .ok bytes => .ok ⟨bytes⟩

/-- A machine ready for the program at a path. -/
def prepare (files : String → Entry) (stdin : Input) (source : String) (input : Option String) :
    Except Response Machine :=
  match load parse files source with
  | .error r => .error r
  | .ok p => (inputOf files stdin input).map fun input => .new p input .reliable .reliable

/-- The response to a run that has ended. -/
def report (result : Except RunError Halt) (m : Machine) : Response :=
  match result with
  | .ok h => ⟨h.status, m.out.text, m.diagnostics.text⟩
  | .error e => ⟨e.status, m.out.text, m.diagnostics.text ++ s!"runtime error: {e.message}\n"⟩

/-- Runs the program at a path. -/
def run (bound : Nat) (files : String → Entry) (stdin : Input) (source : String)
    (input : Option String) : Option Response :=
  match prepare parse files stdin source input with
  | .error r => some r
  | .ok m => (m.run bound).map fun (result, m) => report result m

/-- The response to a request. -/
def respond (bound : Nat) (files : String → Entry) (stdin : Input) : Request → Option Response
  | .help => some .help
  | .version => some .version
  | .run source input => run parse bound files stdin source input
  | .check source => some (check parse files source)
  | .fmt source => some (fmt parse files source)

end FrameCode.CommandLine
