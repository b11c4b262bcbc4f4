import FrameCode.CommandLine.Session
import FrameCode.Xml.Tree

/-!
# Command line program

Reads the arguments, the files they name and the standard input, and prints the response.  A run
steps until it ends, and takes a line of the standard input only when an instruction reads one.
-/

namespace FrameCode.CommandLine

/-- What is found at a path of the file system. -/
def entryAt (path : String) : IO Entry := do
  try
    let bytes ← IO.FS.readBinFile path
    return .file bytes.data.toList
  catch
    | .noFileOrDirectory .. => return .missing
    | .inappropriateType .. => return .directory
    | e => return .unavailable (toString e)

/-- Prints a response and gives its exit status. -/
def deliver (r : Response) : IO UInt32 := do
  IO.print r.out
  IO.eprint r.err
  return r.status.toUInt32

/-- The bytes of a stream up to and including the next newline, after those read so far,
the latest first. -/
partial def lineBytes (stream : IO.FS.Stream) (soFar : List UInt8) : IO (List UInt8) := do
  match (← stream.read 1).data.toList with
  | [] => return soFar.reverse
  | b :: _ => if b = 10 then return (b :: soFar).reverse else lineBytes stream (b :: soFar)

/-- The machine with one more line of the standard input, if its next instruction reads one. -/
def feed (fromStdin : Bool) (m : Machine) : IO Machine := do
  if fromStdin && m.input.rest.isEmpty && (m.fetch?.bind Instruction.opcode?) == some .read then
    return { m with input := ⟨← lineBytes (← IO.getStdin) []⟩ }
  else return m

/-- Steps until the run ends. -/
partial def drive (fromStdin : Bool) (m : Machine) : IO (Except Fault Halt × Machine) := do
  match (← feed fromStdin m).step with
  | .next m => drive fromStdin m
  | .halted h m => return (.ok h, m)
  | .failed e m => return (.error e, m)

/-- Runs the program of a machine from its start. -/
def runToEnd (fromStdin : Bool) (m : Machine) : IO Response := do
  match m.start with
  | .error e => return report (.error (.unordered e)) m
  | .ok m =>
    let (result, m) ← drive fromStdin m
    let (result, m) := m.finish result
    return report result m

/-- The response to a request, with the file system as the files. -/
def serve (request : Request) : IO Response := do
  match request with
  | .help => return .help
  | .version => return .version
  | .check source =>
    let entry ← entryAt source
    return check Xml.parse? (fun _ => entry) source
  | .fmt source =>
    let entry ← entryAt source
    return fmt Xml.parse? (fun _ => entry) source
  | .run source input =>
    let program ← entryAt source
    let data ← input.mapM entryAt
    let files := fun path => if path = source then program else data.getD .missing
    match prepare Xml.parse? files ⟨[]⟩ source input with
    | .error r => return r
    | .ok m => runToEnd input.isNone m

/-- Answers arguments and gives the exit status. -/
def answer (args : List String) : IO UInt32 := do
  match Request.ofArguments? args with
  | none => deliver .badArguments
  | some request => deliver (← serve request)

end FrameCode.CommandLine

/-- The command line program. -/
def main (args : List String) : IO UInt32 := FrameCode.CommandLine.answer args
