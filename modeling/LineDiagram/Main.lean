import LineDiagram.CommandLine.Run

/-!
# The program

Runs the command line on the real file system and the standard streams.
-/

namespace LineDiagram.CommandLine

/-- What an error of the system says about a file. -/
def FileFault.ofError (e : IO.Error) : FileFault :=
  match e with
  | .noFileOrDirectory _ _ _ => .missing
  | .inappropriateType _ code message =>
    if code == 21 then .isDirectory
    else if code == 20 then .notDirectory
    else .other code.toNat message.toList
  | e => .other 5 (toString e).toList

/-- Does something with a file. -/
def guarded {α : Type} (action : IO α) : IO (Except FileFault α) := do
  match ← action.toBaseIO with
  | .ok a => return .ok a
  | .error e => return .error (.ofError e)

/-- The real surroundings of the program. -/
def systemHost : Host IO where
  input := do
    let stdin ← IO.getStdin
    if ← stdin.isTty then return none
    return some (← stdin.readToEnd).toList
  read path := guarded do
    return (← IO.FS.readBinFile (String.ofList path.toText)).toList
  write path t := guarded do
    IO.FS.writeFile (String.ofList path.toText) (String.ofList t)
  out t := IO.print (String.ofList t)
  err t := IO.eprint (String.ofList t)

end LineDiagram.CommandLine

/-- Runs the program. -/
def main (args : List String) : IO UInt32 := do
  let code ← LineDiagram.CommandLine.run LineDiagram.CommandLine.systemHost (args.map String.toList)
  return code.toUInt32
