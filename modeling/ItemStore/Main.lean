import ItemStore.Command.Run

/-! The command line: it finds the sources that a request reads, and prints the outcome. -/
namespace ItemStore

def textOfBytes (bytes : ByteArray) : Except ReadFault String :=
  match String.fromUTF8? bytes with
  | some text => .ok text
  | none => .error .notText

/-- A directory can be opened, so that its fault comes with reading and names no path. -/
def readFile (path : String) : IO (Except ReadFault String) := do
  try
    return textOfBytes (← IO.FS.readBinFile path)
  catch
    | .noFileOrDirectory .. => return .error .missing
    | .permissionDenied .. => return .error .denied
    | .inappropriateType (some _) .. => return .error .notDirectory
    | .invalidArgument _ _ "name too long" => return .error .nameTooLong
    | _ => return .error .directory

def readSources (c : Command) : IO Sources := do
  let file ← match c.task with
    | .compile path => readFile path
    | .key path => readFile path
    | _ => pure (.error .missing)
  let input ← match c.input with
    | none => textOfBytes <$> (← IO.getStdin).readBinToEnd
    | some "-" => textOfBytes <$> (← IO.getStdin).readBinToEnd
    | some _ => pure (.ok "")
  return ⟨fun _ => file, input⟩

end ItemStore

open ItemStore in
def main (args : List String) : IO UInt32 := do
  let sources ← match Request.ofArguments? false args with
    | some (.run c) => readSources c
    | _ => pure ⟨fun _ => .error .missing, .ok ""⟩
  let outcome := Outcome.ofArguments args sources
  IO.print outcome.output
  IO.eprint outcome.errors
  return UInt32.ofNat outcome.status
