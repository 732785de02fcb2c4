import ItemStore.Codec.Response
import ItemStore.Command.Arguments
import ItemStore.Json.Reader
import ItemStore.Key
import ItemStore.Schema.Description
import ItemStore.Statement

/-! What a command answers, given the files and the standard input that it finds. -/
namespace ItemStore

inductive ReadFault where
  | missing
  | denied
  /-- The path leads through what is no directory. -/
  | notDirectory
  | directory
  | nameTooLong
  | notText

def ReadFault.message : ReadFault → String
  | .missing => "No such file or directory (os error 2)"
  | .denied => "Permission denied (os error 13)"
  | .notDirectory => "Not a directory (os error 20)"
  | .directory => "Is a directory (os error 21)"
  | .nameTooLong => "File name too long (os error 36)"
  | .notText => "stream did not contain valid UTF-8"

structure Sources where
  file : String → Except ReadFault String
  input : Except ReadFault String

inductive CommandError where
  | schemaUnreadable (path : String) (fault : ReadFault)
  | schemaNotJson (path : String)
  | inputUnreadable (fault : ReadFault)
  | inputNotJson
  | failed (e : Error)

def CommandError.message : CommandError → String
  | .schemaUnreadable path fault => "cannot read schema " ++ path ++ ": " ++ fault.message
  | .schemaNotJson path => "schema " ++ path ++ " is not valid JSON"
  | .inputUnreadable fault => fault.message
  | .inputNotJson => "invalid JSON input"
  | .failed e => e.message

def Json.maxNesting : Nat := 127

namespace Command

def readSchema (sources : Sources) (path : String) : Except CommandError Schema :=
  match sources.file path with
  | .error fault => .error (.schemaUnreadable path fault)
  | .ok text =>
    match Json.ofText? Json.maxNesting text.toList with
    | none => .error (.schemaNotJson path)
    | some description => (Schema.ofDescription description).mapError fun e => .failed (.schema e)

def readInput (sources : Sources) (input : Option String) : Except CommandError Json := do
  let text ← match input with
    | none => sources.input.mapError .inputUnreadable
    | some "-" => sources.input.mapError .inputUnreadable
    | some text => .ok text
  match Json.ofText? Json.maxNesting text.toList with
  | none => .error .inputNotJson
  | some v => .ok v

/-- An array is built item by item, and anything else is one item. -/
def buildKeys (schema : Schema) : Json → Except Error Json
  | .array items => do
    return .array (← items.mapM fun v => do return (← schema.buildKeyOfJson v).toJson)
  | v => do return (← schema.buildKeyOfJson v).toJson

def encode (v : Json) : Except Error Json := do
  let value ← (Value.ofJson? v).mapError Error.codec
  let tagged ← value.encode.mapError Error.codec
  return tagged.toJson

def decode (v : Json) : Except Error Json := do
  return (← (Response.decode v).mapError Error.codec).toJson

/-- The document that a command answers. The schema is read before the input. -/
def answer (c : Command) (sources : Sources) : Except CommandError Json :=
  match c.task with
  | .compile path => do
    let schema ← readSchema sources path
    let filter ← readInput sources c.input
    return (← (Statement.ofJson schema filter).mapError .failed).toJson
  | .key path => do
    let schema ← readSchema sources path
    let items ← readInput sources c.input
    (buildKeys schema items).mapError .failed
  | .encode => do (encode (← readInput sources c.input)).mapError .failed
  | .decode => do (decode (← readInput sources c.input)).mapError .failed

end Command

structure Outcome where
  status : Nat
  output : String
  errors : String

namespace Outcome

def ofCommand (c : Command) (sources : Sources) : Outcome :=
  match c.answer sources with
  | .ok v => ⟨0, (if c.pretty then v.pretty 0 else v.compact) ++ "\n", ""⟩
  | .error e => ⟨1, "", "error: " ++ e.message ++ "\n"⟩

/-- Arguments that make no request have status two. -/
def ofArguments (args : List String) (sources : Sources) : Outcome :=
  match Request.ofArguments? false args with
  | none => ⟨2, "", "error: invalid arguments\n"⟩
  | some .version => ⟨0, "dynaql 0.1.0\n", ""⟩
  | some (.run c) => ofCommand c sources

end Outcome
end ItemStore
