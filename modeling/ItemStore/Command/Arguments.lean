/-!
The commands, and how arguments name one. Options stand before or behind the command's name, each
at most once on either side, and one argument at most is no option. After `--` nothing is one.
-/
namespace ItemStore

inductive Task where
  | compile (schemaPath : String)
  | key (schemaPath : String)
  | encode
  | decode
deriving DecidableEq

/-- Without an input, or with a dash for it, the input is what stands on standard input. -/
structure Command where
  task : Task
  pretty : Bool
  input : Option String
deriving DecidableEq

inductive Request where
  | version
  | run (command : Command)
deriving DecidableEq

namespace Request

structure Given where
  pretty : Bool := false
  schemaPath : Option String := none
  input : Option String := none

namespace Given

def setPretty? (g : Given) : Option Given := if g.pretty then none else some { g with pretty := true }

def setSchemaPath? (g : Given) (path : String) : Option Given :=
  if path = "" ∨ g.schemaPath.isSome then none else some { g with schemaPath := some path }

def setInput? (g : Given) (text : String) : Option Given :=
  if g.input.isSome then none else some { g with input := some text }

end Given

/-- A dash by itself is no option. -/
def isOption (arg : String) : Bool :=
  match arg.toList with
  | '-' :: _ :: _ => true
  | _ => false

/-- The letters behind one dash: the options that they are, and the path that the last of them
brings along or still asks for. -/
def letters? (takesSchema : Bool) (g : Given) : List Char → Option (Given × Bool)
  | [] => some (g, false)
  | 'p' :: cs => g.setPretty?.bind fun g => letters? takesSchema g cs
  | 's' :: cs =>
    if takesSchema then
      match cs with
      | [] => some (g, true)
      | '=' :: path => (g.setSchemaPath? (String.ofList path)).map (·, false)
      | path => (g.setSchemaPath? (String.ofList path)).map (·, false)
    else none
  | _ => none

def schemaOption? (arg : String) : Option String :=
  if arg.startsWith "--schema=" then some (String.ofList (arg.toList.drop 9)) else none

def inputs? (g : Given) : List String → Option Given
  | [] => some g
  | arg :: args => (g.setInput? arg).bind fun g => inputs? g args

def given? (takesSchema : Bool) (g : Given) : List String → Option Given
  | [] => some g
  | arg :: args =>
    if arg = "--" then inputs? g args
    else if !isOption arg then (g.setInput? arg).bind fun g => given? takesSchema g args
    else if arg = "--pretty" then g.setPretty?.bind fun g => given? takesSchema g args
    else
      match arg.toList with
      | '-' :: '-' :: _ =>
        if !takesSchema then none
        else
          match schemaOption? arg with
          | some path => (g.setSchemaPath? path).bind fun g => given? takesSchema g args
          | none => if arg = "--schema" then path? g args else none
      | _ :: cs =>
        match letters? takesSchema g cs with
        | some (g, true) => path? g args
        | some (g, false) => given? takesSchema g args
        | none => none
      | [] => none
where
  path? (g : Given) : List String → Option Given
    | [] => none
    | path :: args =>
      if isOption path then none
      else (g.setSchemaPath? path).bind fun g => given? takesSchema g args

def command? (pretty : Bool) (name : String) (args : List String) : Option Command :=
  match name with
  | "compile" => withSchema? .compile
  | "key" => withSchema? .key
  | "encode" => plain? .encode
  | "decode" => plain? .decode
  | _ => none
where
  withSchema? (task : String → Task) : Option Command := do
    let g ← given? true {} args
    return ⟨task (← g.schemaPath), pretty || g.pretty, g.input⟩
  plain? (task : Task) : Option Command := do
    let g ← given? false {} args
    return ⟨task, pretty || g.pretty, g.input⟩

/-- The letters behind one dash before the command's name. Whoever asks for the version gets it,
whatever follows. -/
def leadingLetters? (pretty : Bool) : List Char → Option (Bool × Bool)
  | [] => some (pretty, false)
  | 'p' :: cs => if pretty then none else leadingLetters? true cs
  | 'V' :: _ => some (pretty, true)
  | _ => none

def ofArguments? (pretty : Bool) : List String → Option Request
  | [] => none
  | arg :: args =>
    if arg = "--version" then some .version
    else if arg = "--pretty" then if pretty then none else ofArguments? true args
    else if isOption arg then
      match leadingLetters? pretty (arg.toList.drop 1) with
      | some (_, true) => some .version
      | some (pretty, false) => ofArguments? pretty args
      | none => none
    else (command? pretty arg args).map .run

end Request
end ItemStore
