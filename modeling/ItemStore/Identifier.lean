/-!
Names in statements. A quoted name is closed by the first quote that is not doubled, so it tells by
itself where it ends; a name of dotted plain segments stands without quotes.
-/
namespace ItemStore.Identifier

def doubled : List Char → List Char
  | [] => []
  | c :: cs => if c = '"' then '"' :: '"' :: doubled cs else c :: doubled cs

def quoted (name : List Char) : List Char := '"' :: doubled name ++ ['"']

def segments : List Char → List (List Char)
  | [] => [[]]
  | c :: cs =>
    if c = '.' then [] :: segments cs
    else
      match segments cs with
      | [] => [[c]]
      | s :: ss => (c :: s) :: ss

/-- ASCII letters, digits and underscores, the first of them no digit. -/
def isPlain : List Char → Bool
  | [] => false
  | c :: cs => (c.isAlpha || c == '_') && cs.all fun c => c.isAlphanum || c == '_'

def path (name : List Char) : List Char :=
  if (segments name).all isPlain then name else quoted name

def quotedText (name : String) : String := String.ofList (quoted name.toList)

def pathText (name : String) : String := String.ofList (path name.toList)

end ItemStore.Identifier
