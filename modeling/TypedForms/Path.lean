import TypedForms.Text.Parens
import TypedForms.Text.Split

/-! Slash-separated paths as texts. -/
namespace TypedForms.Path

def components (path : String) : List String :=
  (Text.split '/' path.toList).map String.ofList

/-- The most bytes that a path may have. -/
def limit : Nat := 4095

/-- The most bytes that a name in a directory may have. -/
def nameLimit : Nat := 255

/-- Whether a text can be the name of something in a directory. -/
def isName (text : String) : Bool :=
  text != "" && text != "." && text != ".." && !text.toList.contains '/' &&
    !text.toList.contains '\x00' && text.utf8ByteSize ≤ nameLimit

def isAbsolute (path : String) : Bool := path.toList.head? == some '/'

/-- Adds a component to the cleaned ones, which are kept in reverse. -/
def cleanStep (rooted : Bool) (cleaned : List String) (component : String) : List String :=
  if component == "" || component == "." then cleaned
  else if component == ".." then
    match cleaned with
    | [] => if rooted then [] else [".."]
    | last :: rest => if last == ".." then ".." :: cleaned else rest
  else component :: cleaned

/-- The shortest path that means the same by its text alone. -/
def clean (path : String) : String :=
  let rooted := isAbsolute path
  let cleaned := ((components path).foldl (cleanStep rooted) []).reverse
  if rooted then "/" ++ Text.joined "/" cleaned
  else if cleaned.isEmpty then "." else Text.joined "/" cleaned

/-- A name inside a directory; an empty directory adds nothing. -/
def join (directory name : String) : String :=
  if directory == "" then clean name else clean (directory ++ "/" ++ name)

/-- The directory part of a path. -/
def directory (path : String) : String :=
  clean (String.ofList (path.toList.reverse.dropWhile (· != '/')).reverse)

end TypedForms.Path
