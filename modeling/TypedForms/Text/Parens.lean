/-! Texts put together from parts. -/
namespace TypedForms.Text

/-- The parts one after another, with a separator between each two of them. -/
def joined (separator : String) : List String → String
  | [] => ""
  | first :: parts => parts.foldl (fun text part => text ++ separator ++ part) first

/-- The parts with blanks between them, in parentheses. -/
def parens (parts : List String) : String := "(" ++ joined " " parts ++ ")"

end TypedForms.Text
