import TypedForms.Path

/-! Where a session keeps its history. -/
namespace TypedForms

/-- The values of environment variables; an unset one is empty. -/
abbrev Variables := String → String

/-- The cache directory of the user, if the variables tell of one. -/
def userCacheDir? (vars : Variables) : Option String :=
  let cache := vars "XDG_CACHE_HOME"
  let home := vars "HOME"
  if cache != "" then if Path.isAbsolute cache then some cache else none
  else if home != "" then some (home ++ "/.cache") else none

/-- The directory named by a variable of its own, else one in the user's cache directory, else a
hidden one in the home directory. -/
def cacheDir (vars : Variables) : String :=
  if vars "TLCACHE" != "" then vars "TLCACHE"
  else match userCacheDir? vars with
    | some directory => Path.join directory "typelang"
    | none => Path.join (vars "HOME") ".typelang"

def historyFile (vars : Variables) : String := Path.join (cacheDir vars) "history"

end TypedForms
