/-! What the program says about itself. -/
namespace TypedForms

structure Release where
  version : String
  commit : String
  date : String

namespace Release

/-- What is not known about a build is said to be so. -/
def unknown : String := "unknown"

/-- A build without release information. -/
def unreleased : Release := ⟨"dev", unknown, unknown⟩

def platform : String := "linux/amd64"

def versionLine (r : Release) : String :=
  "typelang " ++ r.version ++ " " ++ platform ++
    (if r.commit == unknown then "" else " commit " ++ r.commit) ++
    (if r.date == unknown then "" else " built " ++ r.date) ++ "\n"

def greeting (r : Release) : String :=
  "typelang " ++ r.version ++ ". Type :help for commands.\n"

end Release

end TypedForms
