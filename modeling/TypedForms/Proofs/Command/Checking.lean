import TypedForms.Proofs.Command.Logging

/-! Runs that check files. Whether a file is in order is asked in several places: for the exit code,
for the stream that its report goes to, and for the log. The answer is the same everywhere, and it
is that of the parser and the checker. -/
namespace TypedForms

namespace Command

variable {w : World} {o : Options} {path log notice : String} {arguments : List String} {f : Flags}

end Command

end TypedForms
