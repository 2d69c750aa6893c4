/-! Why a text is not a document. -/
namespace TypedForms.Yaml

inductive Cause where
  | invalidText
  | forbiddenCharacter
  | unexpectedCharacter
  | missingColon
  | entryNotAllowed
  | keyNotAllowed
  | valueNotAllowed
  | tooDeep
  | noDirectiveName
  | badDirectiveName
  | unknownDirective
  | noVersion
  | longVersion
  | noVersionDot
  | noBlank
  | noBlankOrBreak
  | noCommentOrBreak
  | noExclamation
  | noUri
  | noOctet
  | badLeadingOctet
  | badTrailingOctet
  | noClosingAngle
  | noWord
  | zeroIndent
  | tabInIndent
  | tabInPlain
  | markerInQuotes
  | openQuotes
  | unknownEscape
  | noHexDigits
  | badCodePoint
  | repeatedVersion
  | otherVersion
  | repeatedHandle
  | unknownHandle
  | noDocumentStart
  | noContent
  | noDash
  | noKey
  | noCommaOrBracket
  | noCommaOrBrace
  | unknownAnchor (name : String)
  | endlessAnchor (name : String)
  | otherTag (found text wanted : String)
  | badBase64
  | badMerge
  | manyAliases

namespace Cause

def text : Cause → String
  | .invalidText => "invalid leading UTF-8 octet"
  | .forbiddenCharacter => "control characters are not allowed"
  | .unexpectedCharacter => "found character that cannot start any token"
  | .missingColon => "could not find expected ':'"
  | .entryNotAllowed => "block sequence entries are not allowed in this context"
  | .keyNotAllowed => "mapping keys are not allowed in this context"
  | .valueNotAllowed => "mapping values are not allowed in this context"
  | .tooDeep => "exceeded max depth of 10000"
  | .noDirectiveName => "could not find expected directive name"
  | .badDirectiveName => "found unexpected non-alphabetical character"
  | .unknownDirective => "found unknown directive name"
  | .noVersion => "did not find expected version number"
  | .longVersion => "found extremely long version number"
  | .noVersionDot => "did not find expected digit or '.' character"
  | .noBlank => "did not find expected whitespace"
  | .noBlankOrBreak => "did not find expected whitespace or line break"
  | .noCommentOrBreak => "did not find expected comment or line break"
  | .noExclamation => "did not find expected '!'"
  | .noUri => "did not find expected tag URI"
  | .noOctet => "did not find URI escaped octet"
  | .badLeadingOctet => "found an incorrect leading UTF-8 octet"
  | .badTrailingOctet => "found an incorrect trailing UTF-8 octet"
  | .noClosingAngle => "did not find the expected '>'"
  | .noWord => "did not find expected alphabetic or numeric character"
  | .zeroIndent => "found an indentation indicator equal to 0"
  | .tabInIndent => "found a tab character where an indentation space is expected"
  | .tabInPlain => "found a tab character that violates indentation"
  | .markerInQuotes => "found unexpected document indicator"
  | .openQuotes => "found unexpected end of stream"
  | .unknownEscape => "found unknown escape character"
  | .noHexDigits => "did not find expected hexdecimal number"
  | .badCodePoint => "found invalid Unicode character escape code"
  | .repeatedVersion => "found duplicate %YAML directive"
  | .otherVersion => "found incompatible YAML document"
  | .repeatedHandle => "found duplicate %TAG directive"
  | .unknownHandle => "found undefined tag handle"
  | .noDocumentStart => "did not find expected <document start>"
  | .noContent => "did not find expected node content"
  | .noDash => "did not find expected '-' indicator"
  | .noKey => "did not find expected key"
  | .noCommaOrBracket => "did not find expected ',' or ']'"
  | .noCommaOrBrace => "did not find expected ',' or '\x7d'"
  | .unknownAnchor name => "unknown anchor '" ++ name ++ "' referenced"
  | .endlessAnchor name => "anchor '" ++ name ++ "' value contains itself"
  | .otherTag found text wanted =>
    "cannot decode " ++ found ++ " \x60" ++ text ++ "\x60 as a " ++ wanted
  | .badBase64 => "!!binary value contains invalid base64 data"
  | .badMerge => "map merge requires map or sequence of maps as the value"
  | .manyAliases => "document contains excessive aliasing"

end Cause

/-- A cause and the line that it is reported for; line 0 stands for no line. -/
structure Problem where
  line : Nat
  cause : Cause

namespace Problem

def message (p : Problem) : String :=
  (if p.line = 0 then "" else "line " ++ toString p.line ++ ": ") ++ p.cause.text

def anywhere (cause : Cause) : Problem := ⟨0, cause⟩

/-- A problem inside of a token. It is reported for the line where the token starts, but not for
the first line of a text. -/
def inToken (start here : Nat) (cause : Cause) : Problem :=
  if start ≠ 0 then ⟨start + 1, cause⟩ else if here ≠ 0 then ⟨here + 1, cause⟩ else ⟨0, cause⟩

/-- A problem with the order of tokens. It is reported for the line before the collection that it
is in, or before the token itself. -/
def inNode (start here : Nat) (cause : Cause) : Problem :=
  if start ≠ 0 then ⟨start, cause⟩ else ⟨here, cause⟩

end Problem

end TypedForms.Yaml
