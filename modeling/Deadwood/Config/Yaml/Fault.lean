import Deadwood.Text.Quoted

/-! What can be wrong with a file laid out by indentation, before anyone asks what its values are for. -/

namespace Deadwood.Yaml

inductive Problem
  | noColon
  | strayEntry
  | strayKey
  | strayValue
  | tooDeep
  | strayCharacter
  | unknownDirective
  | noDirectiveName
  | badDirectiveName
  | noLineEnd
  | noVersionPoint
  | longVersion
  | noVersion
  | noSpace
  | noSpaceOrBreak
  | noAnchorName
  | unclosedTag
  | noTagMark
  | noTagName
  | badTagEscape
  | badLeadingOctet
  | badTrailingOctet
  | zeroIndent
  | tabForIndent
  | tabInText
  | documentMark
  | streamEnd
  | unknownEscape
  | noHexNumber
  | badPoint
  | noKey
  | noDash
  | noBracket
  | noBrace
  | noContent
  | undefinedHandle
  | noDocumentStart
  | repeatedVersion
  | otherVersion
  | repeatedHandle
  deriving DecidableEq, Repr

namespace Problem

def message : Problem → Bytes
  | .noColon => bytes "could not find expected ':'"
  | .strayEntry => bytes "block sequence entries are not allowed in this context"
  | .strayKey => bytes "mapping keys are not allowed in this context"
  | .strayValue => bytes "mapping values are not allowed in this context"
  | .tooDeep => bytes "exceeded max depth of 10000"
  | .strayCharacter => bytes "found character that cannot start any token"
  | .unknownDirective => bytes "found unknown directive name"
  | .noDirectiveName => bytes "could not find expected directive name"
  | .badDirectiveName => bytes "found unexpected non-alphabetical character"
  | .noLineEnd => bytes "did not find expected comment or line break"
  | .noVersionPoint => bytes "did not find expected digit or '.' character"
  | .longVersion => bytes "found extremely long version number"
  | .noVersion => bytes "did not find expected version number"
  | .noSpace => bytes "did not find expected whitespace"
  | .noSpaceOrBreak => bytes "did not find expected whitespace or line break"
  | .noAnchorName => bytes "did not find expected alphabetic or numeric character"
  | .unclosedTag => bytes "did not find the expected '>'"
  | .noTagMark => bytes "did not find expected '!'"
  | .noTagName => bytes "did not find expected tag URI"
  | .badTagEscape => bytes "did not find URI escaped octet"
  | .badLeadingOctet => bytes "found an incorrect leading UTF-8 octet"
  | .badTrailingOctet => bytes "found an incorrect trailing UTF-8 octet"
  | .zeroIndent => bytes "found an indentation indicator equal to 0"
  | .tabForIndent => bytes "found a tab character where an indentation space is expected"
  | .tabInText => bytes "found a tab character that violates indentation"
  | .documentMark => bytes "found unexpected document indicator"
  | .streamEnd => bytes "found unexpected end of stream"
  | .unknownEscape => bytes "found unknown escape character"
  | .noHexNumber => bytes "did not find expected hexdecimal number"
  | .badPoint => bytes "found invalid Unicode character escape code"
  | .noKey => bytes "did not find expected key"
  | .noDash => bytes "did not find expected '-' indicator"
  | .noBracket => bytes "did not find expected ',' or ']'"
  | .noBrace => bytes "did not find expected ',' or '\x7d'"
  | .noContent => bytes "did not find expected node content"
  | .undefinedHandle => bytes "found undefined tag handle"
  | .noDocumentStart => bytes "did not find expected <document start>"
  | .repeatedVersion => bytes "found duplicate %YAML directive"
  | .otherVersion => bytes "found incompatible YAML document"
  | .repeatedHandle => bytes "found duplicate %TAG directive"

end Problem

inductive Fault
  | problem (line : Nat) (p : Problem)
  | controlCharacter
  | badEncoding
  | unknownAnchor (name : Bytes)
  | endlessAnchor (name : Bytes)
  | tooManyAliases
  | badMerge
  | badBinary
  | wrongTag (found value wanted : Bytes)
  deriving DecidableEq, Repr

namespace Fault

/-- Lines are counted from one. A line of zero is not told. -/
def message : Fault → Bytes
  | .problem line p => (if line = 0 then [] else bytes "line " ++ Bytes.ofNat line ++ bytes ": ") ++ p.message
  | .controlCharacter => bytes "control characters are not allowed"
  | .badEncoding => bytes "invalid leading UTF-8 octet"
  | .unknownAnchor name => bytes "unknown anchor '" ++ name ++ bytes "' referenced"
  | .endlessAnchor name => bytes "anchor '" ++ name ++ bytes "' value contains itself"
  | .tooManyAliases => bytes "document contains excessive aliasing"
  | .badMerge => bytes "map merge requires map or sequence of maps as the value"
  | .badBinary => bytes "!!binary value contains invalid base64 data"
  | .wrongTag found value wanted =>
    bytes "cannot decode " ++ found ++ bytes " \x60" ++ value ++ bytes "\x60 as a " ++ wanted

/-- The line, counted from zero, that is blamed for a problem: where its context begins, unless that is the very first
line, or else where it was found. -/
def blamed (context found : Nat) : Nat := if context ≠ 0 then context else found

/-- A problem with single characters. Their lines are counted from one, but the very first line is not told. -/
def atCharacter (context found : Nat) (p : Problem) : Fault :=
  .problem (if blamed context found = 0 then 0 else blamed context found + 1) p

def atToken (context found : Nat) (p : Problem) : Fault := .problem (blamed context found) p

end Fault

end Deadwood.Yaml
