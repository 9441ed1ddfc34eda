import Deadwood.Text.Joining

/-!
Text in clusters: a letter with its marks, a Hangul syllable written in parts, a flag, a picture joined from several.
Each cluster is what a reader takes for one character.
-/

namespace Deadwood.Cluster

/-- What is known of the characters before a place: the last one, whether a pictograph stands before it with nothing
but extending marks in between (or is itself the last), and whether an odd number of regional signs ends there. -/
structure Before where
  last : Joining
  picture : Bool
  unpaired : Bool
  deriving DecidableEq, Repr

namespace Before

def start (j : Joining) : Before := ⟨j, j = .pictograph, j = .regional⟩

def next (b : Before) (j : Joining) : Before where
  last := j
  picture := j = .pictograph || (b.picture && b.last ≠ .joiner && (j = .extending || j = .joiner))
  unpaired := j = .regional && !b.unpaired

end Before

def standsAlone (j : Joining) : Bool := j = .control || j = .carriageReturn || j = .lineFeed

def inSyllable : Joining → Joining → Bool
  | .leading, j => j = .leading || j = .vowel || j = .openSyllable || j = .closedSyllable
  | .openSyllable, j | .vowel, j => j = .vowel || j = .trailing
  | .closedSyllable, j | .trailing, j => j = .trailing
  | _, _ => false

def joins (b : Before) (j : Joining) : Bool :=
  if standsAlone b.last || standsAlone j then b.last = .carriageReturn && j = .lineFeed
  else
    inSyllable b.last j || j = .extending || j = .joiner || j = .spacing || b.last = .prepending ||
      (b.picture && b.last = .joiner && j = .pictograph) || (b.unpaired && j = .regional)

/-- The clusters of a text, given what stands before it and the characters of the cluster begun, in reverse. -/
def splitFrom (b : Before) (begun : List Rune) : List Rune → List (List Rune)
  | [] => [begun.reverse]
  | r :: rest =>
    if joins b r.joining then splitFrom (b.next r.joining) (r :: begun) rest
    else begun.reverse :: splitFrom (b.next r.joining) [r] rest

end Deadwood.Cluster

namespace Deadwood.Bytes

def clusters (s : Bytes) : List (List Rune) :=
  match s.runes with
  | [] => []
  | r :: rest => Cluster.splitFrom (.start r.joining) [r] rest

end Deadwood.Bytes
