import MonkeyLang.Text.BreakClass

/-!
# Clusters

What a reader takes for one character may be several: a letter with its marks, a flag, a family of
pictographs, a syllable.  `clusters` cuts a text into these extended grapheme clusters.  Nothing is
lost (`flatten_clusters`).

Whether a character goes on with the cluster before it depends on classes alone.  A control stands
alone, but a line feed goes with a carriage return.  Elsewhere any of six reasons will do: see
`BreakClass.joins`.
-/

namespace MonkeyLang.Text

namespace BreakClass

/-! ## Algorithm -/

def isControl : BreakClass → Bool
  | carriageReturn => true
  | lineFeed => true
  | control => true
  | _ => false

/-- Marks that may stand between a pictograph and a joiner. -/
def isExtending : BreakClass → Bool
  | mark => true
  | linker => true
  | nonJoiner => true
  | _ => false

/-- What never begins a cluster of its own behind another character. -/
def isTrailing : BreakClass → Bool
  | joiner => true
  | spacingMark => true
  | k => k.isExtending

/-- Whether two characters can stand in one Hangul syllable, in this order. -/
def spells : BreakClass → BreakClass → Bool
  | lead, lead => true
  | lead, vowel => true
  | lead, openSyllable => true
  | lead, closedSyllable => true
  | openSyllable, vowel => true
  | openSyllable, trail => true
  | vowel, vowel => true
  | vowel, trail => true
  | closedSyllable, trail => true
  | trail, trail => true
  | _, _ => false

/-- Whether a consonant is followed by marks alone and one of them is a linker, which `linked` says
of those behind.  As in all that follows, the last class comes first. -/
def endsLinked : (linked : Bool) → List BreakClass → Bool
  | linked, consonant :: _ => linked
  | _, linker :: ks => endsLinked true ks
  | linked, mark :: ks => endsLinked linked ks
  | linked, joiner :: ks => endsLinked linked ks
  | _, _ => false

/-- Whether a pictograph is followed by marks and a joiner. -/
def endsJoined : List BreakClass → Bool
  | joiner :: ks => (ks.dropWhile isExtending).head? == some pictograph
  | _ => false

/-- Whether a half of a flag waits for the other one. -/
def endsInHalfFlag (ks : List BreakClass) : Bool :=
  (ks.takeWhile (· == halfFlag)).length % 2 == 1

/-- Whether a character of class `k` goes on with the cluster whose classes are given. -/
def joins (k : BreakClass) : List BreakClass → Bool
  | [] => false
  | last :: ks =>
    if last.isControl || k.isControl then last == carriageReturn && k == lineFeed
    else
      k.isTrailing || last == prepended || last.spells k ||
      (k == consonant && endsLinked false (last :: ks)) ||
      (k == pictograph && endsJoined (last :: ks)) ||
      (k == halfFlag && endsInHalfFlag (last :: ks))

end BreakClass

/-- The clusters of a text behind those in `done`, which are in reverse order, and behind the one
that is not complete, which is given by its characters and classes, the last ones first. -/
def clustersBehind (done : List (List Char)) (cluster : List Char) (classes : List BreakClass) :
    List Char → List (List Char)
  | [] => (cluster.reverse :: done).reverse
  | c :: cs =>
    let k := BreakClass.ofChar c
    if k.joins classes then clustersBehind done (c :: cluster) (k :: classes) cs
    else clustersBehind (cluster.reverse :: done) [c] [k] cs

/-- The clusters of a text. -/
def clusters : List Char → List (List Char)
  | [] => []
  | c :: cs => clustersBehind [] [c] [.ofChar c] cs

/-! ## Lemmas -/

theorem flatten_clustersBehind (done : List (List Char)) (cluster : List Char)
    (classes : List BreakClass) (cs : List Char) :
    (clustersBehind done cluster classes cs).flatten =
      done.reverse.flatten ++ cluster.reverse ++ cs := by
  induction cs generalizing done cluster classes with
  | nil => simp [clustersBehind]
  | cons c cs ih =>
    rw [clustersBehind]
    split <;> rw [ih] <;> simp

@[simp]
theorem flatten_clusters (cs : List Char) : (clusters cs).flatten = cs := by
  cases cs with
  | nil => rfl
  | cons c cs => exact flatten_clustersBehind [] [c] _ cs

end MonkeyLang.Text
