import Mathlib.Data.List.Basic

/-! Regular expressions with one capture group, matched as a backtracking search does it: the
leftmost match, and of its ends the one that the expression prefers.
-/

namespace SkillRanker.Library

/-- An expression. Repetitions are greedy or lazy. -/
inductive Regex
  | empty
  | one (allows : Char → Bool)
  | wordEdge
  | textStart
  | textEnd
  | seq (first second : Regex)
  | either (preferred other : Regex)
  | many (greedy : Bool) (inner : Regex)
  | group (inner : Regex)

namespace Regex

-- Expressions

def literal (text : String) : Regex :=
  text.toList.foldr (fun char rest => seq (one (· = char)) rest) empty

def oneOf (chars : String) : Regex := one fun char => char ∈ chars.toList

def optional (inner : Regex) : Regex := either inner empty

def plus (inner : Regex) : Regex := seq inner (many true inner)

/-- As many of an expression, before what follows. -/
def exactly (inner : Regex) : Nat → Regex → Regex
  | 0, rest => rest
  | n + 1, rest => seq inner (exactly inner n rest)

def atLeast (n : Nat) (inner : Regex) : Regex := exactly inner n (many true inner)

def upTo (inner : Regex) : Nat → Regex
  | 0 => empty
  | n + 1 => optional (seq inner (upTo inner n))

def between (least most : Nat) (inner : Regex) : Regex :=
  exactly inner least (upTo inner (most - least))

def firstOf : List Regex → Regex
  | [] => one fun _ => false
  | [last] => last
  | preferred :: others => either preferred (firstOf others)

def inOrder : List Regex → Regex
  | [] => empty
  | [last] => last
  | first :: others => seq first (inOrder others)

-- Matching

/-- A place in a text, what comes before it from the place backwards, and what the group of the match
has captured on the way to it.
-/
structure Place where
  before : List Char
  after : List Char
  captured : Option (Nat × Nat) := none

def atWordEdge (isWord : Char → Bool) (place : Place) : Bool :=
  place.before.head?.any isWord != place.after.head?.any isWord

/-- What a repetition leads to. Each repeat goes forward, so there are no more than there are
characters.
-/
def repeats (step : Place → List Place) (greedy : Bool) : Nat → Place → List Place
  | 0, place => [place]
  | fuel + 1, place =>
      let onward := (step place).filter fun next => next.after.length < place.after.length
      let more := onward.flatMap (repeats step greedy fuel)
      if greedy then more ++ [place] else place :: more

/-- The places that an expression leads to, the preferred ones first. -/
def run (isWord : Char → Bool) : Regex → Place → List Place
  | .empty, place => [place]
  | .one allows, place =>
      match place.after with
      | char :: rest =>
          if allows char then [{ place with before := char :: place.before, after := rest }] else []
      | [] => []
  | .wordEdge, place => if atWordEdge isWord place then [place] else []
  | .textStart, place => if place.before.isEmpty then [place] else []
  | .textEnd, place => if place.after.isEmpty then [place] else []
  | .seq first second, place => (run isWord first place).flatMap (run isWord second)
  | .either preferred other, place => run isWord preferred place ++ run isWord other place
  | .many greedy inner, place => repeats (run isWord inner) greedy place.after.length place
  | .group inner, place =>
      (run isWord inner place).map fun next =>
        { next with captured := some (place.before.length, next.before.length) }

/-- A match, and what its group has captured, by positions in the text. -/
structure Found where
  start : Nat
  stop : Nat
  captured : Option (Nat × Nat)
deriving DecidableEq, Repr

def matchAt (isWord : Char → Bool) (expression : Regex) (before after : List Char)
    : Option Found :=
  ((run isWord expression { before, after }).head?).map fun place =>
    { start := before.length, stop := place.before.length, captured := place.captured }

def findFrom (isWord : Char → Bool) (expression : Regex) (before : List Char)
    : List Char → Option Found
  | [] => matchAt isWord expression before []
  | char :: rest =>
      (matchAt isWord expression before (char :: rest)).or
        (findFrom isWord expression (char :: before) rest)

/-- Goes forward in a text by so many characters. -/
def advance : Nat → List Char → List Char → List Char × List Char
  | 0, before, after => (before, after)
  | _ + 1, before, [] => (before, [])
  | n + 1, before, char :: rest => advance n (char :: before) rest

/-- The matches from a place on, each from the end of the one before it. -/
def findAllFrom (isWord : Char → Bool) (expression : Regex)
    : Nat → List Char → List Char → List Found
  | 0, _, _ => []
  | fuel + 1, before, after =>
      match findFrom isWord expression before after with
      | none => []
      | some found =>
          let next := max found.stop (found.start + 1) - before.length
          let (before, after) := advance next before after
          found :: findAllFrom isWord expression fuel before after

/-- `captures_iter` -/
def findAll (isWord : Char → Bool) (expression : Regex) (text : List Char) : List Found :=
  findAllFrom isWord expression (text.length + 1) [] text

def isMatch (isWord : Char → Bool) (expression : Regex) (text : List Char) : Bool :=
  (findFrom isWord expression [] text).isSome

/-- The part of a text between two positions. -/
def slice (text : List Char) (start stop : Nat) : List Char := (text.take stop).drop start

def replaceParts (text replacement : List Char) : Nat → List (Nat × Nat) → List Char
  | position, [] => text.drop position
  | position, (start, stop) :: rest =>
      slice text position start ++ replacement ++ replaceParts text replacement stop rest

def replaceAll (isWord : Char → Bool) (expression : Regex) (text replacement : List Char)
    : List Char :=
  replaceParts text replacement 0
    ((findAll isWord expression text).map fun found => (found.start, found.stop))

-- Letters of either case, and characters of words and numbers

/-- A character that a lower-case letter stands for where case does not count. Two letters have a
third form outside of ASCII.
-/
def folds (letter char : Char) : Bool :=
  char.toLower = letter
    || (letter = 'k' && char = '\u212a')
    || (letter = 's' && char = '\u017f')

def caseless (text : String) : Regex :=
  text.toList.foldr (fun letter rest => seq (one (folds letter)) rest) empty

def isLetter (char : Char) : Bool := char.isLower || char.isUpper

/-- `[A-Za-z0-9]` and some more characters. -/
def isAlphanumericOr (more : String) (char : Char) : Bool :=
  isLetter char || char.isDigit || char ∈ more.toList

/-- `[A-Za-z0-9]` and some more characters where case does not count. -/
def isAlphanumericOrFolded (more : String) (char : Char) : Bool :=
  isAlphanumericOr more char || char = '\u212a' || char = '\u017f'

end Regex

end SkillRanker.Library
