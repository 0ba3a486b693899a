import Mnema.Models

/-! `evaluate_policy`: which source objects a policy selects for archiving. -/

namespace Mnema

/-- `PurePosixPath(value).parts`: empty segments and `.` vanish, a leading slash
stays as a part of its own, and exactly two of them as `//`. -/
def posixParts (value : String) : List String :=
  let cs := value.toList
  let names := ((cs.splitOn '/').filter (fun p => p != [] && p != ['.'])).map String.ofList
  match cs with
  | '/' :: '/' :: '/' :: _ => "/" :: names
  | '/' :: '/' :: _ => "//" :: names
  | '/' :: _ => "/" :: names
  | _ => names

/-- A bracket expression, cut at the hyphens that make ranges; `n` characters stand before the
next of them. -/
def bracketChunks : Nat → List Char → List (List Char)
  | _, [] => [[]]
  | 0, '-' :: rest => if rest = [] then [['-']] else [] :: bracketChunks 2 rest
  | n, c :: rest => match bracketChunks (n - 1) rest with
    | [] => [[c]]
    | chunk :: chunks => (c :: chunk) :: chunks

/-- An empty range is taken out, with both of its ends. -/
def removeEmptyRanges : List (List Char) → List (List Char)
  | [] => []
  | chunk :: chunks => match removeEmptyRanges chunks with
    | [] => [chunk]
    | next :: chunks =>
      if next.headD ' ' < chunk.getLastD ' ' then (chunk.dropLast ++ next.tail) :: chunks
      else chunk :: next :: chunks

/-- The inside of the brackets as a regular expression: characters, and `none` for the hyphen of a
range. -/
def bracketItems (set : List Char) : List (Option Char) :=
  [none].intercalate
    ((removeEmptyRanges (bracketChunks (if set.head? = some '!' then 2 else 1) set)).map (·.map some))

/-- A hyphen that has lost what stood before it is one of the characters. -/
def bracketRanges : List (Option Char) → List (Char × Char)
  | [] => []
  | some a :: none :: some b :: rest => (a, b) :: bracketRanges rest
  | some a :: rest => (a, a) :: bracketRanges rest
  | none :: rest => ('-', '-') :: bracketRanges rest

/-- A set that has become empty selects nothing, and all if it begins with an exclamation mark. -/
def bracketMatches (set : List Char) (c : Char) : Bool :=
  match bracketItems set with
  | some '!' :: items => !(bracketRanges items).any (fun r => r.1 ≤ c && c ≤ r.2)
  | items => (bracketRanges items).any (fun r => r.1 ≤ c && c ≤ r.2)

/-- The bracket expression that opened just before `pattern`, with what follows its
closing bracket. A bracket that comes first, after a `!` or not, belongs to the set. -/
def bracketSplit (pattern : List Char) : Option (List Char × List Char) :=
  let (bang, rest) := match pattern with
    | '!' :: rest => (['!'], rest)
    | rest => ([], rest)
  let (head, rest) := match rest with
    | ']' :: rest => ([']'], rest)
    | rest => ([], rest)
  match rest.span (· != ']') with
  | (_, []) => none
  | (set, _ :: after) => some (bang ++ head ++ set, after)

/-- `fnmatch`: `*`, `?` and `[...]` against the whole name; the fuel bounds the pattern. -/
def fnmatchChars : Nat → List Char → List Char → Bool
  | 0, _, _ => false
  | _ + 1, [], name => name.isEmpty
  | n + 1, '*' :: pattern, name => name.tails.any (fnmatchChars n pattern)
  | n + 1, '?' :: pattern, name => match name with
    | [] => false
    | _ :: name => fnmatchChars n pattern name
  | n + 1, '[' :: pattern, name => match bracketSplit pattern, name with
    | some (set, pattern), c :: name => bracketMatches set c && fnmatchChars n pattern name
    | some _, [] => false
    | none, '[' :: name => fnmatchChars n pattern name
    | none, _ => false
  | n + 1, p :: pattern, name => match name with
    | [] => false
    | c :: name => p == c && fnmatchChars n pattern name

def fnmatch (name pattern : String) : Bool :=
  fnmatchChars (pattern.toList.length + 1) pattern.toList name.toList

structure PolicyDecision where
  eligible : Bool
  reasons : List String
deriving DecidableEq, Repr

/-- The reason, when its check fails. -/
def reason (failed : Bool) (text : String) : List String := if failed then [text] else []

def evaluatePolicy (item : SourceObject) (policy : SourcePolicy) (now : Time) :
    Except PyError PolicyDecision :=
  let parts := posixParts item.relativePath
  -- `path.parts[0]` is read without a length check once directories are listed
  if !policy.includedDirectories.isEmpty && parts.isEmpty then
    .error (.index "tuple index out of range")
  else
    let notIncluded := !policy.includedDirectories.isEmpty &&
      !policy.includedDirectories.contains (parts.headD "")
    let excluded := !parts.isEmpty && policy.excludedDirectories.contains (parts.headD "")
    let requiredAge := max (days policy.archiveAfterDays) (hours policy.stabilityWindowHours)
    let reasons :=
      reason notIncluded "directory not included" ++
      reason excluded "directory excluded" ++
      reason (!policy.includedGlobs.isEmpty &&
        !policy.includedGlobs.any (fnmatch item.relativePath)) "pattern not included" ++
      reason (policy.excludedGlobs.any (fnmatch item.relativePath)) "pattern excluded" ++
      reason (decide (item.size < policy.minimumFileSize)) "below minimum file size" ++
      reason (match policy.maximumFileSize with
        | some m => decide (m < item.size)
        | none => false) "above maximum file size" ++
      reason (decide (now - item.modifiedAt < requiredAge)) "age or stability window not reached"
    .ok ⟨reasons.isEmpty, reasons⟩

end Mnema
