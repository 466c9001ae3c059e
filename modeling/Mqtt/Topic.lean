/-!
# Topic names and topic filters

A topic is a path of levels separated by `/`; levels may be empty. A filter may use `+` for one
level and, at its end, `#` for all that follow. Wildcards in the first level leave topics that
begin with `$` alone.

Models `validate_topic_name` (`isValidName`), `is_valid_topic_filter`, `has_wildcard` and
`topic_matches_filter` (`isMatch`).
-/

namespace Mqtt.Topic

/-- The levels of a path given as characters. A path without a separator is one level. -/
def splitLevels (cs : List Char) : List (List Char) :=
  cs.foldr
    (fun c levels =>
      if c = '/' then [] :: levels
      else match levels with
        | level :: rest => (c :: level) :: rest
        | [] => [[c]])
    [[]]

/-- The levels of a topic or filter. -/
def levels (s : String) : List String := (splitLevels s.toList).map String.ofList

/-- The level that stands for any one level. -/
def singleWildcard : String := "+"

/-- The level that stands for all further levels, the parent included. -/
def multiWildcard : String := "#"

/-- The two characters reserved for filters. -/
def isWildcardChar (c : Char) : Bool := c = '+' || c = '#'

/-- Some character of the text is reserved for filters. -/
def hasWildcard (s : String) : Bool := s.toList.any isWildcardChar

/-- The text begins with `$`, the mark of topics that a leading wildcard passes over. -/
def isReserved (s : String) : Bool := s.toList.head? = some '$'

/-- A topic to publish to is not empty and has no wildcard. -/
def isValidName (topic : String) : Bool := topic ≠ "" && !hasWildcard topic

/-- A wildcard fills a whole level, and `#` the last one. -/
def validLevels : List String → Bool
  | [] => true
  | [level] => level = singleWildcard || level = multiWildcard || !hasWildcard level
  | level :: rest => (level = singleWildcard || !hasWildcard level) && validLevels rest

/-- A filter to subscribe to is not empty and uses wildcards in their places. -/
def isValidFilter (filter : String) : Bool := filter ≠ "" && validLevels (levels filter)

/-- Compare the levels of a filter with those of a topic. -/
def matchLevels : (filter topic : List String) → Bool
  | [], [] => true
  | [], _ :: _ => false
  | f :: _, [] => f = multiWildcard
  | f :: fs, t :: ts =>
    if f = multiWildcard then true
    else if f = singleWildcard || f = t then matchLevels fs ts
    else false

/-- A topic matches a filter. -/
def isMatch (topic filter : String) : Bool :=
  !(isReserved topic && filter.toList.head?.any isWildcardChar)
    && matchLevels (levels filter) (levels topic)

end Mqtt.Topic
