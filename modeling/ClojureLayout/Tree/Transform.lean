import ClojureLayout.Text.Blank
import ClojureLayout.Text.Case

/-!
# The transforms and their names

Five ways to tidy a tree, which can be switched on and off by name.
-/

namespace ClojureLayout

/-- The ways to tidy a tree, in the order in which they are applied. -/
inductive Transform where
  /-- Sorts what a namespace requires and imports. -/
  | sortImportRequire
  /-- Drops newlines before closing delimiters. -/
  | removeTrailingNewlines
  /-- Moves the argument vector of a function up to its name. -/
  | fixDefnArglistNewline
  /-- Moves the dispatch value of a method up to its name. -/
  | fixDefmethodDispatchValNewline
  /-- Leaves one blank line of several. -/
  | removeExtraBlankLines
deriving DecidableEq

namespace Transform

def all : List Transform :=
  [sortImportRequire, removeTrailingNewlines, fixDefnArglistNewline, fixDefmethodDispatchValNewline,
    removeExtraBlankLines]

/-- The name of a transform in a configuration and on the command line. -/
def name : Transform → String
  | sortImportRequire => "sort-import-require"
  | removeTrailingNewlines => "remove-trailing-newlines"
  | fixDefnArglistNewline => "fix-defn-arglist-newline"
  | fixDefmethodDispatchValNewline => "fix-defmethod-dispatch-val-newline"
  | removeExtraBlankLines => "remove-extra-blank-lines"

/-- The form in which names are compared: in capitals, hyphens written as underscores. -/
def comparable (cs : List Char) : List Char :=
  (Text.toCapitals cs).map fun c => if c = '-' then '_' else c

/-- The transform that a name denotes; case, blanks around it and the choice between hyphens and
    underscores do not matter. -/
def ofName? (name : String) : Option Transform :=
  all.find? fun t => comparable (Text.trimBlanks name.toList) == comparable t.name.toList

end Transform

abbrev Settings := Transform → Bool

namespace Settings

def default : Settings := fun _ => true

/-- The settings with one of them changed. -/
def set (s : Settings) (t : Transform) (on : Bool) : Settings := fun u => if u = t then on else s u

end Settings

end ClojureLayout
