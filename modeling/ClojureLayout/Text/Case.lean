/-!
# Case, as far as it leads into ASCII

Names are compared without regard to case against names written in ASCII. A character matters to
such a comparison only if its capital (or small) form is written in ASCII: the ASCII letters, and
the few others listed here, some of which stand for two or three letters. All other characters are
left as they are; neither they nor their other case is in ASCII.
-/

namespace ClojureLayout.Text

/-- The capital form of a character, where that form is ASCII, and otherwise the character. -/
def capitals (c : Char) : List Char :=
  match c with
  | 'ß' => ['S', 'S']
  | 'ı' => ['I']
  | 'ſ' => ['S']
  | 'ﬀ' => ['F', 'F']
  | 'ﬁ' => ['F', 'I']
  | 'ﬂ' => ['F', 'L']
  | 'ﬃ' => ['F', 'F', 'I']
  | 'ﬄ' => ['F', 'F', 'L']
  | 'ﬅ' => ['S', 'T']
  | 'ﬆ' => ['S', 'T']
  | c => [c.toUpper]

/-- The small form of a character, where that form is ASCII, and otherwise the character. -/
def small (c : Char) : Char :=
  if c = '\u212A' then 'k' else c.toLower

def toCapitals (cs : List Char) : List Char := cs.flatMap capitals

def toSmall (cs : List Char) : List Char := cs.map small

end ClojureLayout.Text
