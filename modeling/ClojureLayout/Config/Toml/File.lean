import ClojureLayout.Config.Toml.Numbers

/-!
# Configuration files

A file is a row of lines: headers, assignments, comments and empty lines. `Toml.parse` gives the
table that they build.
-/

namespace ClojureLayout.Config.Toml

/-- A malformed file, where nothing is found. -/
def required {α : Type} : Option α → Except Fault α
  | some a => .ok a
  | none => .error .malformed

mutual

/-- A value, nested at most so deep that `fuel` steps read it. -/
def valueWithin : (fuel : Nat) → List Char → Except Fault (Value × List Char)
  | 0, _ => .error .malformed
  | fuel + 1, cs =>
    match string? cs with
    | some reading => reading.map fun r => (.string (String.ofList r.1), r.2)
    | none =>
      match cs with
      | 't' :: 'r' :: 'u' :: 'e' :: rest => .ok (.bool true, rest)
      | 'f' :: 'a' :: 'l' :: 's' :: 'e' :: rest => .ok (.bool false, rest)
      | '[' :: rest => do
        let (items, rest) ← itemsWithin fuel (← skipBlank rest)
        return (.list items, rest)
      | '\x7b' :: rest => do
        match skipSpace rest with
        | '\x7d' :: rest => return (.table [], rest)
        | rest =>
          let (draft, rest) ← pairsWithin fuel {} rest
          return (.table draft.root, rest)
      | cs => scalar cs

/-- The rest of a list, up to its closing bracket. -/
def itemsWithin : (fuel : Nat) → List Char → Except Fault (List Value × List Char)
  | 0, _ => .error .malformed
  | _ + 1, ']' :: rest => .ok ([], rest)
  | fuel + 1, cs => do
    let (item, rest) ← valueWithin fuel cs
    match ← skipBlank rest with
    | ']' :: rest => return ([item], rest)
    | ',' :: rest =>
      let (items, rest) ← itemsWithin fuel (← skipBlank rest)
      return (item :: items, rest)
    | _ => .error .malformed

/-- The rest of a table written out as a value, up to its closing brace. -/
def pairsWithin : (fuel : Nat) → InlineDraft → List Char → Except Fault (InlineDraft × List Char)
  | 0, _, _ => .error .malformed
  | fuel + 1, draft, cs => do
    let (key, value, rest) ← pairWithin fuel cs
    let draft ← required (draft.assign key value)
    match skipSpace rest with
    | '\x7d' :: rest => return (draft, rest)
    | ',' :: rest => pairsWithin fuel draft (skipSpace rest)
    | _ => .error .malformed

/-- A key, an equals sign and a value. -/
def pairWithin : (fuel : Nat) → List Char → Except Fault (Key × Value × List Char)
  | 0, _ => .error .malformed
  | fuel + 1, cs => do
    let (key, rest) ← Toml.key cs
    let rest ← required (expect? '=' rest)
    let (value, rest) ← valueWithin fuel (skipSpace rest)
    return (key, value, rest)

end

/-- A header, up to its closing brackets. -/
def header (draft : Draft) : List Char → Except Fault (Draft × List Char)
  | '[' :: '[' :: rest => do
    let (key, rest) ← Toml.key (skipSpace rest)
    let draft ← required (draft.openItem key)
    return (draft, ← required (expect? ']' (← required (expect? ']' rest))))
  | '[' :: rest => do
    let (key, rest) ← Toml.key (skipSpace rest)
    let draft ← required (draft.openTable key)
    return (draft, ← required (expect? ']' rest))
  | _ => .error .malformed

/-- An assignment. -/
def assignment (draft : Draft) (cs : List Char) : Except Fault (Draft × List Char) := do
  let (key, value, rest) ← pairWithin (3 * cs.length + 3) cs
  return (← required (draft.assign key value), rest)

/-- What stands on a line, up to the comment or the end of the line. -/
def statement (draft : Draft) (cs : List Char) : Except Fault (Draft × List Char) :=
  match cs with
  | [] => .ok (draft, cs)
  | c :: _ =>
    if c = '\n' ∨ c = '#' then .ok (draft, cs)
    else if c = '[' then header draft cs
    else assignment draft cs

/-- The table that the lines build, of which there are at most `fuel`. -/
def linesWithin : (fuel : Nat) → Draft → List Char → Except Fault Draft
  | 0, draft, _ => .ok draft
  | fuel + 1, draft, cs => do
    let (draft, rest) ← statement draft (skipSpace cs)
    match ← skipComment (skipSpace rest) with
    | [] => return draft
    | '\n' :: rest => linesWithin fuel draft rest
    | _ => .error .malformed

/-- The text with each carriage return that a line feed follows dropped. -/
def dropReturns : List Char → List Char
  | '\r' :: '\n' :: rest => '\n' :: dropReturns rest
  | c :: rest => c :: dropReturns rest
  | [] => []

/-- The table of a configuration file. -/
def parse (text : List Char) : Except Fault Table := do
  let cs := dropReturns text
  return (← linesWithin (cs.length + 1) {} cs).root

end ClojureLayout.Config.Toml
