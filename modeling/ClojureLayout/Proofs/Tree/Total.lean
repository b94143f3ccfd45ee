import ClojureLayout.Proofs.Tree.Structure
import ClojureLayout.Tree.Format

/-! Formatting a tree never fails. Each transform is a function of the tree (`Node.formatted`,
    `Forest.formatted`): the sort is called on lists with a head only, a comment is attached beside an
    entry only behind one, and children are given to groups only. -/

namespace ClojureLayout

/-! ### Entries -/

namespace Entries

/-- A latest entry stands on the line being read only if there is one. -/
def Sound (r : Entries) : Prop := r.onLine = true → r.entries ≠ []

/-- The entries with one more comment: beside the latest on its line, or else above the next. -/
def addComment (r : Entries) (text : String) : Entries :=
  match r.onLine, r.entries with
  | true, latest :: before => { r with entries := { latest with beside := some text } :: before }
  | _, _ => { r with comments := text :: r.comments }

/-- The entries with one more node read. -/
def add (r : Entries) : Node → Entries
  | .leaf (.comment text) => r.addComment text
  | .leaf .newline => { r with onLine := false }
  | node => { entries := { node, above := r.comments.reverse } :: r.entries, comments := [], onLine := true }

theorem Sound.add {r : Entries} (h : r.Sound) (n : Node) : (r.add n).Sound := by
  unfold Entries.add
  split
  · unfold addComment
    split
    · simp [Sound]
    · exact h
  · simp [Sound]
  · simp [Sound]

theorem read_eq_ok {r : Entries} (h : r.Sound) (n : Node) : r.read n = .ok (r.add n) := by
  unfold read Entries.add
  split
  · unfold addComment
    cases hl : r.onLine with
    | false => simp
    | true =>
      cases he : r.entries with
      | nil => exact absurd he (h hl)
      | cons latest before => simp
  · rfl
  · simp_all

/-- The entries with all of the nodes read. -/
def addAll (r : Entries) (ns : List Node) : Entries := ns.foldl add r

theorem readAll_eq_ok {r : Entries} (h : r.Sound) (ns : List Node) : r.readAll ns = .ok (r.addAll ns) := by
  induction ns generalizing r with
  | nil => rfl
  | cons n ns ih =>
    rw [readAll, read_eq_ok h n]
    exact ih (h.add n)

theorem sound_empty : ({} : Entries).Sound := by simp [Sound]

end Entries

namespace Node

/-! ### Transforms -/

/-- The children of a list to sort, its head first. -/
def sortedChildren : List Node → List Node
  | [] => []
  | head :: rest => dropFinalNewline (head :: (Entries.addAll {} rest).sortedLines)

/-- A clause after the sort. -/
def sortedClause (n : Node) : Node :=
  if n.isKeywordForm [":require", ":import"] then n.mapChildren sortedChildren else n

/-- The children of a namespace declaration after the sort. -/
def sortedClauses : List Node → List Node
  | [] => []
  | head :: clauses => head :: clauses.map sortedClause

/-- The children of a function definition, its vector moved up to the name. -/
def raiseArglist : List Node → List Node
  | head :: name :: gap :: args :: next :: rest =>
    if gap.isNewline && !next.isNewline && args.isVector then head :: name :: args :: gap :: next :: rest
    else head :: name :: gap :: args :: next :: rest
  | cs => cs

/-- The children of a method definition, its dispatch value moved up to the name. -/
def raiseDispatchVal : List Node → List Node
  | head :: name :: gap :: value :: next :: rest =>
    if gap.isNewline && value.isKeyword then
      if next.isNewline then head :: name :: value :: next :: rest else head :: name :: value :: gap :: next :: rest
    else head :: name :: gap :: value :: next :: rest
  | cs => cs

theorem sortImportRequire_eq_ok {n : Node} (h : n.children ≠ []) :
    n.sortImportRequire = .ok (n.mapChildren sortedChildren) := by
  cases n using Node.casesOn with
  | leaf l => exact absurd rfl h
  | group shape cs =>
    cases cs with
    | nil => exact absurd rfl h
    | cons head rest =>
      simp only [sortImportRequire, children_group, Entries.readAll_eq_ok Entries.sound_empty]
      rfl

theorem isKeywordForm_children {names : List String} {n : Node} (h : n.isKeywordForm names = true) :
    ∃ name rest, n = .group .list (.leaf (.keyword name) :: rest) ∧ name ∈ names := by
  unfold isKeywordForm at h
  split at h
  · rename_i name rest
    exact ⟨name, rest, rfl, by simpa using h⟩
  · cases h

theorem isSymbolForm_children {names : List String} {n : Node} (h : n.isSymbolForm names = true) :
    ∃ name rest, n = .group .list (.leaf (.symbol name) :: rest) ∧ name ∈ names := by
  unfold isSymbolForm at h
  split at h
  · rename_i name rest
    exact ⟨name, rest, rfl, by simpa using h⟩
  · cases h

theorem sortClause_eq_ok (n : Node) : n.sortClause = .ok n.sortedClause := by
  unfold sortClause sortedClause
  split
  · rename_i h
    obtain ⟨name, rest, rfl, -⟩ := isKeywordForm_children h
    exact sortImportRequire_eq_ok (by simp)
  · rfl

theorem mapM_eq_ok {α β ε : Type} {f : α → Except ε β} {g : α → β} (h : ∀ a, f a = .ok (g a)) (as : List α) :
    as.mapM f = .ok (as.map g) := by
  induction as with
  | nil => rfl
  | cons a as ih =>
    rw [List.mapM_cons, h a, ih]
    rfl

theorem sortNs_eq_ok (n : Node) : n.sortNs = .ok (n.mapChildren sortedClauses) := by
  unfold sortNs
  split
  · rw [mapM_eq_ok sortClause_eq_ok]
    rfl
  · rename_i hne
    cases n using Node.casesOn with
    | leaf l => rfl
    | group shape cs =>
      cases cs with
      | nil => rfl
      | cons head clauses => exact absurd rfl (hne shape head clauses)

theorem fixDefnArglist_eq_ok (n : Node) : n.fixDefnArglist = .ok (n.mapChildren raiseArglist) := by
  cases n using Node.casesOn with
  | leaf l => rfl
  | group shape cs =>
    rcases cs with _ | ⟨head, _ | ⟨name, _ | ⟨gap, _ | ⟨args, _ | ⟨next, rest⟩⟩⟩⟩⟩
    · rfl
    · rfl
    · rfl
    · rfl
    · rfl
    · simp only [fixDefnArglist, children_group, mapChildren_group, raiseArglist]
      split <;> rfl

theorem fixDefmethodDispatchVal_eq_ok (n : Node) :
    n.fixDefmethodDispatchVal = .ok (n.mapChildren raiseDispatchVal) := by
  cases n using Node.casesOn with
  | leaf l => rfl
  | group shape cs =>
    rcases cs with _ | ⟨head, _ | ⟨name, _ | ⟨gap, _ | ⟨value, _ | ⟨next, rest⟩⟩⟩⟩⟩
    · rfl
    · rfl
    · rfl
    · rfl
    · rfl
    · simp only [fixDefmethodDispatchVal, children_group, mapChildren_group, raiseDispatchVal]
      split
      · split <;> rfl
      · rfl

/-! ### Trees -/

/-- A root with its children changed, if the change is on and the root is a list headed by the symbol. -/
def changedForm (on : Bool) (name : String) (f : List Node → List Node) (root : Node) : Node :=
  if on && root.isSymbolForm [name] then root.mapChildren f else root

/-- A root after the sort, if that is on. -/
def sortedRoot (s : Settings) (root : Node) : Node := root.changedForm (s .sortImportRequire) "ns" sortedClauses

/-- A root without newlines at the ends of its groups, if these are to go. -/
def trimmedRoot (s : Settings) (root : Node) : Node :=
  if s .removeTrailingNewlines then root.removeTrailingNewlines else root

/-- A root after the move of a vector, if that is on. -/
def arglistRoot (s : Settings) (root : Node) : Node := root.changedForm (s .fixDefnArglistNewline) "defn" raiseArglist

/-- A root after the move of a dispatch value, if that is on. -/
def dispatchValRoot (s : Settings) (root : Node) : Node :=
  root.changedForm (s .fixDefmethodDispatchValNewline) "defmethod" raiseDispatchVal

/-- A root without a third newline in a row, if these are to go. -/
def collapsedRoot (s : Settings) (root : Node) : Node :=
  if s .removeExtraBlankLines then root.removeExtraBlankLines else root

/-- A root after the transforms that are on. -/
def formatted (s : Settings) (root : Node) : Node :=
  ((((root.sortedRoot s).trimmedRoot s).arglistRoot s).dispatchValRoot s).collapsedRoot s

theorem sortedClauses_eq_map (l : Leaf) (clauses : List Node) :
    sortedClauses (.leaf l :: clauses) = (Node.leaf l :: clauses).map sortedClause :=
  rfl

theorem sortedClause_keepsShape : KeepsShape sortedClause :=
  (mapChildren_keepsShape sortedChildren).ite fun n => n.isKeywordForm [":require", ":import"]

theorem changedForm_keepsShape (on : Bool) (name : String) (f : List Node → List Node) :
    KeepsShape (changedForm on name f) :=
  (mapChildren_keepsShape f).ite fun root => on && root.isSymbolForm [name]

theorem formatted_keepsShape (s : Settings) : KeepsShape (formatted s) :=
  have hsorted : KeepsShape (sortedRoot s) := changedForm_keepsShape _ _ _
  have htrimmed : KeepsShape (trimmedRoot s) := (everywhere_keepsShape _).ite _
  have harglist : KeepsShape (arglistRoot s) := changedForm_keepsShape _ _ _
  have hdispatchVal : KeepsShape (dispatchValRoot s) := changedForm_keepsShape _ _ _
  have hcollapsed : KeepsShape (collapsedRoot s) := (everywhere_keepsShape _).ite _
  hcollapsed.comp (hdispatchVal.comp (harglist.comp (htrimmed.comp hsorted)))

theorem ok_bind {α β ε : Type} (a : α) (k : α → Except ε β) : (Except.ok a >>= k) = k a := rfl

theorem format_eq_ok (s : Settings) (root : Node) : root.format s = .ok (root.formatted s) := by
  unfold Node.format formatted sortedRoot trimmedRoot arglistRoot dispatchValRoot changedForm
  simp only [sortNs_eq_ok, fixDefnArglist_eq_ok, fixDefmethodDispatchVal_eq_ok, ok_bind]
  split <;> split <;> split <;> split <;> rfl

end Node

/-- A tree after the transforms that are on. -/
def Forest.formatted (s : Settings) (roots : Forest) : Forest :=
  if s .removeExtraBlankLines then Node.collapseBlankLines (roots.map (Node.formatted s))
  else roots.map (Node.formatted s)

/-- Formatting a tree gives a tree, whatever its forms look like. -/
theorem Forest.format_eq_ok (s : Settings) (roots : Forest) : Forest.format s roots = .ok (Forest.formatted s roots) := by
  unfold Forest.format
  rw [Node.mapM_eq_ok (Node.format_eq_ok s)]
  rfl

end ClojureLayout
