import ClojureLayout.Proofs.Text.Lines
import ClojureLayout.Proofs.Text.Quoted
import ClojureLayout.Proofs.Tree.Structure
import ClojureLayout.Tree.Outline

/-! The outline of a tree shows all of it: trees with the same outline are the same (`Forest.outline_eq_iff`). A line
    tells how deep its node stands and what it is, a leaf with its text or a group of some shape, and no text can
    imitate another line. The nodes in a group are those of the lines behind its own, up to the first that stands
    no deeper than it does. -/

namespace ClojureLayout
open Text

namespace Node

/-! ### What a line tells -/

def title : Node → String
  | .leaf l => l.title
  | .group shape _ => shape.title

def text? : Node → Option String
  | .leaf l => l.text?
  | .group _ _ => none

/-- What stands behind the title of a node on its line. -/
def argument (n : Node) : List Char :=
  match n.text? with
  | some t => '(' :: quoteChars t.toList ++ [')']
  | none => []

/-- The line of a node without its indentation. -/
def label : Node → String
  | .leaf l => l.outline
  | .group shape _ => shape.title

def titles : List String :=
  ["SymbolNode", "KeywordNode", "StringNode", "NumberNode", "CommentNode", "NewlineNode", "ListNode", "VectorNode",
    "MapNode", "SetNode", "FnLiteralNode"]

theorem title_mem (n : Node) : n.title ∈ titles := by
  cases n with
  | leaf l => cases l <;> simp [title, Leaf.title, titles]
  | group shape _ => cases shape <;> simp [title, Shape.title, titles]

theorem isAlpha_of_mem_title (n : Node) : ∀ c ∈ n.title.toList, c.isAlpha = true := by
  have hall : titles.all (·.toList.all (·.isAlpha)) = true := by decide +kernel
  exact List.all_eq_true.mp (List.all_eq_true.mp hall _ n.title_mem)

theorem title_ne_nil (n : Node) : n.title.toList ≠ [] := by
  have hall : ∀ t ∈ titles, t.toList ≠ [] := by decide
  exact hall _ n.title_mem

theorem toList_label (n : Node) : n.label.toList = n.title.toList ++ n.argument := by
  have hopen : "(".toList = ['('] := rfl
  have hclose : ")".toList = [')'] := rfl
  cases n with
  | leaf l =>
    rw [label, Leaf.outline, argument, text?, title]
    cases l.text? with
    | none => simp
    | some t => simp [quoted, hopen, hclose]
  | group shape _ => simp [label, title, argument, text?]

theorem label_inj {m n : Node} (h : m.label = n.label) : m.title = n.title ∧ m.text? = n.text? := by
  have htitle : ∀ n : Node, n.label.toList.takeWhile Char.isAlpha = n.title.toList := by
    intro n
    have hstop : n.argument.takeWhile Char.isAlpha = [] := by
      unfold argument
      cases n.text? with
      | none => rfl
      | some t => rfl
    rw [toList_label, List.takeWhile_append_of_pos n.isAlpha_of_mem_title, hstop, List.append_nil]
  have hsame : m.title.toList = n.title.toList := by rw [← htitle, ← htitle, h]
  have hargument : m.argument = n.argument := by
    have hlist := congrArg String.toList h
    rw [toList_label, toList_label, hsame] at hlist
    exact List.append_cancel_left hlist
  refine ⟨String.toList_inj.mp hsame, ?_⟩
  unfold argument at hargument
  cases hm : m.text? with
  | none =>
    cases hn : n.text? with
    | none => rfl
    | some u =>
      rw [hm, hn] at hargument
      cases hargument
  | some t =>
    cases hn : n.text? with
    | none =>
      rw [hm, hn] at hargument
      cases hargument
    | some u =>
      rw [hm, hn] at hargument
      have hquoted := List.append_cancel_right (List.cons.inj hargument).2
      rw [String.toList_inj.mp (quoteChars_inj hquoted)]

theorem eq_leaf_of_label {l : Leaf} {n : Node} (h : (leaf l).label = n.label) : n = .leaf l := by
  obtain ⟨htitle, htext⟩ := label_inj h
  cases n with
  | leaf m => cases l <;> cases m <;> simp_all [title, text?, Leaf.title, Leaf.text?]
  | group shape _ => cases l <;> cases shape <;> simp_all [title, Leaf.title, Shape.title]

theorem eq_group_of_label {shape : Shape} {cs : List Node} {n : Node} (h : (group shape cs).label = n.label) :
    ∃ ds, n = .group shape ds := by
  obtain ⟨htitle, -⟩ := label_inj h
  cases n with
  | leaf m => cases m <;> cases shape <;> simp_all [title, Leaf.title, Shape.title]
  | group shape' ds => cases shape <;> cases shape' <;> simp_all [title, Shape.title]

theorem newline_notMem_label (n : Node) : '\n' ∉ n.label.toList := by
  have htitle : '\n' ∉ n.title.toList := fun h => absurd (n.isAlpha_of_mem_title _ h) (by decide)
  have hargument : '\n' ∉ n.argument := by
    unfold argument
    cases n.text? with
    | none => exact List.not_mem_nil
    | some t => simp [newline_notMem_quoteChars]
  rw [toList_label, List.mem_append, not_or]
  exact ⟨htitle, hargument⟩

/-! ### Indentation -/

theorem replicate_append_inj {c : Char} {as bs : List Char} {m n : Nat} (has : as.head? ≠ some c)
    (hbs : bs.head? ≠ some c) (h : List.replicate m c ++ as = List.replicate n c ++ bs) : m = n ∧ as = bs := by
  induction m generalizing n with
  | zero =>
    cases n with
    | zero => exact ⟨rfl, h⟩
    | succ n => exact absurd (congrArg List.head? h) has
  | succ m ih =>
    cases n with
    | zero => exact absurd (congrArg List.head? h).symm hbs
    | succ n =>
      obtain ⟨rfl, hrest⟩ := ih (List.cons.inj h).2
      exact ⟨rfl, hrest⟩

theorem line_inj {depth depth' : Nat} {m n : Node} (h : indentation depth ++ m.label = indentation depth' ++ n.label) :
    depth = depth' ∧ m.label = n.label := by
  have hhead : ∀ n : Node, n.label.toList.head? ≠ some ' ' := by
    intro n hspace
    obtain ⟨c, cs, htitle⟩ := List.exists_cons_of_ne_nil n.title_ne_nil
    rw [toList_label, htitle] at hspace
    obtain rfl : c = ' ' := Option.some.inj hspace
    exact absurd (n.isAlpha_of_mem_title ' ' (htitle ▸ List.mem_cons_self)) (by decide)
  have hlist := congrArg String.toList h
  simp only [String.toList_append, indentation, String.toList_ofList] at hlist
  obtain ⟨hdepth, hlabel⟩ := replicate_append_inj (hhead m) (hhead n) hlist
  exact ⟨by omega, String.toList_inj.mp hlabel⟩

theorem outline_eq_cons (n : Node) (depth : Nat) :
    n.outline depth = (indentation depth ++ n.label) :: outlineAll (depth + 1) n.children := by
  cases n with
  | leaf l => rw [outline, children, outlineAll, label]
  | group shape cs => rw [outline, children, label]

/-! ### The lines of a group -/

/-- The first of the lines stands less deep than `depth`. -/
def Shallower (depth : Nat) (lines : List String) : Prop :=
  ∀ line ∈ lines.head?, ∃ less < depth, ∃ n : Node, line = indentation less ++ n.label

variable {depth : Nat} {rest rest' : List String}

theorem Shallower.succ (h : Shallower depth rest) : Shallower (depth + 1) rest := by
  intro line hline
  obtain ⟨less, hless, n, rfl⟩ := h line hline
  exact ⟨less, Nat.lt_succ_of_lt hless, n, rfl⟩

theorem Shallower.outlineAll_append (h : Shallower depth rest) (cs : List Node) :
    Shallower (depth + 1) (outlineAll depth cs ++ rest) := by
  cases cs with
  | nil =>
    rw [outlineAll, List.nil_append]
    exact h.succ
  | cons c cs =>
    rw [outlineAll, outline_eq_cons]
    rintro line hline
    obtain rfl := Option.some.inj hline
    exact ⟨depth, Nat.lt_succ_self depth, c, rfl⟩

/-- No line of a node at `depth` stands less deep. -/
theorem Shallower.ne_outlineAll (h : Shallower depth rest) (d : Node) (ds : List Node) :
    rest ≠ outlineAll depth (d :: ds) ++ rest' := by
  rintro rfl
  rw [outlineAll, outline_eq_cons] at h
  obtain ⟨less, hless, n, hline⟩ := h _ rfl
  exact absurd (line_inj hline).1 (Nat.ne_of_gt hless)

/-- Wherever the node stands, its lines tell what it is and where they end. -/
def ShowsItself (c : Node) : Prop :=
  ∀ {depth : Nat} {d : Node} {rest rest' : List String}, Shallower (depth + 1) rest → Shallower (depth + 1) rest' →
    c.outline depth ++ rest = d.outline depth ++ rest' → c = d ∧ rest = rest'

theorem outlineAll_append_inj {cs ds : List Node} (hcs : ∀ c ∈ cs, c.ShowsItself) (hrest : Shallower depth rest)
    (hrest' : Shallower depth rest') (h : outlineAll depth cs ++ rest = outlineAll depth ds ++ rest') :
    cs = ds ∧ rest = rest' := by
  induction cs generalizing ds with
  | nil =>
    cases ds with
    | nil => exact ⟨rfl, h⟩
    | cons d ds => exact absurd h (hrest.ne_outlineAll d ds)
  | cons c cs ih =>
    cases ds with
    | nil => exact absurd h.symm (hrest'.ne_outlineAll c cs)
    | cons d ds =>
      rw [List.forall_mem_cons] at hcs
      simp only [outlineAll, List.append_assoc] at h
      obtain ⟨rfl, htail⟩ := hcs.1 (hrest.outlineAll_append cs) (hrest'.outlineAll_append ds) h
      obtain ⟨rfl, hend⟩ := ih hcs.2 htail
      exact ⟨rfl, hend⟩

theorem showsItself (c : Node) : c.ShowsItself := by
  induction c with
  | leaf l =>
    intro depth d rest rest' _ _ h
    rw [outline_eq_cons, outline_eq_cons] at h
    obtain ⟨hline, htail⟩ := List.cons.inj h
    obtain rfl := eq_leaf_of_label (line_inj hline).2
    exact ⟨rfl, htail⟩
  | group shape cs ih =>
    intro depth d rest rest' hrest hrest' h
    rw [outline_eq_cons, outline_eq_cons] at h
    obtain ⟨hline, htail⟩ := List.cons.inj h
    obtain ⟨ds, rfl⟩ := eq_group_of_label (line_inj hline).2
    obtain ⟨rfl, hend⟩ := outlineAll_append_inj ih hrest hrest' htail
    exact ⟨rfl, hend⟩

/-! ### Lines without line feeds -/

theorem mem_outlineAll {line : String} {cs : List Node} :
    line ∈ outlineAll depth cs ↔ ∃ c ∈ cs, line ∈ c.outline depth := by
  induction cs with
  | nil => simp [outlineAll]
  | cons c cs ih => simp [outlineAll, ih]

theorem newline_notMem_outline (n : Node) : ∀ {depth : Nat}, ∀ line ∈ n.outline depth, '\n' ∉ line.toList := by
  induction n with
  | leaf l =>
    intro depth line hline
    rw [outline_eq_cons, List.mem_cons] at hline
    rcases hline with rfl | hline
    · simp [indentation, newline_notMem_label]
    · simp [outlineAll] at hline
  | group shape cs ih =>
    intro depth line hline
    rw [outline_eq_cons, List.mem_cons, children_group, mem_outlineAll] at hline
    rcases hline with rfl | ⟨c, hc, hline⟩
    · simp [indentation, newline_notMem_label]
    · exact ih c hc line hline

end Node

theorem Forest.newline_notMem_lines (roots : Forest) :
    ∀ line ∈ "Tree" :: Node.outlineAll 1 roots, '\n' ∉ line.toList := by
  rw [List.forall_mem_cons]
  refine ⟨by decide, fun line hline => ?_⟩
  obtain ⟨c, -, hline⟩ := Node.mem_outlineAll.mp hline
  exact c.newline_notMem_outline line hline

/-- Trees have the same outline only if they are the same. -/
theorem Forest.outline_eq_iff (a b : Forest) : a.outline = b.outline ↔ a = b := by
  refine ⟨fun h => ?_, congrArg outline⟩
  have hlines := join_lines_inj a.newline_notMem_lines b.newline_notMem_lines h
  have hend : Node.Shallower 1 [] := by simp [Node.Shallower]
  have hroots : Node.outlineAll 1 a ++ [] = Node.outlineAll 1 b ++ [] := by rw [(List.cons.inj hlines).2]
  exact (Node.outlineAll_append_inj (fun c _ => c.showsItself) hend hend hroots).1

end ClojureLayout
