import ClojureLayout.Proofs.Tree.Edit
import ClojureLayout.Proofs.Tree.Repeated

/-! No edit of a tree fails, but for the sort of a list that has no head. Each step that may fail is taken
    only behind a check of the list or of the node (`fixDefnArglist_eq_ok`, `trim_eq_ok`, ...), and the keys of
    any two nodes can be compared (`partsLt_parts`). Given enough depth, an edit makes of a tree what the
    transforms make of it. -/

namespace ClojureLayout
open Node

/-! ### Keys -/

theorem EntryKey.partsLt_name (x y : String) : partsLt [.name x] [.name y] = .ok (!decide (y ≤ x)) := by
  by_cases hxy : x = y
  · simp [partsLt, hxy]
  · simp [partsLt, KeyPart.lt, hxy]

/-- Two keys differ first in parts that are both numbers or both names. -/
theorem EntryKey.partsLt_parts (a b : EntryKey) : partsLt a.parts b.parts = .ok (!b.le a) := by
  cases a with
  | library x =>
    cases b with
    | library y => exact partsLt_name x y
    | _ => rfl
  | spec x =>
    cases b with
    | spec y => exact partsLt_name x y
    | _ => rfl
  | _ => cases b <;> rfl

namespace Entry
variable {e : Entry} {es before after : List Entry}

theorem insert_cons (e d : Entry) (rest : List Entry) : e.insert (d :: rest) =
    if e.le d then .ok (e :: d :: rest) else (e.insert rest).map (d :: ·) := by
  rw [insert, EntryKey.partsLt_parts, le]
  cases e.node.entryKey.le d.node.entryKey with
  | true => rfl
  | false => rfl

/-- An entry is put behind those that must stand before it. -/
theorem insert_append (hbefore : ∀ d ∈ before, e.le d = false) (hafter : ∀ d ∈ after.head?, e.le d = true) :
    e.insert (before ++ after) = .ok (before ++ e :: after) := by
  induction before with
  | nil =>
    rcases after with _ | ⟨d, rest⟩
    · rfl
    · rw [List.nil_append, insert_cons, if_pos (hafter d rfl), List.nil_append]
  | cons d before ih =>
    have hd := hbefore d List.mem_cons_self
    rw [List.cons_append, insert_cons, if_neg (by simp [hd]), ih fun c hc => hbefore c (List.mem_cons_of_mem d hc)]
    rfl

theorem sort_eq_ok (es : List Entry) : Entry.sort es = .ok (es.mergeSort Entry.le) := by
  induction es with
  | nil =>
    rw [List.mergeSort_nil]
    rfl
  | cons e es ih =>
    obtain ⟨before, after, hcons, hes, hbefore, hafter⟩ := mergeSort_cons Entry.le_trans Entry.le_total e es
    rw [Entry.sort, ih, hcons, hes]
    exact insert_append hbefore fun d hd => hafter d (List.mem_of_mem_head? hd)

end Entry

/-! ### Lists of children -/

namespace Place
variable {α : Type}

theorem read_cons_zero (a : α) (as : List α) : read (a :: as) 0 = .ok a := rfl

theorem readFromEnd_reverse (as : List α) (i : Nat) : readFromEnd as.reverse i = read as i := by
  rw [readFromEnd, List.reverse_reverse]

end Place

theorem endsComment_reverse (last before : Node) (rest : List Node) :
    endsComment (last :: before :: rest).reverse = .ok before.isComment := by
  have hlength : 2 ≤ (last :: before :: rest).reverse.length := by simp
  rw [endsComment, if_pos hlength, Place.readFromEnd_reverse]
  rfl

theorem trim_eq {cs : List Node} (h : cs ≠ []) : trim cs = do
    if ← endsComment cs then
      return cs
    else if (← Place.readFromEnd cs 0).isNewline then
      trim cs.dropLast
    else
      return cs := by
  rcases cs with _ | ⟨c, rest⟩
  · exact absurd rfl h
  · rw [trim]

/-- Each place that is read is there: the list has been found not to be empty, or to hold two nodes. -/
theorem trim_reverse (cs : List Node) : trim cs.reverse = .ok (trimEnd cs).reverse := by
  fun_induction trimEnd cs with
  | case1 last before rest hcomment =>
    rw [trim_eq (by simp), endsComment_reverse, hcomment]
    rfl
  | case2 last before rest hcomment hlast ih =>
    rw [trim_eq (by simp), endsComment_reverse, Bool.eq_false_iff.mpr hcomment, Place.readFromEnd_reverse,
      Place.read_cons_zero, List.dropLast_reverse]
    show (if last.isNewline then trim (before :: rest).reverse else _) = _
    rw [if_pos hlast, ih]
  | case3 last before rest hcomment hlast =>
    rw [trim_eq (by simp), endsComment_reverse, Bool.eq_false_iff.mpr hcomment, Place.readFromEnd_reverse,
      Place.read_cons_zero]
    show (if last.isNewline then _ else _) = _
    rw [if_neg hlast]
    rfl
  | case4 last hlast =>
    rw [trim_eq (by simp), Place.readFromEnd_reverse]
    show (if last.isNewline then trim [] else _) = _
    rw [if_pos hlast, trim]
    rfl
  | case5 last hlast =>
    rw [trim_eq (by simp), Place.readFromEnd_reverse]
    show (if last.isNewline then _ else _) = _
    rw [if_neg hlast]
    rfl
  | case6 =>
    rw [List.reverse_nil, trim]

theorem trim_eq_ok (cs : List Node) : trim cs = .ok (trimChildren cs) := by
  rw [trimChildren, ← trim_reverse, List.reverse_reverse]

theorem dropLastUnlessComment_eq_ok (cs : List Node) : dropLastUnlessComment cs = .ok (dropFinalNewline cs) := by
  obtain ⟨ds, rfl⟩ : ∃ ds, cs = ds.reverse := ⟨cs.reverse, (List.reverse_reverse cs).symm⟩
  unfold dropLastUnlessComment dropFinalNewline
  rw [List.reverse_reverse, Place.readFromEnd_reverse]
  rcases ds with _ | ⟨last, _ | ⟨before, rest⟩⟩
  · rfl
  · rfl
  · rw [if_pos (by simp)]
    show (if before.isComment then _ else Place.removeLast _) = .ok (if before.isComment then _ else _)
    rw [Place.removeLast, Place.readFromEnd_reverse, Place.read_cons_zero, List.dropLast_reverse]
    split
    · rfl
    · rfl

/-! ### Edits that go through -/

namespace Edit
variable {α β : Type} {n m : Node} {edit : Edit Unit} {φ : Node → Node} {f : List Node → List Node}

theorem lift_bind {x : Except StepFault α} {a : α} (h : x = .ok a) (k : α → Edit β) (n : Node) :
    (lift x >>= k) n = k a n := by
  subst h
  rfl

theorem children_bind (k : List Node → Edit β) (n : Node) : (children >>= k) n = k n.children n := rfl

theorem setChildren_group (ds : List Node) (shape : Shape) (cs : List Node) :
    setChildren ds (.group shape cs) = .ok () (.group shape ds) := rfl

theorem onEach_eq_ok {cs : List Node} (h : ∀ c ∈ cs, edit c = .ok () (φ c)) : onEach edit cs = .ok () (cs.map φ) := by
  induction cs with
  | nil => rfl
  | cons c cs ih =>
    rw [onEach, h c List.mem_cons_self, ih fun d hd => h d (List.mem_cons_of_mem c hd)]
    rfl

theorem sortImportRequire_eq_ok (h : n.children ≠ []) : sortImportRequire n = .ok () (n.mapChildren sortedChildren) := by
  cases n using Node.casesOn with
  | leaf l => exact absurd rfl h
  | group shape cs =>
    obtain ⟨head, rest, rfl⟩ := List.exists_cons_of_ne_nil h
    have hread : (Entries.readAll {} rest).mapError StepFault.tree = .ok (Entries.addAll {} rest) := by
      rw [Entries.readAll_eq_ok Entries.sound_empty]
      rfl
    rw [sortImportRequire, children_bind, children_group, List.tail_cons, lift_bind hread, lift_bind (Entry.sort_eq_ok _),
      lift_bind (Place.read_cons_zero head rest), lift_bind (dropLastUnlessComment_eq_ok _), setChildren_group]
    rfl

/-- Without a head the sort breaks off before it has changed anything. -/
theorem sortImportRequire_eq_error (h : n.children = []) : sortImportRequire n = .error .noPlace n := by
  rw [sortImportRequire, children_bind, h]
  rfl

theorem sortNs_eq_ok (n : Node) : sortNs n = .ok () (n.mapChildren sortedClauses) := by
  have hclause (c : Node) : (do if (← get).isKeywordForm [":require", ":import"] then sortImportRequire : Edit Unit) c =
      .ok () c.sortedClause := by
    unfold sortedClause
    show (if c.isKeywordForm [":require", ":import"] then sortImportRequire else pure ()) c = _
    split
    · rename_i hform
      obtain ⟨name, rest, rfl, -⟩ := isKeywordForm_children hform
      exact sortImportRequire_eq_ok (List.cons_ne_nil _ _)
    · rfl
  rcases n with l | ⟨shape, _ | ⟨head, clauses⟩⟩
  · rfl
  · rfl
  · rw [sortNs, onChildrenFrom, List.drop_one, List.tail_cons, onEach_eq_ok fun c _ => hclause c]
    rfl

/-- The places from the third to the fifth are read only where there are five. -/
theorem fixDefnArglist_eq_ok (n : Node) : fixDefnArglist n = .ok () (n.mapChildren raiseArglist) := by
  rcases n with l | ⟨shape, _ | ⟨head, _ | ⟨name, _ | ⟨gap, _ | ⟨args, _ | ⟨next, rest⟩⟩⟩⟩⟩⟩
  · rfl
  · rfl
  · rfl
  · rfl
  · rfl
  · rfl
  · have hgap : Place.read (head :: name :: gap :: args :: next :: rest) 2 = .ok gap := rfl
    have hargs : Place.read (head :: name :: gap :: args :: next :: rest) 3 = .ok args := rfl
    have hnext : Place.read (head :: name :: gap :: args :: next :: rest) 4 = .ok next := rfl
    rw [fixDefnArglist, children_bind, children_group, if_neg (by simp), lift_bind hgap, mapChildren_group, raiseArglist]
    cases gap.isNewline with
    | false => rfl
    | true =>
      rw [Bool.not_true, if_neg Bool.false_ne_true, lift_bind hnext]
      cases next.isNewline with
      | true => rfl
      | false =>
        rw [if_neg Bool.false_ne_true, lift_bind hargs]
        cases args.isVector with
        | false => rfl
        | true => rfl

theorem fixDefmethodDispatchVal_eq_ok (n : Node) :
    fixDefmethodDispatchVal n = .ok () (n.mapChildren raiseDispatchVal) := by
  rcases n with l | ⟨shape, _ | ⟨head, _ | ⟨name, _ | ⟨gap, _ | ⟨value, _ | ⟨next, rest⟩⟩⟩⟩⟩⟩
  · rfl
  · rfl
  · rfl
  · rfl
  · rfl
  · rfl
  · have hgap : Place.read (head :: name :: gap :: value :: next :: rest) 2 = .ok gap := rfl
    have hvalue : Place.read (head :: name :: gap :: value :: next :: rest) 3 = .ok value := rfl
    have hnext : Place.read (head :: name :: gap :: value :: next :: rest) 4 = .ok next := rfl
    rw [fixDefmethodDispatchVal, children_bind, children_group, if_neg (by simp), lift_bind hgap, mapChildren_group,
      raiseDispatchVal]
    cases gap.isNewline with
    | false => rfl
    | true =>
      rw [Bool.not_true, if_neg Bool.false_ne_true, lift_bind hvalue]
      cases value.isKeyword with
      | false => rfl
      | true =>
        rw [Bool.not_true, if_neg Bool.false_ne_true, lift_bind hnext]
        cases next.isNewline with
        | true => rfl
        | false => rfl

/-! ### Edits at every depth -/

/-- Given enough depth, the edit makes `m` of the node. -/
def Makes (edit : Nat → Edit Unit) (n m : Node) : Prop := ∃ limit, ∀ depth, limit ≤ depth → edit depth n = .ok () m

theorem Makes.of_ok (h : edit n = .ok () m) : Makes (fun _ => edit) n m := ⟨0, fun _ _ => h⟩

theorem Makes.trans {edit edit' : Nat → Edit Unit} {k : Node} (h : Makes edit n m) (h' : Makes edit' m k) :
    Makes (fun depth => do edit depth; edit' depth) n k := by
  obtain ⟨limit, hlimit⟩ := h
  obtain ⟨limit', hlimit'⟩ := h'
  refine ⟨max limit limit', fun depth hdepth => ?_⟩
  have hfirst := hlimit depth (by omega)
  have hsecond := hlimit' depth (by omega)
  show EStateM.bind _ _ n = _
  rw [EStateM.bind, hfirst]
  exact hsecond

/-- One depth is enough for all nodes of a list. -/
theorem exists_depth {edit : Nat → Edit Unit} {cs : List Node} (h : ∀ c ∈ cs, Makes edit c (φ c)) :
    ∃ limit, ∀ depth, limit ≤ depth → ∀ c ∈ cs, edit depth c = .ok () (φ c) := by
  induction cs with
  | nil => exact ⟨0, fun _ _ c hc => by cases hc⟩
  | cons c cs ih =>
    obtain ⟨limit, hlimit⟩ := h c List.mem_cons_self
    obtain ⟨limit', hlimit'⟩ := ih fun d hd => h d (List.mem_cons_of_mem c hd)
    refine ⟨max limit limit', fun depth hdepth d hd => ?_⟩
    rcases List.mem_cons.mp hd with rfl | hd
    · exact hlimit depth (by omega)
    · exact hlimit' depth (by omega) d hd

/-- An edit of the children of a node, made of a node first and then of those of its children that it leaves. -/
theorem makes_everywhere (hedit : ∀ shape cs, cs ≠ [] → edit (.group shape cs) = .ok () (.group shape (f cs)))
    (hshallow : Shallow f) (hsub : ∀ cs, f cs ⊆ cs) (n : Node) : Makes (everywhere edit) n (n.everywhere f) := by
  induction n with
  | leaf l =>
    refine ⟨1, fun depth hdepth => ?_⟩
    obtain ⟨depth, rfl⟩ := Nat.exists_eq_add_of_le' hdepth
    rw [everywhere_leaf]
    rfl
  | group shape cs ih =>
    obtain ⟨limit, hlimit⟩ := exists_depth ih
    refine ⟨limit + 1, fun depth hdepth => ?_⟩
    obtain ⟨depth, rfl⟩ := Nat.exists_eq_add_of_le' (Nat.le_of_add_left_le hdepth)
    rw [everywhere_group, everywhere, children_bind, children_group]
    rcases cs with _ | ⟨c, cs⟩
    · have hnil : f [] = [] := List.subset_nil.mp (hsub [])
      rw [List.map_nil, hnil]
      rfl
    · -- The edit of the node comes first and goes by what its children are; it leaves only some of these.
      have heach := onEach_eq_ok fun d hd => hlimit depth (by omega) d (hsub (c :: cs) hd)
      show EStateM.bind edit _ _ = _
      rw [EStateM.bind, hedit shape (c :: cs) (List.cons_ne_nil c cs)]
      show onChildrenFrom 0 (everywhere edit depth) (.group shape (f (c :: cs))) = _
      rw [onChildrenFrom, List.drop_zero, heach, hshallow _ (everywhere_keepsShape f)]
      rfl

theorem makes_removeTrailingNewlines (n : Node) : Makes removeTrailingNewlines n n.removeTrailingNewlines := by
  refine makes_everywhere (fun shape cs _ => ?_) shallow_trimChildren (fun cs => (trimChildren_begins cs).subset) n
  show (lift (trim cs) >>= setChildren) _ = _
  rw [lift_bind (trim_eq_ok cs)]
  rfl

theorem makes_removeExtraBlankLines (n : Node) : Makes removeExtraBlankLines n n.removeExtraBlankLines := by
  rw [removeExtraBlankLines_eq]
  refine makes_everywhere (fun shape cs _ => ?_) shallow_collapseBlankLines
    (fun cs => (collapseBlankLines_sublist cs).subset) n
  show (if 2 < cs.length then setChildren (collapseBlankLines cs) else pure ()) _ = _
  split
  · rfl
  · rename_i h
    rw [collapseBlankLines_of_length_le (by omega)]
    rfl

/-! ### Trees -/

theorem onForm_eq_ok (hedit : ∀ n, edit n = .ok () (n.mapChildren f)) (on : Bool) (name : String) (n : Node) :
    onForm on name edit n = .ok () (n.changedForm on name f) := by
  unfold changedForm
  show (if on && n.isSymbolForm [name] then edit else pure ()) n = _
  split
  · exact hedit n
  · rfl

theorem makes_onlyIf {edit : Nat → Edit Unit} (h : ∀ n, Makes edit n (φ n)) (on : Bool) (n : Node) :
    Makes (fun depth => onlyIf on (edit depth)) n (if on then φ n else n) := by
  cases on with
  | false => exact .of_ok rfl
  | true => exact h n

theorem makes_root (s : Settings) (n : Node) : Makes (root s) n (n.formatted s) := by
  have hsorted (n : Node) := Makes.of_ok (onForm_eq_ok sortNs_eq_ok (s .sortImportRequire) "ns" n)
  have htrimmed (n : Node) := makes_onlyIf makes_removeTrailingNewlines (s .removeTrailingNewlines) n
  have harglist (n : Node) := Makes.of_ok (onForm_eq_ok fixDefnArglist_eq_ok (s .fixDefnArglistNewline) "defn" n)
  have hdispatchVal (n : Node) :=
    Makes.of_ok (onForm_eq_ok fixDefmethodDispatchVal_eq_ok (s .fixDefmethodDispatchValNewline) "defmethod" n)
  have hcollapsed (n : Node) := makes_onlyIf makes_removeExtraBlankLines (s .removeExtraBlankLines) n
  exact (hsorted n).trans ((htrimmed _).trans ((harglist _).trans ((hdispatchVal _).trans (hcollapsed _))))

theorem forest_eq_ok (s : Settings) (roots : Forest) :
    ∃ limit, ∀ depth, limit ≤ depth → forest s depth roots = .ok () (Forest.formatted s roots) := by
  obtain ⟨limit, hlimit⟩ := exists_depth fun root (_ : root ∈ roots) => makes_root s root
  refine ⟨limit, fun depth hdepth => ?_⟩
  show EStateM.bind _ _ roots = _
  rw [EStateM.bind, onEach_eq_ok (hlimit depth hdepth), Forest.formatted]
  cases s .removeExtraBlankLines <;> rfl

end Edit

/-- Whatever the forms of a tree look like, no transform fails on it, and no edit that the transforms consist of fails
    on any node, but for the sort of a list without a head, which changes nothing. No comparison of keys fails. -/
theorem transforms_never_fail :
    (∀ s roots, ∃ out, Forest.format s roots = .ok out ∧
      ∃ limit, ∀ depth, limit ≤ depth → Edit.forest s depth roots = .ok () out) ∧
    (∀ n : Node, n.children = [] → sortImportRequire n = .error .noHead ∧ Edit.sortImportRequire n = .error .noPlace n) ∧
    (∀ n : Node, n.children ≠ [] → ∃ out, sortImportRequire n = .ok out ∧ Edit.sortImportRequire n = .ok () out) ∧
    (∀ n, ∃ out, sortNs n = .ok out ∧ Edit.sortNs n = .ok () out) ∧
    (∀ n, Edit.Makes Edit.removeTrailingNewlines n n.removeTrailingNewlines) ∧
    (∀ n, ∃ out, fixDefnArglist n = .ok out ∧ Edit.fixDefnArglist n = .ok () out) ∧
    (∀ n, ∃ out, fixDefmethodDispatchVal n = .ok out ∧ Edit.fixDefmethodDispatchVal n = .ok () out) ∧
    (∀ n, Edit.Makes Edit.removeExtraBlankLines n n.removeExtraBlankLines) ∧
    ∀ a b : Node, EntryKey.partsLt a.entryKey.parts b.entryKey.parts = .ok (!b.entryKey.le a.entryKey) := by
  refine ⟨fun s roots => ⟨_, Forest.format_eq_ok s roots, Edit.forest_eq_ok s roots⟩, fun n h => ⟨?_, ?_⟩, fun n h => ?_,
    fun n => ⟨_, sortNs_eq_ok n, Edit.sortNs_eq_ok n⟩, Edit.makes_removeTrailingNewlines,
    fun n => ⟨_, fixDefnArglist_eq_ok n, Edit.fixDefnArglist_eq_ok n⟩,
    fun n => ⟨_, fixDefmethodDispatchVal_eq_ok n, Edit.fixDefmethodDispatchVal_eq_ok n⟩,
    Edit.makes_removeExtraBlankLines, fun a b => EntryKey.partsLt_parts _ _⟩
  · rw [sortImportRequire, h]
  · exact Edit.sortImportRequire_eq_error h
  · exact ⟨_, sortImportRequire_eq_ok h, Edit.sortImportRequire_eq_ok h⟩

/-- A map of nothing has no head, and of a set of nothing but layout a comment is the head. -/
theorem transforms_never_fail_on_malformed_forms :
    (children (.group .map []) = [] ∧ Edit.sortImportRequire (.group .map []) = .error .noPlace (.group .map [])) ∧
    children (.group .set [comment "; x", newline]) ≠ [] ∧
    Edit.sortImportRequire (.group .set [comment "; x", newline]) = .ok () (.group .set [comment "; x"]) := by
  have hnone : children (.group .map []) = [] := rfl
  have hsome : children (.group .set [comment "; x", newline]) ≠ [] := List.cons_ne_nil _ _
  refine ⟨⟨hnone, (transforms_never_fail.2.1 _ hnone).2⟩, hsome, ?_⟩
  obtain ⟨out, hout, hedit⟩ := transforms_never_fail.2.2.1 _ hsome
  have hsort : sortImportRequire (.group .set [comment "; x", newline]) = .ok (.group .set [comment "; x"]) := by cbv
  obtain rfl := Except.ok.inj (hsort.symm.trans hout)
  exact hedit

end ClojureLayout
