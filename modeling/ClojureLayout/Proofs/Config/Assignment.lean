import ClojureLayout.Proofs.CommandLine.Breakdown

/-! What an entry of the configuration and an override of the command line say. Each sets a transform, named in one
    of several spellings, on or off, or it has a fault (`readEntry_eq_ok_iff`, `parseOverride_eq_ok_iff` and their
    counterparts for faults). -/

namespace ClojureLayout
open Text

/-! ### Names and words -/

namespace Transform

/-- Case, blanks around a name and the choice between hyphens and underscores do not matter. -/
def Denotes (name : String) (t : Transform) : Prop :=
  comparable (trimBlanks name.toList) = comparable t.name.toList

instance (name : String) (t : Transform) : Decidable (Denotes name t) := inferInstanceAs (Decidable (_ = _))

theorem mem_all (t : Transform) : t ∈ all := by
  cases t <;> decide

theorem comparable_name_inj {t u : Transform} (h : comparable t.name.toList = comparable u.name.toList) : t = u := by
  have hpairs : ∀ t ∈ all, ∀ u ∈ all, comparable t.name.toList = comparable u.name.toList → t = u := by
    decide +kernel
  exact hpairs t t.mem_all u u.mem_all h

theorem ofName?_eq_some_iff {name : String} {t : Transform} : ofName? name = some t ↔ Denotes name t := by
  constructor
  · intro h
    exact beq_iff_eq.mp (List.find?_some (p := fun t => _ == _) h)
  · intro h
    cases hfind : ofName? name with
    | none => exact absurd (beq_iff_eq.mpr h) (List.find?_eq_none.mp hfind t t.mem_all)
    | some u =>
      have hu : Denotes name u := beq_iff_eq.mp (List.find?_some (p := fun t => _ == _) hfind)
      rw [comparable_name_inj (hu.symm.trans h)]

theorem ofName?_eq_none_iff {name : String} : ofName? name = none ↔ ∀ t, ¬ Denotes name t := by
  simp only [← ofName?_eq_some_iff, Option.eq_none_iff_forall_ne_some, ne_eq]

end Transform

namespace Config
open Transform (Denotes)

/-- The word means on or off; case and blanks around it do not matter. -/
def Spells (word : String) (on : Bool) : Prop :=
  String.ofList (toSmall (trimBlanks word.toList)) ∈ if on then onWords else offWords

theorem notMem_offWords_of_mem_onWords : ∀ word ∈ onWords, word ∉ offWords := by decide

theorem parseOnOff_eq_ok_iff {word : String} {on : Bool} : parseOnOff word = .ok on ↔ Spells word on := by
  have hdisjoint := notMem_offWords_of_mem_onWords (String.ofList (toSmall (trimBlanks word.toList)))
  simp only [parseOnOff, Spells, List.contains_iff_mem]
  split
  · cases on <;> simp_all
  · split <;> cases on <;> simp_all

theorem parseOnOff_eq_error_iff {word : String} {fault : SettingsFault} :
    parseOnOff word = .error fault ↔ (∀ on, ¬ Spells word on) ∧ fault = .notOnOff word := by
  simp only [parseOnOff, Spells, List.contains_iff_mem, Bool.forall_bool]
  split
  · simp_all
  · split <;> simp_all [eq_comm]

theorem parseName_eq_ok_iff {name : String} {t : Transform} : parseName name = .ok t ↔ Denotes name t := by
  rw [← Transform.ofName?_eq_some_iff, parseName]
  cases Transform.ofName? name <;> simp

theorem parseName_eq_error_iff {name : String} {fault : SettingsFault} :
    parseName name = .error fault ↔ (∀ t, ¬ Denotes name t) ∧ fault = .unknownTransform name := by
  rw [← Transform.ofName?_eq_none_iff, parseName]
  cases Transform.ofName? name <;> simp [eq_comm]

/-! ### What an entry and an override say -/

/-- An entry of the configuration sets a transform to a value. -/
inductive EntrySets : String × Value → Transform × Bool → Prop
  | intro {key t on} (hname : Denotes key t) : EntrySets (key, .bool on) (t, on)

/-- What is wrong with an entry: its name is looked at before its value. A value that is refused and cannot even be
    shown is the one fault that is not refused in due form. -/
inductive EntryFault : String × Value → SettingsFault → Prop
  | unknownKey {key value} (hname : ∀ t, ¬ Denotes key t) : EntryFault (key, value) (.unknownKey key)
  | notBoolean {key value t} (hname : Denotes key t) (hvalue : ∀ on, value ≠ .bool on)
      (hwritable : value.isWritable = true) : EntryFault (key, value) (.notBoolean key value)
  | unwritable {key value t} (hname : Denotes key t) (hvalue : ∀ on, value ≠ .bool on)
      (hwritable : value.isWritable = false) : EntryFault (key, value) (.unwritable key)

/-- An override sets a transform to a value: what stands before its first equals sign names the one and what stands
    behind it the other. -/
inductive OverrideSets : String → Transform × Bool → Prop
  | intro {name word t on} (hfirst : '=' ∉ name.toList) (hname : Denotes name t) (hword : Spells word on) :
      OverrideSets (name ++ "=" ++ word) (t, on)

/-- What is wrong with an override: its form is looked at first, then its name, then its value. -/
inductive OverrideFault : String → SettingsFault → Prop
  | noValue {override} (hform : '=' ∉ override.toList) : OverrideFault override (.noValue override)
  | unknownTransform {name word} (hfirst : '=' ∉ name.toList) (hname : ∀ t, ¬ Denotes name t) :
      OverrideFault (name ++ "=" ++ word) (.unknownTransform name)
  | notOnOff {name word t} (hfirst : '=' ∉ name.toList) (hname : Denotes name t) (hword : ∀ on, ¬ Spells word on) :
      OverrideFault (name ++ "=" ++ word) (.notOnOff word)

/-- Takes in what an entry or an override says, as it is read. -/
def assign {α : Type} (read : α → Except SettingsFault (Transform × Bool)) (s : Settings) (a : α) :
    Except SettingsFault Settings := do
  let (t, on) ← read a
  return s.set t on

def readEntry (entry : String × Value) : Except SettingsFault (Transform × Bool) :=
  match Transform.ofName? entry.1 with
  | none => .error (.unknownKey entry.1)
  | some t =>
    match entry.2 with
    | .bool on => .ok (t, on)
    | value => .error (if value.isWritable then .notBoolean entry.1 value else .unwritable entry.1)

theorem applyEntry_eq_assign : applyEntry = assign readEntry := by
  funext s entry
  obtain ⟨key, value⟩ := entry
  unfold applyEntry assign readEntry
  cases Transform.ofName? key with
  | none => rfl
  | some t => cases value <;> rfl

theorem readEntry_eq_ok_iff {entry : String × Value} {a : Transform × Bool} :
    readEntry entry = .ok a ↔ EntrySets entry a := by
  obtain ⟨key, value⟩ := entry
  constructor
  · intro h
    unfold readEntry at h
    split at h
    · cases h
    · next t hname =>
      cases value with
      | bool on =>
        cases h
        exact .intro (Transform.ofName?_eq_some_iff.mp hname)
      | _ => cases h
  · rintro ⟨hname⟩
    simp only [readEntry, Transform.ofName?_eq_some_iff.mpr hname]

theorem readEntry_eq_error_iff {entry : String × Value} {fault : SettingsFault} :
    readEntry entry = .error fault ↔ EntryFault entry fault := by
  obtain ⟨key, value⟩ := entry
  constructor
  · intro h
    unfold readEntry at h
    split at h
    · next hname =>
      cases h
      exact .unknownKey (Transform.ofName?_eq_none_iff.mp hname)
    · next t hname =>
      have hdenotes := Transform.ofName?_eq_some_iff.mp hname
      split at h
      · cases h
      · next hvalue =>
        cases h
        split
        · next hwritable => exact .notBoolean hdenotes hvalue hwritable
        · next hwritable => exact .unwritable hdenotes hvalue (Bool.eq_false_iff.mpr hwritable)
  · intro h
    cases h with
    | unknownKey hname => simp only [readEntry, Transform.ofName?_eq_none_iff.mpr hname]
    | notBoolean hname hvalue hwritable =>
      simp only [readEntry, Transform.ofName?_eq_some_iff.mpr hname]
      cases value <;> simp_all
    | unwritable hname hvalue hwritable =>
      simp only [readEntry, Transform.ofName?_eq_some_iff.mpr hname]
      cases value <;> simp_all

/-- An override is divided at its first equals sign. -/
theorem parseOverride_append {name word : String} (hfirst : '=' ∉ name.toList) :
    parseOverride (name ++ "=" ++ word) = (do
      let t ← parseName name
      let on ← parseOnOff word
      return (t, on)) := by
  have hname : ∀ c ∈ name.toList, (c != '=') = true := by
    intro c hc
    rw [bne_iff_ne]
    rintro rfl
    exact hfirst hc
  have hlist : (name ++ "=" ++ word).toList = name.toList ++ '=' :: word.toList := by simp
  have htake : (name ++ "=" ++ word).toList.takeWhile (· != '=') = name.toList := by
    rw [hlist, List.takeWhile_append_of_pos hname]
    simp
  have hdrop : ((name ++ "=" ++ word).toList.dropWhile (· != '=')).drop 1 = word.toList := by
    rw [hlist, List.dropWhile_append_of_pos hname]
    simp
  unfold parseOverride
  simp only [htake, hdrop, String.ofList_toList]
  rw [if_pos (by simp [hlist])]

theorem override_cases (override : String) :
    '=' ∉ override.toList ∨ ∃ name word, '=' ∉ name.toList ∧ override = name ++ "=" ++ word := by
  by_cases hform : '=' ∈ override.toList
  · obtain ⟨name, word, hoverride, hfirst⟩ := List.eq_append_cons_of_mem hform
    refine .inr ⟨String.ofList name, String.ofList word, by simpa using hfirst, ?_⟩
    rw [← String.toList_inj, hoverride]
    simp
  · exact .inl hform

theorem parseOverride_eq_ok_iff {override : String} {a : Transform × Bool} :
    parseOverride override = .ok a ↔ OverrideSets override a := by
  constructor
  · intro h
    rcases override_cases override with hform | ⟨name, word, hfirst, rfl⟩
    · rw [parseOverride, if_neg hform] at h
      cases h
    · rw [parseOverride_append hfirst] at h
      obtain ⟨t, hname, h⟩ := bind_eq_ok_iff.mp h
      obtain ⟨on, hword, h⟩ := bind_eq_ok_iff.mp h
      cases h
      exact .intro hfirst (parseName_eq_ok_iff.mp hname) (parseOnOff_eq_ok_iff.mp hword)
  · rintro ⟨hfirst, hname, hword⟩
    rw [parseOverride_append hfirst, parseName_eq_ok_iff.mpr hname, parseOnOff_eq_ok_iff.mpr hword]
    rfl

theorem parseOverride_eq_error_iff {override : String} {fault : SettingsFault} :
    parseOverride override = .error fault ↔ OverrideFault override fault := by
  constructor
  · intro h
    rcases override_cases override with hform | ⟨name, word, hfirst, rfl⟩
    · rw [parseOverride, if_neg hform] at h
      cases h
      exact .noValue hform
    · rw [parseOverride_append hfirst] at h
      rcases bind_eq_error_iff.mp h with hname | ⟨t, hname, h⟩
      · obtain ⟨hdenotes, rfl⟩ := parseName_eq_error_iff.mp hname
        exact .unknownTransform hfirst hdenotes
      · rcases bind_eq_error_iff.mp h with hword | ⟨on, -, h⟩
        · obtain ⟨hspells, rfl⟩ := parseOnOff_eq_error_iff.mp hword
          exact .notOnOff hfirst (parseName_eq_ok_iff.mp hname) hspells
        · cases h
  · intro h
    cases h with
    | noValue hform => rw [parseOverride, if_neg hform]
    | unknownTransform hfirst hname =>
      rw [parseOverride_append hfirst, parseName_eq_error_iff.mpr ⟨hname, rfl⟩]
      rfl
    | notOnOff hfirst hname hword =>
      rw [parseOverride_append hfirst, parseName_eq_ok_iff.mpr hname, parseOnOff_eq_error_iff.mpr ⟨hword, rfl⟩]
      rfl

end Config
end ClojureLayout
