import ClojureLayout.Proofs.Config.Assignment

/-! Where the settings come from. An override of the command line decides over the configuration and this over what
    holds by default, and in each of these layers the last that denotes a transform decides. The first entry or
    override that is invalid is the one that is reported. The defaults are shared: they are copied before anything
    is set, and whatever happens they stay as they are. -/

namespace ClojureLayout
namespace Config

/-! ### One layer over another -/

section Layer
variable {α : Type} {sets : α → Transform × Bool → Prop} {faulty : α → SettingsFault → Prop} {xs : List α} {x : α}
  {t t₀ : Transform} {below on on₀ : Bool} {fault : SettingsFault}
  {read : α → Except SettingsFault (Transform × Bool)} {s s' : Settings}

/-- The last of a layer that denotes a transform decides what becomes of it. If there is none, it is left as the
    layers below have it. -/
inductive Layer (sets : α → Transform × Bool → Prop) (xs : List α) (t : Transform) (below : Bool) : Bool → Prop
  | last {before x after on} (hxs : xs = before ++ x :: after) (hx : sets x (t, on))
      (hlater : ∀ y ∈ after, ∀ on, ¬ sets y (t, on)) : Layer sets xs t below on
  | below (hnone : ∀ x ∈ xs, ∀ on, ¬ sets x (t, on)) : Layer sets xs t below below

/-- The first of a layer that is invalid has the fault. -/
inductive FirstFault (sets : α → Transform × Bool → Prop) (faulty : α → SettingsFault → Prop) (xs : List α)
    (fault : SettingsFault) : Prop
  | intro {before x after} (hxs : xs = before ++ x :: after) (hbefore : ∀ y ∈ before, ∃ a, sets y a)
      (hx : faulty x fault)

theorem Layer.nil_iff : Layer sets [] t below on ↔ below = on := by
  constructor
  · rintro (⟨hxs, -, -⟩ | -)
    · simp at hxs
    · rfl
  · rintro rfl
    exact .below (by simp)

/-- What the first of a layer sets is below the rest of it. -/
theorem Layer.cons_iff (hx : ∀ a, sets x a ↔ a = (t₀, on₀)) :
    Layer sets (x :: xs) t below on ↔ Layer sets xs t (if t = t₀ then on₀ else below) on := by
  constructor
  · rintro (⟨hxs, hy, hlater⟩ | hnone)
    · rename_i before y after
      rcases before with _ | ⟨z, before⟩
      · cases hxs
        cases (hx _).mp hy
        rw [if_pos rfl]
        exact .below hlater
      · cases hxs
        exact .last rfl hy hlater
    · have ht : t ≠ t₀ := by
        rintro rfl
        exact hnone x (.head xs) on₀ ((hx _).mpr rfl)
      rw [if_neg ht]
      exact .below fun y hy => hnone y (.tail x hy)
  · intro h
    cases h with
    | @last before y after on hxs hy hlater =>
      have hcons : x :: xs = (x :: before) ++ y :: after := by rw [hxs, List.cons_append]
      exact .last hcons hy hlater
    | below hnone =>
      split
      · next ht => exact .last (List.nil_append (x :: xs)).symm ((hx _).mpr (by rw [ht])) hnone
      · next ht =>
        refine .below ?_
        intro y hy on hon
        rcases List.mem_cons.mp hy with rfl | hy
        · cases (hx _).mp hon
          exact ht rfl
        · exact hnone y hy on hon

theorem foldlM_assign_cons_ok {a : Transform × Bool} (hx : read x = .ok a) :
    (x :: xs).foldlM (assign read) s = xs.foldlM (assign read) (s.set a.1 a.2) := by
  rw [List.foldlM_cons, assign, hx]
  rfl

/-- A layer is taken in if all of it is valid, and what it leaves is as it is laid over the settings below. -/
theorem foldlM_assign_eq_ok_iff (hread : ∀ {x a}, read x = .ok a ↔ sets x a) :
    xs.foldlM (assign read) s = .ok s' ↔
      (∀ x ∈ xs, ∃ a, sets x a) ∧ ∀ t, Layer sets xs t (s t) (s' t) := by
  -- From the front: the rest of the layer is laid over the settings with its first taken in.
  induction xs generalizing s with
  | nil =>
    simp only [List.foldlM_nil, pure, Except.pure, Except.ok.injEq, List.not_mem_nil, false_implies, implies_true,
      true_and, Layer.nil_iff]
    exact funext_iff
  | cons x xs ih =>
    cases hx : read x with
    | error fault =>
      have hno : ¬ ∃ a, sets x a := by
        rintro ⟨a, ha⟩
        rw [hread.mpr ha] at hx
        cases hx
      have hfold : (x :: xs).foldlM (assign read) s = .error fault := by
        rw [List.foldlM_cons, assign, hx]
        rfl
      rw [hfold]
      exact iff_of_false (by simp) fun h => hno (h.1 x (.head xs))
    | ok a =>
      obtain ⟨t₀, on₀⟩ := a
      have hsets : ∀ a, sets x a ↔ a = (t₀, on₀) := by
        intro a
        rw [← hread, hx, Except.ok.injEq, eq_comm]
      simp only [foldlM_assign_cons_ok hx, ih, List.forall_mem_cons, Layer.cons_iff hsets, Settings.set, hsets,
        exists_eq, true_and]

theorem exists_foldlM_assign (hread : ∀ {x a}, read x = .ok a ↔ sets x a) (hxs : ∀ x ∈ xs, ∃ a, sets x a)
    (s : Settings) : ∃ s', xs.foldlM (assign read) s = .ok s' := by
  induction xs generalizing s with
  | nil => exact ⟨s, rfl⟩
  | cons x xs ih =>
    obtain ⟨a, ha⟩ := hxs x (.head xs)
    rw [foldlM_assign_cons_ok (hread.mpr ha)]
    exact ih (fun y hy => hxs y (.tail x hy)) _

theorem foldlM_assign_eq_error_iff (hread : ∀ {x a}, read x = .ok a ↔ sets x a)
    (hfault : ∀ {x fault}, read x = .error fault ↔ faulty x fault) :
    xs.foldlM (assign read) s = .error fault ↔ FirstFault sets faulty xs fault := by
  have hassign (s : Settings) (x : α) : assign read s x = .error fault ↔ faulty x fault := by
    rw [← hfault, assign, bind_eq_error_iff]
    simp [pure, Except.pure]
  rw [foldlM_eq_error_iff]
  constructor
  · rintro ⟨before, x, after, last, hxs, hbefore, hx⟩
    exact .intro hxs ((foldlM_assign_eq_ok_iff hread).mp hbefore).1 ((hassign last x).mp hx)
  · rintro ⟨hxs, hbefore, hx⟩
    obtain ⟨last, hlast⟩ := exists_foldlM_assign hread hbefore s
    exact ⟨_, _, _, last, hxs, hlast, (hassign last _).mpr hx⟩

end Layer

/-! ### The settings as layers -/

variable {config : Table} {overrides : List String} {fault : SettingsFault}

def EntriesValid (config : Table) : Prop := ∀ entry ∈ transformEntries config, ∃ a, EntrySets entry a

theorem resolveSettings_eq_ok_iff {s : Settings} : resolveSettings config overrides = .ok s ↔
    EntriesValid config ∧ (∀ override ∈ overrides, ∃ a, OverrideSets override a) ∧
      ∀ t, ∃ configured, Layer EntrySets (transformEntries config) t true configured ∧
        Layer OverrideSets overrides t configured (s t) := by
  rw [resolveSettings, bind_eq_ok_iff, applyEntry_eq_assign]
  simp only [foldlM_assign_eq_ok_iff readEntry_eq_ok_iff]
  change (∃ configured, _ ∧ overrides.foldlM (assign parseOverride) configured = .ok s) ↔ _
  simp only [foldlM_assign_eq_ok_iff parseOverride_eq_ok_iff]
  constructor
  · rintro ⟨configured, ⟨hentries, hconfigured⟩, hoverrides, hs⟩
    exact ⟨hentries, hoverrides, fun t => ⟨configured t, hconfigured t, hs t⟩⟩
  · rintro ⟨hentries, hoverrides, h⟩
    obtain ⟨configured, hlayers⟩ := Classical.skolem.mp h
    exact ⟨configured, ⟨hentries, fun t => (hlayers t).1⟩, hoverrides, fun t => (hlayers t).2⟩

theorem resolveSettings_eq_error_iff : resolveSettings config overrides = .error fault ↔
    FirstFault EntrySets EntryFault (transformEntries config) fault ∨
      EntriesValid config ∧ FirstFault OverrideSets OverrideFault overrides fault := by
  rw [resolveSettings, bind_eq_error_iff, applyEntry_eq_assign,
    foldlM_assign_eq_error_iff readEntry_eq_ok_iff readEntry_eq_error_iff]
  refine or_congr_right ?_
  change (∃ configured, _ ∧ overrides.foldlM (assign parseOverride) configured = .error fault) ↔ _
  simp only [foldlM_assign_eq_error_iff parseOverride_eq_ok_iff parseOverride_eq_error_iff, exists_and_right]
  refine and_congr_left fun _ => ?_
  constructor
  · rintro ⟨configured, hconfigured⟩
    exact ((foldlM_assign_eq_ok_iff readEntry_eq_ok_iff).mp hconfigured).1
  · intro hentries
    exact exists_foldlM_assign readEntry_eq_ok_iff hentries _

/-- A value of the key that is no table is passed over. -/
theorem transformEntries_eq_nil (h : ∀ entries, config.get? "transforms" ≠ some (.table entries)) :
    transformEntries config = [] := by
  unfold transformEntries
  split
  · next entries hentries => exact absurd hentries (h entries)
  · rfl

/-- The fault is told as a refused argument. The other breaks the resolution down. -/
def SettingsFault.IsRefusal : SettingsFault → Prop
  | .unwritable _ => False
  | _ => True

/-- The first entry that is invalid is one that cannot be shown. -/
def StopsUnshown (config : Table) : Prop :=
  ∃ before entry after, transformEntries config = before ++ entry :: after ∧
    (∀ e ∈ before, ∃ a, EntrySets e a) ∧ Unshowable entry

theorem isRefusal_iff (h : resolveSettings config overrides = .error fault) :
    fault.IsRefusal ↔ ¬ StopsUnshown config := by
  have hstops : (∃ key, resolveSettings config overrides = .error (.unwritable key)) ↔ StopsUnshown config := by
    rw [resolveSettings_eq_unwritable_iff, applyEntry_eq_assign]
    constructor
    · rintro ⟨before, entry, after, s, hentries, hbefore, hentry⟩
      exact ⟨before, entry, after, hentries, ((foldlM_assign_eq_ok_iff readEntry_eq_ok_iff).mp hbefore).1, hentry⟩
    · rintro ⟨before, entry, after, hentries, hbefore, hentry⟩
      obtain ⟨s, hs⟩ := exists_foldlM_assign readEntry_eq_ok_iff hbefore Settings.default
      exact ⟨before, entry, after, s, hentries, hs, hentry⟩
  rw [← hstops, h]
  cases fault <;> simp [SettingsFault.IsRefusal]

/-! ### The defaults are shared -/

/-- Mappings by their places. Those from `next` on are not taken yet. -/
structure Store where
  mapping : Nat → Settings
  next : Nat

namespace Store
variable (σ : Store) {place : Nat} {s s' : Settings}

def write (place : Nat) (s : Settings) : Store :=
  { σ with mapping := fun p => if p = place then s else σ.mapping p }

def grown : Store := { σ with next := σ.next + 1 }

@[simp] theorem write_mapping : (σ.write place s).mapping place = s := if_pos rfl

theorem write_mapping_of_ne {p : Nat} (h : p ≠ place) : (σ.write place s).mapping p = σ.mapping p := if_neg h

@[simp] theorem write_write : (σ.write place s).write place s' = σ.write place s' := by
  simp only [write, mk.injEq, and_true]
  funext p
  split <;> rfl

@[simp] theorem write_self : σ.write place (σ.mapping place) = σ := by
  obtain ⟨mapping, next⟩ := σ
  simp only [write, mk.injEq, and_true]
  funext p
  split
  · next h => rw [h]
  · rfl

end Store

/-- Steps on a store. A step that fails leaves the store as it stands at that moment. -/
abbrev InPlace := EStateM SettingsFault Store

/-- Takes a new place and copies a mapping there. -/
def copyOf (place : Nat) : InPlace Nat :=
  modifyGet fun σ => (σ.next, σ.grown.write σ.next (σ.mapping place))

def setItem (place : Nat) (t : Transform) (on : Bool) : InPlace Unit :=
  modify fun σ => σ.write place ((σ.mapping place).set t on)

def takeIn {α : Type} (read : α → Except SettingsFault (Transform × Bool)) (place : Nat) (a : α) : InPlace Unit := do
  let (t, on) ← liftExcept (read a)
  setItem place t on

def takeLayers (config : Table) (overrides : List String) (place : Nat) : InPlace Unit := do
  (transformEntries config).forM (takeIn readEntry place)
  overrides.forM (takeIn parseOverride place)

/-- Resolves the settings on a copy of the defaults and returns its place. -/
def resolveInPlace (defaults : Nat) (config : Table) (overrides : List String) : InPlace Nat := do
  let place ← copyOf defaults
  takeLayers config overrides place
  return place

section InPlace
variable {α : Type} {read : α → Except SettingsFault (Transform × Bool)} {place : Nat} {σ : Store} {s : Settings}
  {outcome : Except SettingsFault Settings} {result : EStateM.Result SettingsFault Store Unit}

/-- Steps on a mapping at a place of a store come out as they do on the mapping by itself, and whatever happens
    nothing but the place has been written. -/
inductive Mirrors (place : Nat) (σ : Store) :
    Except SettingsFault Settings → EStateM.Result SettingsFault Store Unit → Prop
  | ok (s : Settings) : Mirrors place σ (.ok s) (.ok () (σ.write place s))
  | error (fault : SettingsFault) (s : Settings) : Mirrors place σ (.error fault) (.error fault (σ.write place s))

theorem Mirrors.of_write (h : Mirrors place (σ.write place s) outcome result) :
    Mirrors place σ outcome result := by
  cases h with
  | ok s' =>
    rw [Store.write_write]
    exact .ok s'
  | error fault s' =>
    rw [Store.write_write]
    exact .error fault s'

theorem takeIn_mirrors (read : α → Except SettingsFault (Transform × Bool)) (place : Nat) (σ : Store) (a : α) :
    Mirrors place σ (assign read (σ.mapping place) a) (takeIn read place a σ) := by
  unfold assign takeIn
  cases read a with
  | error fault =>
    have hmirrors : Mirrors place σ (.error fault) (.error fault (σ.write place (σ.mapping place))) := .error fault _
    rwa [Store.write_self] at hmirrors
  | ok a => exact .ok _

theorem Mirrors.bind {first rest : InPlace Unit}
    {go : Settings → Except SettingsFault Settings} (hfirst : Mirrors place σ outcome (first σ))
    (hrest : ∀ τ : Store, Mirrors place τ (go (τ.mapping place)) (rest τ)) :
    Mirrors place σ (outcome >>= go) ((first >>= fun _ => rest) σ) := by
  change Mirrors place σ (outcome >>= go) (EStateM.bind first (fun _ => rest) σ)
  unfold EStateM.bind
  generalize first σ = result at hfirst
  cases hfirst with
  | ok s =>
    have hgo := hrest (σ.write place s)
    rw [Store.write_mapping] at hgo
    exact hgo.of_write
  | error fault s => exact .error fault s

theorem forM_mirrors (read : α → Except SettingsFault (Transform × Bool)) (place : Nat) (xs : List α) (σ : Store) :
    Mirrors place σ (xs.foldlM (assign read) (σ.mapping place)) (xs.forM (takeIn read place) σ) := by
  induction xs generalizing σ with
  | nil =>
    have hmirrors : Mirrors place σ (.ok (σ.mapping place)) (.ok () (σ.write place (σ.mapping place))) := .ok _
    rwa [Store.write_self] at hmirrors
  | cons x xs ih =>
    rw [List.foldlM_cons]
    exact (takeIn_mirrors read place σ x).bind ih

theorem takeLayers_mirrors (h : σ.mapping place = Settings.default) :
    Mirrors place σ (resolveSettings config overrides) (takeLayers config overrides place σ) := by
  have hentries := forM_mirrors readEntry place (transformEntries config) σ
  rw [h, ← applyEntry_eq_assign] at hentries
  exact hentries.bind (forM_mirrors parseOverride place overrides)

theorem resolveInPlace_eq (defaults : Nat) : resolveInPlace defaults config overrides σ =
    match takeLayers config overrides σ.next (σ.grown.write σ.next (σ.mapping defaults)) with
    | .ok _ τ => .ok σ.next τ
    | .error fault τ => .error fault τ := by
  change EStateM.bind (takeLayers config overrides σ.next) (fun _ => pure σ.next) _ = _
  unfold EStateM.bind
  cases takeLayers config overrides σ.next _ <;> rfl

/-- The outcome is that of the settings by themselves, and every mapping that was there is kept. -/
theorem resolveInPlace_outcome {defaults : Nat} (hdefaults : σ.mapping defaults = Settings.default) :
    ∃ τ, (∀ place < σ.next, τ.mapping place = σ.mapping place) ∧
      ((∃ place, resolveInPlace defaults config overrides σ = .ok place τ ∧
          resolveSettings config overrides = .ok (τ.mapping place)) ∨
        ∃ fault, resolveInPlace defaults config overrides σ = .error fault τ ∧
          resolveSettings config overrides = .error fault) := by
  have hmirrors : Mirrors σ.next (σ.grown.write σ.next Settings.default) (resolveSettings config overrides)
      (takeLayers config overrides σ.next (σ.grown.write σ.next Settings.default)) :=
    takeLayers_mirrors σ.grown.write_mapping
  have hkept (s : Settings) : ∀ place < σ.next, (σ.grown.write σ.next s).mapping place = σ.mapping place :=
    fun place hplace => σ.grown.write_mapping_of_ne (Nat.ne_of_lt hplace)
  rw [resolveInPlace_eq, hdefaults]
  generalize takeLayers config overrides σ.next _ = result at hmirrors
  generalize resolveSettings config overrides = outcome at hmirrors
  -- The copy is the first write to the new place, and what is set is written over it.
  cases hmirrors.of_write with
  | ok s => exact ⟨_, hkept s, .inl ⟨_, rfl, by rw [Store.write_mapping]⟩⟩
  | error fault s => exact ⟨_, hkept s, .inr ⟨fault, rfl, rfl⟩⟩

end InPlace

/-- Every override that denotes a transform decides over every entry that does, of each the last, and what is denoted
    by none is on. Settings that cannot be resolved have the fault of the first entry, and then of the first override,
    that is invalid. All of it is done on a copy of the defaults. Values are shown in a message however deeply they
    are nested, as the limit on calls within calls is set aside, and overrides are of characters that can be
    encoded. -/
theorem resolveSettings_layered (config : Table) (overrides : List String) :
    ((∀ entries, config.get? "transforms" ≠ some (.table entries)) → transformEntries config = []) ∧
    (∀ s, resolveSettings config overrides = .ok s ↔
      EntriesValid config ∧ (∀ override ∈ overrides, ∃ a, OverrideSets override a) ∧
        ∀ t, ∃ configured, Layer EntrySets (transformEntries config) t true configured ∧
          Layer OverrideSets overrides t configured (s t)) ∧
    (∀ fault, resolveSettings config overrides = .error fault ↔
      FirstFault EntrySets EntryFault (transformEntries config) fault ∨
        EntriesValid config ∧ FirstFault OverrideSets OverrideFault overrides fault) ∧
    (∀ fault, resolveSettings config overrides = .error fault → (fault.IsRefusal ↔ ¬ StopsUnshown config)) ∧
    ∀ (σ : Store) (defaults : Nat), defaults < σ.next → σ.mapping defaults = Settings.default →
      ∃ τ, τ.mapping defaults = Settings.default ∧ (∀ place < σ.next, τ.mapping place = σ.mapping place) ∧
        ((∃ place, resolveInPlace defaults config overrides σ = .ok place τ ∧
            resolveSettings config overrides = .ok (τ.mapping place)) ∨
          ∃ fault, resolveInPlace defaults config overrides σ = .error fault τ ∧
            resolveSettings config overrides = .error fault) := by
  refine ⟨transformEntries_eq_nil, fun s => resolveSettings_eq_ok_iff, fun fault => resolveSettings_eq_error_iff,
    fun fault => isRefusal_iff, ?_⟩
  intro σ defaults htaken hdefaults
  obtain ⟨τ, hkept, houtcome⟩ := resolveInPlace_outcome hdefaults
  exact ⟨τ, (hkept defaults htaken).trans hdefaults, hkept, houtcome⟩

example : (resolveSettings [("transforms", .table [("SORT_IMPORT_REQUIRE", .bool false),
    (" sort-import-require", .bool true)])] ["remove-trailing-newlines= OFF"]).toOption.map
      Transform.all.map = some [true, false, true, true, true] := by decide +kernel

/-- There is no table, and the override is no assignment. -/
theorem resolveSettings_layered_without_table :
    (∀ entries, Table.get? [("transforms", .bool false)] "transforms" ≠ some (.table entries)) ∧
    transformEntries [("transforms", .bool false)] = [] ∧
    resolveSettings [("transforms", .bool false)] ["off"] = .error (.noValue "off") ∧
    ((SettingsFault.noValue "off").IsRefusal ↔ ¬ StopsUnshown [("transforms", .bool false)]) ∧
    0 < (Store.mk (fun _ => Settings.default) 1).next ∧
    (Store.mk (fun _ => Settings.default) 1).mapping 0 = Settings.default ∧
    ∃ τ, resolveInPlace 0 [("transforms", .bool false)] ["off"] ⟨fun _ => Settings.default, 1⟩ =
      .error (.noValue "off") τ ∧ τ.mapping 0 = Settings.default := by
  have hkey : ∀ entries, Table.get? [("transforms", .bool false)] "transforms" ≠ some (.table entries) := by
    intro entries
    simp [Table.get?]
  have hform : resolveSettings [("transforms", .bool false)] ["off"] = .error (.noValue "off") := rfl
  obtain ⟨htable, -, -, hrefusal, hshared⟩ := resolveSettings_layered [("transforms", .bool false)] ["off"]
  refine ⟨hkey, htable hkey, hform, hrefusal _ hform, Nat.one_pos, rfl, ?_⟩
  obtain ⟨τ, hdefaults, -, ⟨place, -, hok⟩ | ⟨fault, hplace, herror⟩⟩ :=
    hshared ⟨fun _ => Settings.default, 1⟩ 0 Nat.one_pos rfl
  · rw [hform] at hok
    cases hok
  · rw [hform] at herror
    cases herror
    exact ⟨τ, hplace, hdefaults⟩

/-- An entry whose value is a whole number of more than 4300 digits is invalid, and it is not refused. -/
theorem resolveSettings_unshown_entry :
    (¬ EntriesValid [("transforms", .table [("sort-import-require", .integer (Nat.pow 10 mostDigits))])]) ∧
    resolveSettings [("transforms", .table [("sort-import-require", .integer (Nat.pow 10 mostDigits))])] [] =
      .error (.unwritable "sort-import-require") ∧
    ¬ ∃ fault, resolveSettings [("transforms", .table [("sort-import-require", .integer (Nat.pow 10 mostDigits))])] [] =
      .error fault ∧ fault.IsRefusal := by
  have hwritable : (Value.integer (Nat.pow 10 mostDigits)).isWritable = false := by
    simp only [Value.isWritable, Int.natAbs_natCast, Nat.lt_irrefl, decide_false]
  have hfault : EntryFault ("sort-import-require", .integer (Nat.pow 10 mostDigits))
      (.unwritable "sort-import-require") :=
    .unwritable (t := .sortImportRequire) (by decide +kernel) nofun hwritable
  have hsettings : resolveSettings
      [("transforms", .table [("sort-import-require", .integer (Nat.pow 10 mostDigits))])] [] =
        .error (.unwritable "sort-import-require") :=
    resolveSettings_eq_error_iff.mpr (.inl (.intro (List.nil_append [_]).symm (by simp) hfault))
  refine ⟨?_, hsettings, ?_⟩
  · intro hvalid
    obtain ⟨a, ha⟩ := hvalid _ (.head _)
    cases ha
  · rintro ⟨fault, hfault, hrefusal⟩
    rw [hsettings] at hfault
    cases hfault
    exact hrefusal

end Config
end ClojureLayout
