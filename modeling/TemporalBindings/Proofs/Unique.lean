import Mathlib.Data.List.Flatten
import Mathlib.Data.List.Nodup
import TemporalBindings.Bindings.Uniqueness

/-!
# TemporalBindings.Proofs.Unique

What it takes for files to be accepted: no name is declared twice under one import
path, be it in one file or in several. Import paths are looked at each for itself, so that
the order of the files and what stands under other paths make no difference. If files are
refused, it is for the first name that is declared again, read from the first file to the
last and in each from the first declaration to the last.
-/

namespace TemporalBindings.Bindings

/-- What tells declarations apart: the import path and the name. -/
def Declaration.key (d : Declaration) : String × String :=
  (d.package, d.name)

/-- No declaration is found repeated iff all differ from each other and from those seen
before. -/
theorem firstRepeated_eq_none_iff (seen : List (String × String)) (ds : List Declaration) :
    firstRepeated seen ds = none ↔
      (ds.map Declaration.key).Nodup ∧ ∀ d ∈ ds, d.key ∉ seen := by
  induction ds generalizing seen with
  | nil => simp [firstRepeated]
  | cons d ds ih =>
    by_cases hd : d.key ∈ seen
    · have hfirst : firstRepeated seen (d :: ds) = some d := if_pos hd
      simp [hfirst, hd]
    · have hrest : firstRepeated seen (d :: ds) = firstRepeated (d.key :: seen) ds := if_neg hd
      rw [hrest, ih, List.map_cons, List.nodup_cons, List.mem_map]
      simp only [List.mem_cons, not_or, forall_eq_or_imp]
      constructor
      · rintro ⟨hnodup, hnew⟩
        exact ⟨⟨fun ⟨d', hd', hkey⟩ => (hnew d' hd').1 hkey, hnodup⟩, hd,
          fun d' hd' => (hnew d' hd').2⟩
      · rintro ⟨⟨hnew, hnodup⟩, -, hseen⟩
        exact ⟨hnodup, fun d' hd' => ⟨fun hkey => hnew ⟨d', hd', hkey⟩, hseen d' hd'⟩⟩

/-- The import paths and names of what files declare. -/
def declaredKeys (files : List File) : List (String × String) :=
  files.flatMap fun f => f.declarations.map (f.package.path, ·)

theorem map_key_declared (files : List File) :
    (files.flatMap File.declared).map Declaration.key = declaredKeys files := by
  rw [declaredKeys, List.map_flatMap]
  simp [File.declared, Declaration.key, Function.comp_def]

/-- Files are accepted iff no name is declared twice under one import path. -/
theorem checkUnique_eq_ok_iff (files : List File) :
    checkUnique files = .ok () ↔ (declaredKeys files).Nodup := by
  have hnone := firstRepeated_eq_none_iff [] (files.flatMap File.declared)
  rw [map_key_declared] at hnone
  simp only [List.not_mem_nil, not_false_eq_true, implies_true, and_true] at hnone
  rw [← hnone, checkUnique]
  split
  · next d hd => simp [hd]
  · next hd => simp [hd]

/-- Any of the files, under one import path, declare no name twice. -/
theorem nodup_declarations {files chosen : List File} (h : checkUnique files = .ok ())
    (hchosen : chosen.Sublist files) (path : String)
    (hpath : ∀ f ∈ chosen, f.package.path = path) :
    (chosen.flatMap File.declarations).Nodup := by
  have hkeys : (declaredKeys chosen).Nodup :=
    ((checkUnique_eq_ok_iff files).1 h).sublist (hchosen.flatMap _)
  have hmap : declaredKeys chosen = (chosen.flatMap File.declarations).map (path, ·) := by
    rw [declaredKeys, List.map_flatMap]
    exact List.flatMap_congr fun f hf => by rw [hpath f hf]
  rw [hmap] at hkeys
  exact List.Nodup.of_map _ hkeys

/-! ## Import paths -/

/-- The names that files declare under an import path, in the order of the files. -/
def declaredUnder (path : String) (files : List File) : List String :=
  (files.filter (·.package.path = path)).flatMap File.declarations

theorem declaredUnder_cons (path : String) (f : File) (files : List File) :
    declaredUnder path (f :: files) =
      (if f.package.path = path then f.declarations else []) ++ declaredUnder path files := by
  by_cases hf : f.package.path = path <;> simp [declaredUnder, hf]

/-- Among the files of one import path, all is declared under that path. -/
theorem declaredUnder_filter (path path' : String) (files : List File) :
    declaredUnder path' (files.filter (·.package.path = path)) =
      if path' = path then declaredUnder path files else [] := by
  unfold declaredUnder
  rw [List.filter_filter]
  split
  · next h => simp [h]
  · next h =>
    have hnone : files.filter (fun f => f.package.path = path' && f.package.path = path) = [] := by
      refine List.filter_eq_nil_iff.2 fun f _ => ?_
      simp only [Bool.and_eq_true, decide_eq_true_eq, not_and]
      rintro rfl
      exact h
    rw [hnone, List.flatMap_nil]

theorem mem_declaredUnder {path name : String} {files : List File} :
    name ∈ declaredUnder path files ↔ (path, name) ∈ declaredKeys files := by
  simp only [declaredUnder, declaredKeys, List.mem_flatMap, List.mem_filter, decide_eq_true_eq,
    List.mem_map, Prod.mk.injEq]
  constructor
  · rintro ⟨f, ⟨hf, rfl⟩, hname⟩
    exact ⟨f, hf, name, hname, rfl, rfl⟩
  · rintro ⟨f, hf, _, hname, rfl, rfl⟩
    exact ⟨f, ⟨hf, rfl⟩, hname⟩

/-- No name is declared twice iff none is under any of the import paths. -/
theorem nodup_declaredKeys_iff (files : List File) :
    (declaredKeys files).Nodup ↔ ∀ path, (declaredUnder path files).Nodup := by
  induction files with
  | nil => simp [declaredKeys, declaredUnder]
  | cons f files ih =>
    have hkeys : declaredKeys (f :: files) =
        f.declarations.map (f.package.path, ·) ++ declaredKeys files := rfl
    have hinjective : Function.Injective fun name : String => (f.package.path, name) :=
      fun _ _ h => (Prod.mk.inj h).2
    rw [hkeys, List.nodup_append', List.nodup_map_iff hinjective, ih]
    simp only [declaredUnder_cons, List.disjoint_left, List.forall_mem_map, ← mem_declaredUnder]
    constructor
    · rintro ⟨hf, hfiles, hdisjoint⟩ path
      split
      · next h =>
        obtain rfl := h
        exact List.nodup_append'.2 ⟨hf, hfiles _, hdisjoint⟩
      · exact hfiles path
    · intro h
      have hpath := h f.package.path
      rw [if_pos rfl, List.nodup_append'] at hpath
      exact ⟨hpath.1, fun path => (List.nodup_append'.1 (h path)).2.1, hpath.2.2⟩

/-! ## The first repetition -/

/-- A declaration is the first to be found repeated iff it is repeated and none of those above it
is. -/
theorem firstRepeated_eq_some_iff {seen : List (String × String)} {ds : List Declaration}
    {d : Declaration} :
    firstRepeated seen ds = some d ↔
      ∃ above below, ds = above ++ d :: below ∧ (d.key ∈ seen ∨ d.key ∈ above.map Declaration.key) ∧
        firstRepeated seen above = none := by
  induction ds generalizing seen with
  | nil => simp [firstRepeated]
  | cons e ds ih =>
    by_cases he : e.key ∈ seen
    · have hfirst (rest : List Declaration) : firstRepeated seen (e :: rest) = some e := if_pos he
      rw [hfirst, Option.some.injEq]
      constructor
      · rintro rfl
        exact ⟨[], ds, rfl, .inl he, rfl⟩
      · rintro ⟨above, below, hds, -, hnone⟩
        cases above with
        | nil => exact (List.cons.inj hds).1
        | cons a above =>
          obtain rfl := (List.cons.inj hds).1
          rw [hfirst] at hnone
          cases hnone
    · have hrest (rest : List Declaration) :
          firstRepeated seen (e :: rest) = firstRepeated (e.key :: seen) rest := if_neg he
      rw [hrest, ih]
      constructor
      · rintro ⟨above, below, rfl, hd, hnone⟩
        refine ⟨e :: above, below, rfl, ?_, hrest above ▸ hnone⟩
        rwa [List.map_cons, List.mem_cons, or_left_comm, ← or_assoc, ← List.mem_cons]
      · rintro ⟨above, below, hds, hd, hnone⟩
        cases above with
        | nil =>
          obtain ⟨rfl, -⟩ := List.cons.inj hds
          simp [he] at hd
        | cons a above =>
          obtain ⟨rfl, rfl⟩ := List.cons.inj hds
          refine ⟨above, below, rfl, ?_, hrest above ▸ hnone⟩
          rwa [List.map_cons, List.mem_cons, or_left_comm, ← or_assoc, ← List.mem_cons] at hd

/-- Behind the files `before` and the names `names` of `f`, `name` is declared again, and it is the
first: it is one of the names that those declare under the import path of `f`, and all of these
are distinct, as are the names under every other path. -/
structure IsFirstAgain (before : List File) (f : File) (names : List String) (name : String) :
    Prop where
  again : name ∈ declaredUnder f.package.path before ++ names
  first : (declaredUnder f.package.path before ++ names).Nodup
  others : ∀ path, (declaredUnder path before).Nodup

/-- What is repeated under the path of a declaration is repeated in all that is declared. -/
theorem isFirstAgain_iff {before : List File} {f : File} {names : List String} {name : String} :
    IsFirstAgain before f names name ↔
      (f.package.path, name) ∈ declaredKeys before ++ names.map (f.package.path, ·) ∧
        (declaredKeys before ++ names.map (f.package.path, ·)).Nodup := by
  have hinjective : Function.Injective fun name : String => (f.package.path, name) :=
    fun _ _ h => (Prod.mk.inj h).2
  have hagain : name ∈ declaredUnder f.package.path before ++ names ↔
      (f.package.path, name) ∈ declaredKeys before ++ names.map (f.package.path, ·) := by
    rw [List.mem_append, List.mem_append, mem_declaredUnder, List.mem_map_of_injective hinjective]
  have hfirst : (declaredKeys before ++ names.map (f.package.path, ·)).Nodup ↔
      (declaredUnder f.package.path before ++ names).Nodup ∧
        ∀ path, (declaredUnder path before).Nodup := by
    rw [List.nodup_append', List.nodup_append', List.nodup_map_iff hinjective,
      nodup_declaredKeys_iff]
    simp only [List.disjoint_right, List.forall_mem_map, ← mem_declaredUnder]
    constructor
    · rintro ⟨hbefore, hnames, hdisjoint⟩
      exact ⟨⟨hbefore _, hnames, hdisjoint⟩, hbefore⟩
    · rintro ⟨⟨-, hnames, hdisjoint⟩, hbefore⟩
      exact ⟨hbefore, hnames, hdisjoint⟩
  rw [← hagain, hfirst]
  exact ⟨fun h => ⟨h.again, h.first, h.others⟩, fun ⟨hagain, hfirst, hothers⟩ =>
    ⟨hagain, hfirst, hothers⟩⟩

/-- A place in a list of lists that are put together is a place in one of them. -/
theorem flatMap_eq_append_cons_iff {α β : Type} {g : α → List β} {xs : List α}
    {above below : List β} {y : β} :
    xs.flatMap g = above ++ y :: below ↔
      ∃ before x after ys rest, xs = before ++ x :: after ∧ g x = ys ++ y :: rest ∧
        above = before.flatMap g ++ ys ∧ below = rest ++ after.flatMap g := by
  constructor
  · intro h
    induction xs generalizing above with
    | nil => simp at h
    | cons x xs ih =>
      rw [List.flatMap_cons, List.append_eq_append_iff] at h
      obtain ⟨above', rfl, h⟩ | ⟨ys, hx, h⟩ := h
      · obtain ⟨before, x', after, ys, rest, rfl, hx', rfl, rfl⟩ := ih h
        exact ⟨x :: before, x', after, ys, rest, rfl, hx', by simp, rfl⟩
      · cases ys with
        | nil =>
          obtain ⟨before, x', after, ys, rest, rfl, hx', habove, rfl⟩ := @ih [] h.symm
          refine ⟨x :: before, x', after, ys, rest, rfl, hx', ?_, rfl⟩
          rw [List.append_nil] at hx
          rw [List.flatMap_cons, List.append_assoc, ← habove, hx, List.append_nil]
        | cons y' ys =>
          obtain ⟨rfl, rfl⟩ := List.cons.inj h
          exact ⟨[], x, xs, above, ys, rfl, hx, rfl, rfl⟩
  · rintro ⟨before, x, after, ys, rest, rfl, hx, rfl, rfl⟩
    simp [hx]

theorem checkUnique_eq_error_iff {files : List File} {e : Error} :
    checkUnique files = .error e ↔
      ∃ before f after names name rest, files = before ++ f :: after ∧
        f.declarations = names ++ name :: rest ∧ IsFirstAgain before f names name ∧
        e = .duplicateDeclaration f.path name := by
  have herror : checkUnique files = .error e ↔
      ∃ d, firstRepeated [] (files.flatMap File.declared) = some d ∧
        e = .duplicateDeclaration d.file d.name := by
    unfold checkUnique
    split
    · next d hd => simp [hd, eq_comm]
    · next hd => simp [hd]
  simp only [herror, firstRepeated_eq_some_iff, firstRepeated_eq_none_iff, isFirstAgain_iff,
    List.not_mem_nil, false_or, not_false_eq_true, implies_true, and_true]
  constructor
  · rintro ⟨d, ⟨above, below, hsplit, hagain, hfirst⟩, rfl⟩
    obtain ⟨before, f, after, ys, rest, rfl, hf, rfl, rfl⟩ := flatMap_eq_append_cons_iff.1 hsplit
    obtain ⟨names, names', hnames, rfl, hrest⟩ := List.map_eq_append_iff.1 hf
    obtain ⟨name, rest, rfl, rfl, rfl⟩ := List.map_eq_cons_iff.1 hrest
    rw [List.map_append, map_key_declared, List.map_map] at hagain hfirst
    exact ⟨before, f, after, names, name, rest, rfl, hnames, ⟨hagain, hfirst⟩, rfl⟩
  · rintro ⟨before, f, after, names, name, rest, rfl, hf, ⟨hagain, hfirst⟩, rfl⟩
    refine ⟨⟨f.package.path, f.path, name⟩, ⟨(before.flatMap File.declared) ++
      names.map fun name => ⟨f.package.path, f.path, name⟩, _, flatMap_eq_append_cons_iff.2
        ⟨before, f, after, _, rest.map fun name => ⟨f.package.path, f.path, name⟩, rfl, ?_, rfl,
          rfl⟩, ?_⟩, rfl⟩
    · rw [File.declared, hf, List.map_append, List.map_cons]
    · rw [List.map_append, map_key_declared, List.map_map]
      exact ⟨hagain, hfirst⟩

/-! ## Acceptance -/

theorem checkUnique_eq_ok_iff_forall (files : List File) :
    checkUnique files = .ok () ↔ ∀ path, (declaredUnder path files).Nodup :=
  (checkUnique_eq_ok_iff files).trans (nodup_declaredKeys_iff files)

/-- The files of one import path are accepted iff they declare no name twice. -/
theorem checkUnique_filter_eq_ok_iff (path : String) (files : List File) :
    checkUnique (files.filter (·.package.path = path)) = .ok () ↔
      (declaredUnder path files).Nodup := by
  simp only [checkUnique_eq_ok_iff_forall, declaredUnder_filter]
  constructor
  · intro h
    simpa using h path
  · intro h path'
    split
    · exact h
    · exact List.nodup_nil

/-- What is the first to be declared again is so among the files of its import path. -/
theorem IsFirstAgain.filter {before : List File} {f : File} {names : List String} {name : String}
    (h : IsFirstAgain before f names name) :
    IsFirstAgain (before.filter (·.package.path = f.package.path)) f names name := by
  refine ⟨?_, ?_, fun path => ?_⟩
  · rw [declaredUnder_filter, if_pos rfl]
    exact h.again
  · rw [declaredUnder_filter, if_pos rfl]
    exact h.first
  · rw [declaredUnder_filter]
    split
    · exact h.others _
    · exact List.nodup_nil

/-- Files are accepted iff under each import path no name is declared twice. Otherwise the name
that is reported, and its file, are those of the first declaration that is declared again. So the
order of the files does not matter for acceptance, and neither files of other import paths nor
what the packages are called matter for the result. -/
theorem checkUnique_firstAgain (files : List File) :
    (checkUnique files = .ok () ↔ ∀ path, (declaredUnder path files).Nodup) ∧
      (∀ e, checkUnique files = .error e ↔
        ∃ before f after names name rest, files = before ++ f :: after ∧
          f.declarations = names ++ name :: rest ∧ IsFirstAgain before f names name ∧
          e = .duplicateDeclaration f.path name) ∧
      (∀ files', files.Perm files' → (checkUnique files' = .ok () ↔ checkUnique files = .ok ())) ∧
      (checkUnique files = .ok () ↔
        ∀ path, checkUnique (files.filter (·.package.path = path)) = .ok ()) ∧
      (∀ e, checkUnique files = .error e →
        ∃ path, checkUnique (files.filter (·.package.path = path)) = .error e) ∧
      ∀ name : File → String,
        checkUnique (files.map fun f => { f with package := ⟨f.package.path, name f⟩ }) =
          checkUnique files := by
  refine ⟨checkUnique_eq_ok_iff_forall files, fun e => checkUnique_eq_error_iff,
    fun files' hperm => ?_, ?_, fun e he => ?_, fun name => ?_⟩
  · rw [checkUnique_eq_ok_iff, checkUnique_eq_ok_iff]
    exact (hperm.symm.flatMap_right _).nodup_iff
  · simp only [checkUnique_filter_eq_ok_iff]
    exact checkUnique_eq_ok_iff_forall files
  · obtain ⟨before, f, after, names, name, rest, rfl, hf, hagain, rfl⟩ :=
      checkUnique_eq_error_iff.1 he
    refine ⟨f.package.path, checkUnique_eq_error_iff.2
      ⟨_, f, after.filter (·.package.path = f.package.path), names, name, rest, ?_, hf,
        hagain.filter, rfl⟩⟩
    simp
  · unfold checkUnique
    rw [List.flatMap_map]
    rfl

/-- A file with one service without methods. -/
def fileOfService (path package service : String) : File where
  path
  deprecated := false
  package := ⟨package, "foo"⟩
  stem := path
  syntaxComments := {}
  packageComments := {}
  services :=
    [{ fullName := service, name := service, deprecated := false, comments := {}, worker := none,
       methods := [] }]

example :
    checkUnique [fileOfService "a.proto" "example.com/x" "Foo",
      fileOfService "b.proto" "example.com/y" "Foo",
      fileOfService "c.proto" "example.com/x" "Foo"] =
        .error (.duplicateDeclaration "c.proto" "FooTemporalClient") := by
  decide +kernel

end TemporalBindings.Bindings
