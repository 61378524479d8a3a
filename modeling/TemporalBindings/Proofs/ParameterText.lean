import Mathlib.Data.List.DropRight
import Mathlib.Data.List.Forall2
import TemporalBindings.Plugin.Parameter
import TemporalBindings.Proofs.ImportTable
import TemporalBindings.Proofs.Nesting

/-!
# TemporalBindings.Proofs.ParameterText

What the text of a parameter is read as. Three steps lead there, and each is described without
the functions that take it:

```
HasParts s ps       what stands between the commas of s, trimmed, is the parts ps
IsPart t r          the text t says r
IsSummary p rs      of several parts with one key p has the last
```

A text is accepted iff all of its parts say something and a root does not meet files that go
beside their sources. As only the last part with a key counts, and the two that must not meet
are compared at the end, parts with different keys can be given in any order.
-/

namespace TemporalBindings

namespace Plugin

open Source Text

/-! ## Parts -/

/-- Whether `u` is `t` without the blanks around it. -/
def IsTrimmed (t u : List Char) : Prop :=
  ∃ before after, t = before ++ u ++ after ∧ (∀ c ∈ before ++ after, isBlank c = true) ∧
    u.head?.all (!isBlank ·) = true ∧ u.getLast?.all (!isBlank ·) = true

/-- Whether a parameter has some parts: what is between its commas, without the blanks around
it, unless it is empty then. -/
def HasParts (s : String) (ps : List (List Char)) : Prop :=
  ∃ pieces trimmed, s.toList = [','].intercalate pieces ∧ pieces ≠ [] ∧ (∀ t ∈ pieces, ',' ∉ t) ∧
    List.Forall₂ IsTrimmed pieces trimmed ∧ ps = trimmed.filter (· ≠ [])

theorem isTrimmed_trim (t : List Char) : IsTrimmed t (trim t) := by
  have hback : trim t ++ (t.dropWhile isBlank).rtakeWhile isBlank = t.dropWhile isBlank :=
    List.rdropWhile_append_rtakeWhile
  refine ⟨t.takeWhile isBlank, (t.dropWhile isBlank).rtakeWhile isBlank, ?_, fun c hc => ?_, ?_, ?_⟩
  · rw [List.append_assoc, hback, List.takeWhile_append_dropWhile]
  · obtain hc | hc := List.mem_append.1 hc
    · exact List.mem_takeWhile_imp hc
    · exact List.mem_rtakeWhile_imp hc
  · have hfirst := List.head?_dropWhile_not isBlank t
    rw [← hback, List.head?_append] at hfirst
    cases hhead : (trim t).head? with
    | none => rfl
    | some c => simpa [hhead] using hfirst
  · by_cases hne : trim t = []
    · rw [hne]
      rfl
    · have hlast := List.rdropWhile_last_not isBlank (t.dropWhile isBlank) hne
      rw [List.getLast?_eq_some_getLast hne, Option.all_some]
      exact Bool.not_eq_true' _ ▸ (Bool.eq_false_iff.2 hlast)

theorem IsTrimmed.eq_trim {t u : List Char} (h : IsTrimmed t u) : u = trim t := by
  obtain ⟨before, after, rfl, hblank, hfirst, hlast⟩ := h
  have hbefore : before.dropWhile isBlank = [] :=
    List.dropWhile_eq_nil_iff.2 fun c hc => hblank c (List.mem_append_left after hc)
  have hafter : after.rdropWhile isBlank = [] :=
    List.rdropWhile_eq_nil_iff.2 fun c hc => hblank c (List.mem_append_right before hc)
  cases u with
  | nil =>
    have hall : (before ++ after).dropWhile isBlank = [] := List.dropWhile_eq_nil_iff.2 hblank
    rw [List.append_nil, trim, hall]
    rfl
  | cons c cs =>
    have hend : ((c :: cs).getLast?).any (!isBlank ·) = true := by
      rw [List.getLast?_eq_some_getLast (List.cons_ne_nil c cs)] at hlast ⊢
      exact hlast
    rw [trim_around (by simpa using hfirst) hend, hbefore, hafter, List.nil_append, List.append_nil]

/-- Every text has parts, and no others than these. -/
theorem hasParts_iff {s : String} {ps : List (List Char)} :
    HasParts s ps ↔ ps = Parameter.parts s := by
  have htrimmed (pieces trimmed : List (List Char)) :
      List.Forall₂ IsTrimmed pieces trimmed ↔ trimmed = pieces.map trim := by
    have hiff : IsTrimmed = fun t u => trim t = u := by
      funext t u
      exact propext ⟨fun h => h.eq_trim.symm, fun h => h ▸ isTrimmed_trim t⟩
    rw [hiff, ← List.forall₂_map_left_iff (R := (· = ·)), List.forall₂_eq_eq_eq, eq_comm]
  constructor
  · rintro ⟨pieces, trimmed, hs, hne, hcomma, h, rfl⟩
    rw [Parameter.parts, hs, List.splitOn_intercalate ',' hcomma hne, (htrimmed ..).1 h]
  · rintro rfl
    exact ⟨s.toList.splitOn ',', _, (List.intercalate_splitOn ',').symm, List.splitOn_ne_nil _ _,
      fun t => not_mem_of_mem_splitOn, (htrimmed ..).2 rfl, rfl⟩

namespace Parameter

/-! ## What parts say -/

/-- What a part may look like, and what it says. -/
inductive IsPart : List Char → Part → Prop
  | importPath : IsPart "paths=import".toList (.placement .importPath)
  | besideSource : IsPart "paths=source_relative".toList (.placement .besideSource)
  | moduleRoot (root : List Char) :
      IsPart ("module=".toList ++ root) (.moduleRoot (String.ofList root))
  | mapped {file : List Char} (hfile : file ≠ []) (hkey : '=' ∉ file) (path : List Char) :
      IsPart ('M' :: file ++ '=' :: path) (.importPath (String.ofList file) (String.ofList path))

theorem isPart_of_read? {t : List Char} {r : Part} (h : Part.read? t = some r) : IsPart t r := by
  obtain ⟨⟨key, value⟩, hcut, hread⟩ := Option.bind_eq_some_iff.1 h
  obtain ⟨rfl, hkey⟩ := cut?_eq_some_iff.1 hcut
  dsimp only at hread
  split at hread
  · next hpaths =>
    subst hpaths
    split at hread
    · next himport =>
      obtain rfl := Option.some.inj hread
      rw [himport]
      exact .importPath
    · split at hread
      · next hbeside =>
        obtain rfl := Option.some.inj hread
        rw [hbeside]
        exact .besideSource
      · cases hread
  · split at hread
    · next hmodule =>
      obtain rfl := Option.some.inj hread
      rw [hmodule]
      exact .moduleRoot value
    · split at hread
      · obtain rfl := Option.some.inj hread
        exact .mapped (List.cons_ne_nil _ _) (fun hmem => hkey (List.mem_cons_of_mem _ hmem)) value
      · cases hread

theorem IsPart.read?_eq {t : List Char} {r : Part} (h : IsPart t r) : Part.read? t = some r := by
  cases h with
  | importPath => decide
  | besideSource => decide
  | moduleRoot root =>
    have hcut : cut? '=' ("module=".toList ++ root) = some ("module".toList, root) :=
      cut?_eq_some_iff.2 ⟨rfl, by decide⟩
    rw [Part.read?, hcut]
    rfl
  | @mapped file hfile hkey path =>
    obtain ⟨c, cs, rfl⟩ := List.exists_cons_of_ne_nil hfile
    have hcut : cut? '=' ('M' :: c :: cs ++ '=' :: path) = some ('M' :: c :: cs, path) :=
      cut?_eq_some_iff.2 ⟨rfl, by simpa using hkey⟩
    rw [Part.read?, hcut]
    rfl

/-- A part is understood iff it has one of the forms. -/
theorem read?_eq_some_iff {t : List Char} {r : Part} : Part.read? t = some r ↔ IsPart t r :=
  ⟨isPart_of_read?, IsPart.read?_eq⟩

/-! ## The last part with a key -/

/-- The placement that a part asks for. -/
def Part.placement? : Part → Option Placement
  | .placement p => some p
  | _ => none

/-- The root that a part gives. -/
def Part.moduleRoot? : Part → Option String
  | .moduleRoot root => some root
  | _ => none

/-- The import path that a part gives for a file. -/
def Part.pathOf? (file : String) : Part → Option String
  | .importPath file' path => if file' = file then some path else none
  | _ => none

/-- What the last of some parts says of those that say something. -/
def lastOf {α : Type} (says? : Part → Option α) (rs : List Part) : Option α :=
  (rs.filterMap says?).getLast?

/-- Whether a parameter has what some parts say, and defaults for the rest: of several parts
with one key the last counts. -/
structure IsSummary (p : Parameter) (rs : List Part) : Prop where
  placement : p.placement = (lastOf Part.placement? rs).getD .importPath
  moduleRoot : p.moduleRoot = lastOf Part.moduleRoot? rs
  importMap : ∀ file, p.importMap.lookup file = lastOf (Part.pathOf? file) rs
  ascending : Ascending p.importMap

/-- Whether a root meets files that go beside their sources. -/
def Conflicts (rs : List Part) : Prop :=
  lastOf Part.placement? rs = some .besideSource ∧ (lastOf Part.moduleRoot? rs).isSome = true

theorem lastOf_append {α : Type} (says? : Part → Option α) (rs rs' : List Part) :
    lastOf says? (rs ++ rs') = (lastOf says? rs').or (lastOf says? rs) := by
  rw [lastOf, List.filterMap_append, List.getLast?_append, lastOf, lastOf]

theorem lastOf_concat {α : Type} (says? : Part → Option α) (rs : List Part) (r : Part) :
    lastOf says? (rs ++ [r]) = (says? r).or (lastOf says? rs) := by
  have hone : lastOf says? [r] = says? r := by
    cases hr : says? r <;> simp [lastOf, hr]
  rw [lastOf_append, hone]

/-- The parameter that parts are added to one after the other. -/
theorem isSummary_foldl_add (rs : List Part) : IsSummary (rs.foldl add {}) rs := by
  induction rs using List.reverseRecOn with
  | nil => exact ⟨rfl, rfl, fun _ => rfl, .nil⟩
  | append_singleton rs r ih =>
    rw [List.foldl_concat]
    cases r with
    | placement placement =>
      refine ⟨?_, ?_, fun file => ?_, ih.ascending⟩
      · rw [lastOf_concat]
        rfl
      · rw [lastOf_concat]
        exact ih.moduleRoot
      · rw [lastOf_concat]
        exact ih.importMap file
    | moduleRoot root =>
      refine ⟨?_, ?_, fun file => ?_, ih.ascending⟩
      · rw [lastOf_concat]
        exact ih.placement
      · rw [lastOf_concat]
        rfl
      · rw [lastOf_concat]
        exact ih.importMap file
    | importPath file' path =>
      refine ⟨?_, ?_, fun file => ?_, ih.ascending.put⟩
      · rw [lastOf_concat]
        exact ih.placement
      · rw [lastOf_concat]
        exact ih.moduleRoot
      · rw [lastOf_concat, ← ih.importMap, add]
        by_cases hfile : file = file'
        · rw [hfile, lookup_put_self, Part.pathOf?, if_pos rfl, Option.some_or]
        · rw [lookup_put_of_ne hfile, Part.pathOf?, if_neg (Ne.symm hfile), Option.none_or]

/-- Parts that agree on the last one of each key have the same summary. -/
theorem IsSummary.eq_of_lastOf {p p' : Parameter} {rs rs' : List Part} (h : IsSummary p rs)
    (h' : IsSummary p' rs') (hplacement : lastOf Part.placement? rs = lastOf Part.placement? rs')
    (hroot : lastOf Part.moduleRoot? rs = lastOf Part.moduleRoot? rs')
    (hpaths : ∀ file, lastOf (Part.pathOf? file) rs = lastOf (Part.pathOf? file) rs') :
    p = p' := by
  have hsamePlacement : p.placement = p'.placement := by
    rw [h.placement, h'.placement, hplacement]
  have hsameRoot : p.moduleRoot = p'.moduleRoot := by
    rw [h.moduleRoot, h'.moduleRoot, hroot]
  have hsameMap : p.importMap = p'.importMap :=
    h.ascending.eq_of_lookup h'.ascending fun file => by
      rw [h.importMap, h'.importMap, hpaths]
  obtain ⟨_, _, _⟩ := p
  obtain ⟨_, _, _⟩ := p'
  exact (mk.injEq ..).mpr ⟨hsamePlacement, hsameRoot, hsameMap⟩

theorem IsSummary.unique {p p' : Parameter} {rs : List Part} (h : IsSummary p rs)
    (h' : IsSummary p' rs) : p = p' :=
  h.eq_of_lastOf h' rfl rfl fun _ => rfl

theorem IsSummary.conflicts_iff {p : Parameter} {rs : List Part} (h : IsSummary p rs) :
    Conflicts rs ↔ p.placement = .besideSource ∧ p.moduleRoot.isSome = true := by
  rw [Conflicts, h.placement, h.moduleRoot]
  cases lastOf Part.placement? rs <;> simp

/-! ## Accepted and refused texts -/

/-- What a part says is known from its text. -/
theorem eq_filterMap_of_forall₂ {ps : List (List Char)} {rs : List Part}
    (h : List.Forall₂ IsPart ps rs) : rs = ps.filterMap Part.read? := by
  induction h with
  | nil => rfl
  | cons hr _ ih => rw [List.filterMap_cons_some (read?_eq_some_iff.2 hr), ← ih]

/-- Texts say something, or one of them is the first that does not. -/
theorem exists_forall₂_or_bad (ps : List (List Char)) :
    (∃ rs, List.Forall₂ IsPart ps rs) ∨ ∃ before bad after, ps = before ++ bad :: after ∧
      (∀ t ∈ before, ∃ r, IsPart t r) ∧ ∀ r, ¬ IsPart bad r := by
  induction ps with
  | nil => exact .inl ⟨[], .nil⟩
  | cons t ps ih =>
    by_cases ht : ∃ r, IsPart t r
    · obtain ⟨rs, hrs⟩ | ⟨before, bad, after, rfl, hbefore, hbad⟩ := ih
      · obtain ⟨r, hr⟩ := ht
        exact .inl ⟨r :: rs, .cons hr hrs⟩
      · exact .inr ⟨t :: before, bad, after, rfl, List.forall_mem_cons.2 ⟨ht, hbefore⟩, hbad⟩
    · exact .inr ⟨[], t, ps, rfl, by simp, not_exists.1 ht⟩

theorem exists_forall₂_iff {ps : List (List Char)} :
    (∃ rs, List.Forall₂ IsPart ps rs) ↔ ∀ t ∈ ps, ∃ r, IsPart t r := by
  constructor
  · rintro ⟨rs, hrs⟩ t ht
    induction hrs with
    | nil => cases ht
    | cons hr _ ih =>
      obtain rfl | ht := List.mem_cons.1 ht
      · exact ⟨_, hr⟩
      · exact ih ht
  · intro hall
    refine (exists_forall₂_or_bad ps).resolve_right ?_
    rintro ⟨before, bad, after, rfl, -, hbad⟩
    obtain ⟨r, hr⟩ := hall bad (by simp)
    exact hbad r hr

/-- The outcome for parts: they are added up, or the first that says nothing is refused, or the
last root if it meets files that go beside their sources. -/
inductive IsOutcome (ps : List (List Char)) : Except Error Parameter → Prop
  | accepted {rs : List Part} {p : Parameter} (hparts : List.Forall₂ IsPart ps rs)
      (hfits : ¬ Conflicts rs) (hsummary : p.IsSummary rs) : IsOutcome ps (.ok p)
  | invalid {before after : List (List Char)} {bad : List Char} (hps : ps = before ++ bad :: after)
      (hbefore : ∀ t ∈ before, ∃ r, IsPart t r) (hbad : ∀ r, ¬ IsPart bad r) :
      IsOutcome ps (.error (.invalidParameter (String.ofList bad)))
  | conflict {rs : List Part} {root : String} (hparts : List.Forall₂ IsPart ps rs)
      (hmeets : Conflicts rs) (hroot : lastOf Part.moduleRoot? rs = some root) :
      IsOutcome ps (.error (.invalidParameter ("module=" ++ root)))

theorem addAll_of_forall₂ {p : Parameter} {ps : List (List Char)} {rs : List Part}
    (h : List.Forall₂ IsPart ps rs) : p.addAll ps = .ok (rs.foldl add p) := by
  induction h generalizing p with
  | nil => rfl
  | cons hr _ ih => rw [addAll, read?_eq_some_iff.2 hr, List.foldl_cons, ← ih]

theorem addAll_of_bad {p : Parameter} {before after : List (List Char)} {bad : List Char}
    (hbefore : ∀ t ∈ before, ∃ r, IsPart t r) (hbad : ∀ r, ¬ IsPart bad r) :
    p.addAll (before ++ bad :: after) = .error (.invalidParameter (String.ofList bad)) := by
  induction before generalizing p with
  | nil =>
    have hnone : Part.read? bad = none :=
      Option.eq_none_iff_forall_ne_some.2 fun r hr => hbad r (read?_eq_some_iff.1 hr)
    rw [List.nil_append, addAll, hnone]
  | cons t before ih =>
    obtain ⟨⟨r, hr⟩, hbefore⟩ := List.forall_mem_cons.1 hbefore
    rw [List.cons_append, addAll, read?_eq_some_iff.2 hr]
    exact ih hbefore

theorem check_eq (p : Parameter) : p.check =
    if p.placement = .besideSource then
      p.moduleRoot.elim (.ok p) fun root => .error (.invalidParameter ("module=" ++ root))
    else .ok p := by
  unfold check
  cases p.placement <;> cases p.moduleRoot <;> rfl

/-- The outcome for a text is that for its parts. -/
theorem isOutcome_parse (s : String) : IsOutcome (parts s) (parse (some s)) := by
  obtain ⟨rs, hrs⟩ | ⟨before, bad, after, hps, hbefore, hbad⟩ := exists_forall₂_or_bad (parts s)
  · have hsummary := isSummary_foldl_add rs
    have hparse : parse (some s) = (rs.foldl add {}).check := by
      rw [parse, addAll_of_forall₂ hrs]
      rfl
    rw [hparse, check_eq]
    by_cases hmeets : Conflicts rs
    · obtain ⟨hbeside, hsome⟩ := hsummary.conflicts_iff.1 hmeets
      obtain ⟨root, hroot⟩ := Option.isSome_iff_exists.1 hsome
      rw [if_pos hbeside, hroot]
      exact .conflict hrs hmeets (hsummary.moduleRoot.symm.trans hroot)
    · have haccepted := IsOutcome.accepted hrs hmeets hsummary
      rw [hsummary.conflicts_iff] at hmeets
      split
      · next hbeside =>
        have hnone : (rs.foldl add {}).moduleRoot = none := by
          simpa [hbeside] using hmeets
        rwa [hnone]
      · exact haccepted
  · rw [parse, hps, addAll_of_bad hbefore hbad]
    exact .invalid rfl hbefore hbad

/-- Parts have one outcome, so a text is accepted iff its parts allow it. -/
theorem parse_eq_ok_iff {s : String} {p : Parameter} : parse (some s) = .ok p ↔
    ∃ rs, List.Forall₂ IsPart (parts s) rs ∧ ¬ Conflicts rs ∧ p.IsSummary rs := by
  have houtcome := isOutcome_parse s
  constructor
  · intro h
    rw [h] at houtcome
    cases houtcome with
    | accepted hparts hfits hsummary => exact ⟨_, hparts, hfits, hsummary⟩
  · rintro ⟨rs, hrs, hfits, hsummary⟩
    cases h : parse (some s) with
    | ok p' =>
      rw [h] at houtcome
      cases houtcome with
      | @accepted rs' _ hrs' _ hsummary' =>
        rw [eq_filterMap_of_forall₂ hrs', ← eq_filterMap_of_forall₂ hrs] at hsummary'
        rw [hsummary.unique hsummary']
    | error e =>
      rw [h] at houtcome
      cases houtcome with
      | @invalid before after bad hps _ hbad =>
        obtain ⟨r, hr⟩ := exists_forall₂_iff.1 ⟨rs, hrs⟩ bad (by simp [hps])
        exact absurd hr (hbad r)
      | @conflict rs' _ hrs' hmeets _ =>
        rw [eq_filterMap_of_forall₂ hrs', ← eq_filterMap_of_forall₂ hrs] at hmeets
        exact absurd hmeets hfits

theorem exists_parse_eq_ok_iff {s : String} : (∃ p, parse (some s) = .ok p) ↔
    ∃ rs, List.Forall₂ IsPart (parts s) rs ∧ ¬ Conflicts rs := by
  constructor
  · rintro ⟨p, hp⟩
    obtain ⟨rs, hrs, hfits, -⟩ := parse_eq_ok_iff.1 hp
    exact ⟨rs, hrs, hfits⟩
  · rintro ⟨rs, hrs, hfits⟩
    exact ⟨_, parse_eq_ok_iff.2 ⟨rs, hrs, hfits, isSummary_foldl_add rs⟩⟩

/-! ## Order of the parts -/

/-- The text before the first equals sign. -/
def keyOf (t : List Char) : List Char :=
  t.takeWhile (· ≠ '=')

/-- Whether two lists of parts differ in the order of parts with different keys only. -/
def IsReordered (ps qs : List (List Char)) : Prop :=
  ∀ key, ps.filter (keyOf · = key) = qs.filter (keyOf · = key)

theorem IsReordered.mem_iff {ps qs : List (List Char)} (h : IsReordered ps qs) {t : List Char} :
    t ∈ ps ↔ t ∈ qs := by
  have hmem (ts : List (List Char)) : t ∈ ts ↔ t ∈ ts.filter (keyOf · = keyOf t) := by
    simp [List.mem_filter]
  rw [hmem ps, h, ← hmem]

/-- The key of a part. -/
def Part.key : Part → List Char
  | .placement _ => "paths".toList
  | .moduleRoot _ => "module".toList
  | .importPath file _ => 'M' :: file.toList

theorem keyOf_append {key : List Char} (h : '=' ∉ key) (value : List Char) :
    keyOf (key ++ '=' :: value) = key := by
  have hkey : ∀ c ∈ key, decide (c ≠ '=') = true := fun c hc =>
    decide_eq_true fun heq => h (heq ▸ hc)
  rw [keyOf, List.takeWhile_append_of_pos hkey, List.takeWhile_cons_of_neg (by simp),
    List.append_nil]

theorem IsPart.keyOf_eq {t : List Char} {r : Part} (h : IsPart t r) : keyOf t = r.key := by
  cases h with
  | importPath => decide
  | besideSource => decide
  | moduleRoot root => exact keyOf_append (by decide : '=' ∉ "module".toList) root
  | @mapped file _ hkey path =>
    rw [Part.key, String.toList_ofList]
    have hname : '=' ∉ 'M' :: file := by simpa using hkey
    exact keyOf_append hname path

/-- Of reordered parts those with a key say the same, one after the other. -/
theorem IsReordered.lastOf_eq {α : Type} {ps qs : List (List Char)} (h : IsReordered ps qs)
    {rs rs' : List Part} (hrs : List.Forall₂ IsPart ps rs) (hrs' : List.Forall₂ IsPart qs rs')
    {says? : Part → Option α} {key : List Char} (hkey : ∀ r, says? r ≠ none → r.key = key) :
    lastOf says? rs = lastOf says? rs' := by
  have hfilter (ts : List (List Char)) : (ts.filterMap Part.read?).filterMap says? =
      (ts.filter (keyOf · = key)).filterMap fun t => (Part.read? t).bind says? := by
    rw [List.filterMap_filterMap, List.filterMap_filter]
    refine List.filterMap_congr fun t _ => ?_
    split
    · rfl
    · next hne =>
      refine Option.bind_eq_none_iff.2 fun r hr => ?_
      by_contra hsays
      exact hne (decide_eq_true ((read?_eq_some_iff.1 hr).keyOf_eq.trans (hkey r hsays)))
  rw [lastOf, lastOf, eq_filterMap_of_forall₂ hrs, eq_filterMap_of_forall₂ hrs', hfilter, hfilter, h]

/-- Parts with different keys can be given in any order. -/
theorem parse_of_isReordered {s s' : String} {p : Parameter} (hp : parse (some s) = .ok p)
    (h : IsReordered (parts s) (parts s')) : parse (some s') = .ok p := by
  obtain ⟨rs, hrs, hfits, hsummary⟩ := parse_eq_ok_iff.1 hp
  obtain ⟨rs', hrs'⟩ := exists_forall₂_iff.2 fun t ht =>
    exists_forall₂_iff.1 ⟨rs, hrs⟩ t (h.mem_iff.2 ht)
  have hplacement : lastOf Part.placement? rs = lastOf Part.placement? rs' :=
    h.lastOf_eq hrs hrs' fun r hr => by
      cases r with
      | placement _ => rfl
      | _ => exact absurd rfl hr
  have hroot : lastOf Part.moduleRoot? rs = lastOf Part.moduleRoot? rs' :=
    h.lastOf_eq hrs hrs' fun r hr => by
      cases r with
      | moduleRoot _ => rfl
      | _ => exact absurd rfl hr
  have hpaths (file : String) : lastOf (Part.pathOf? file) rs = lastOf (Part.pathOf? file) rs' := by
    have hkey (r : Part) (hr : Part.pathOf? file r ≠ none) : r.key = 'M' :: file.toList := by
      cases r with
      | importPath file' path =>
        obtain rfl : file' = file := by_contra fun hne => hr (if_neg hne)
        rfl
      | _ => exact absurd rfl hr
    exact h.lastOf_eq hrs hrs' hkey
  refine parse_eq_ok_iff.2 ⟨rs', hrs', ?_, ?_⟩
  · rwa [Conflicts, ← hplacement, ← hroot]
  · exact ⟨hplacement ▸ hsummary.placement, hroot ▸ hsummary.moduleRoot,
      fun file => hpaths file ▸ hsummary.importMap file, hsummary.ascending⟩

/-! ## Printing -/

/-- The value of a part. -/
def Part.value : Part → List Char
  | .placement .importPath => "import".toList
  | .placement .besideSource => "source_relative".toList
  | .moduleRoot root => root.toList
  | .importPath _ path => path.toList

/-- A part as text. -/
def Part.text (r : Part) : List Char :=
  r.key ++ '=' :: r.value

/-- What is to be said for a parameter. -/
def toParts (p : Parameter) : List Part :=
  [.placement p.placement] ++ p.moduleRoot.toList.map .moduleRoot ++
    p.importMap.map fun e => .importPath e.1 e.2

/-- A parameter as text. -/
def print (p : Parameter) : String :=
  String.ofList ([','].intercalate (p.toParts.map Part.text))

/-- Whether a text can be the value of a part: nothing in it would be taken apart or off. -/
def IsValue (v : String) : Prop :=
  ',' ∉ v.toList ∧ v.toList.getLast?.all (!isBlank ·) = true

instance (v : String) : Decidable (IsValue v) :=
  inferInstanceAs (Decidable (_ ∧ _))

/-- Whether a part can be printed. -/
def Part.IsPrintable : Part → Prop
  | .placement _ => True
  | .moduleRoot root => IsValue root
  | .importPath file path =>
    (file ≠ "" ∧ ',' ∉ file.toList ∧ '=' ∉ file.toList) ∧ IsValue path

instance : DecidablePred Part.IsPrintable
  | .placement _ => inferInstanceAs (Decidable True)
  | .moduleRoot root => inferInstanceAs (Decidable (IsValue root))
  | .importPath _ path => inferInstanceAs (Decidable (_ ∧ IsValue path))

/-- Whether a parameter can be printed: no root meets files that go beside their sources, the
keys of the import map ascend, and each part can be printed. -/
structure IsPrintable (p : Parameter) : Prop where
  fits : ¬ (p.placement = .besideSource ∧ p.moduleRoot.isSome = true)
  ascending : Ascending p.importMap
  parts : ∀ r ∈ p.toParts, r.IsPrintable

/-- A part that can be printed is one when it is printed. -/
theorem Part.IsPrintable.isPart_text {r : Part} (h : r.IsPrintable) : IsPart r.text r := by
  cases r with
  | placement p =>
    cases p with
    | importPath => exact .importPath
    | besideSource => exact .besideSource
  | moduleRoot root =>
    have hpart := IsPart.moduleRoot root.toList
    rwa [String.ofList_toList] at hpart
  | importPath file path =>
    have hfile : file.toList ≠ [] := fun hnil => h.1.1 (String.toList_eq_nil_iff.1 hnil)
    have hpart := IsPart.mapped hfile h.1.2.2 path.toList
    rwa [String.ofList_toList, String.ofList_toList] at hpart

theorem Part.IsPrintable.comma_not_mem_text {r : Part} (h : r.IsPrintable) : ',' ∉ r.text := by
  have hparts : ',' ∉ r.key ∧ ',' ∉ r.value := by
    cases r with
    | placement p => cases p <;> decide
    | moduleRoot root => exact ⟨(by decide : ',' ∉ "module".toList), h.1⟩
    | importPath file path => exact ⟨by simpa [Part.key] using h.1.2.1, h.2.1⟩
  simp [Part.text, hparts.1, hparts.2]

/-- No blank stands at an end of a printed part. -/
theorem Part.IsPrintable.trim_text {r : Part} (h : r.IsPrintable) : trim r.text = r.text := by
  have hfirst : r.key.head?.any (!isBlank ·) = true := by
    cases r <;> rfl
  have hlast : r.value.getLast?.all (!isBlank ·) = true := by
    cases r with
    | placement p => cases p <;> decide
    | moduleRoot root => exact h.2
    | importPath file path => exact h.2.2
  refine trim_eq_self ?_ ?_
  · rw [Part.text, List.head?_append]
    cases hkey : r.key.head? with
    | none => simp [hkey] at hfirst
    | some c => simpa [hkey] using hfirst
  · rw [Part.text, List.getLast?_append, List.getLast?_cons]
    cases hvalue : r.value.getLast? with
    | none => rfl
    | some c => simpa [hvalue] using hlast

/-- The parts of a printed parameter are the printed ones. -/
theorem parts_print {p : Parameter} (h : p.IsPrintable) :
    parts p.print = p.toParts.map Part.text := by
  have hcomma : ∀ t ∈ p.toParts.map Part.text, ',' ∉ t := by
    rintro _ ht
    obtain ⟨r, hr, rfl⟩ := List.mem_map.1 ht
    exact (h.parts r hr).comma_not_mem_text
  have htrim : (p.toParts.map Part.text).map trim = p.toParts.map Part.text := by
    rw [List.map_map]
    exact List.map_congr_left fun r hr => (h.parts r hr).trim_text
  rw [parts, print, String.toList_ofList, List.splitOn_intercalate ',' hcomma (by simp [toParts]),
    htrim, List.filter_eq_self]
  intro t ht
  obtain ⟨r, -, rfl⟩ := List.mem_map.1 ht
  simp [Part.text]

/-- In an ascending map an entry is the last one with its key. -/
theorem lastOf_pathOf? {entries : List (String × String)} (h : Ascending entries) (file : String) :
    lastOf (Part.pathOf? file) (entries.map fun e => .importPath e.1 e.2) = entries.lookup file := by
  induction entries with
  | nil => rfl
  | cons e rest ih =>
    obtain ⟨hfirst, hrest⟩ := List.pairwise_cons.1 h
    rw [lastOf, List.map_cons, List.filterMap_cons, Part.pathOf?, List.lookup_cons]
    by_cases he : e.1 = file
    · have hnone : (rest.map fun e => Part.importPath e.1 e.2).filterMap (Part.pathOf? file) = [] := by
        refine List.filterMap_eq_nil_iff.2 fun r hr => ?_
        obtain ⟨e', he', rfl⟩ := List.mem_map.1 hr
        exact if_neg fun heq => (hfirst e'.1 (List.mem_map_of_mem he')).ne (he.trans heq.symm)
      simp [he, hnone]
    · have hne : (file == e.1) = false := beq_eq_false_iff_ne.2 (Ne.symm he)
      rw [if_neg he, hne]
      exact ih hrest

/-- A parameter has what is said for it. -/
theorem isSummary_toParts {p : Parameter} (h : Ascending p.importMap) : p.IsSummary p.toParts := by
  have hskip {α β : Type} {says? : Part → Option β} {part : α → Part}
      (hnone : ∀ a, says? (part a) = none) (as : List α) : lastOf says? (as.map part) = none := by
    have hnil : (as.map part).filterMap says? = [] :=
      List.filterMap_eq_nil_iff.2 fun r hr => by
        obtain ⟨a, -, rfl⟩ := List.mem_map.1 hr
        exact hnone a
    rw [lastOf, hnil, List.getLast?_nil]
  refine ⟨?_, ?_, fun file => ?_, h⟩
  · rw [toParts, lastOf_append, lastOf_append, hskip fun _ => rfl, hskip fun _ => rfl]
    rfl
  · rw [toParts, lastOf_append, lastOf_append, hskip fun _ => rfl]
    cases p.moduleRoot <;> rfl
  · rw [toParts, lastOf_append, lastOf_append, lastOf_pathOf? h, hskip fun _ => rfl]
    exact (Option.or_none).symm

/-- A printed parameter is read as it is. -/
theorem parse_print {p : Parameter} (h : p.IsPrintable) : parse (some p.print) = .ok p := by
  have hsummary := isSummary_toParts h.ascending
  refine parse_eq_ok_iff.2 ⟨p.toParts, ?_, fun hmeets => h.fits (hsummary.conflicts_iff.1 hmeets),
    hsummary⟩
  rw [parts_print h, List.forall₂_map_left_iff, List.forall₂_same]
  exact fun r hr => (h.parts r hr).isPart_text

/-! ## Texts as a whole -/

/-- What is known of a text from its parts: whether it is accepted, what comes of it, and that
their order does not matter beyond that of parts with one key. -/
structure IsReadAs (s : String) (ps : List (List Char)) : Prop where
  parts : ∀ qs, HasParts s qs ↔ qs = ps
  accepted : (∃ p, parse (some s) = .ok p) ↔ ∃ rs, List.Forall₂ IsPart ps rs ∧ ¬ Conflicts rs
  outcome : IsOutcome ps (parse (some s))
  reordered : ∀ s' qs p, HasParts s' qs → IsReordered ps qs → parse (some s) = .ok p →
    parse (some s') = .ok p

/-- A text means what its parts say, and a parameter that can be printed is read from its text. -/
theorem isReadAs_and_parse_print : (∀ s, ∃ ps, IsReadAs s ps) ∧
    ∀ p, IsPrintable p → parse (some p.print) = .ok p := by
  refine ⟨fun s => ⟨parts s, fun _ => hasParts_iff, exists_parse_eq_ok_iff, isOutcome_parse s, ?_⟩,
    fun p hp => parse_print hp⟩
  rintro s' _ p hparts hreordered hp
  obtain rfl := hasParts_iff.1 hparts
  exact parse_of_isReordered hp hreordered

/-- A root and a path for a file, there and back. -/
theorem parse_print_root_and_path :
    parse (some (print ⟨.importPath, some "example.com/", [("a b.proto", "x=y")]⟩)) =
      .ok ⟨.importPath, some "example.com/", [("a b.proto", "x=y")]⟩ :=
  isReadAs_and_parse_print.2 _ ⟨by decide, List.pairwise_singleton _ _, by decide⟩

example : print ⟨.importPath, some "example.com/", [("a b.proto", "x=y")]⟩ =
    "paths=import,module=example.com/,Ma b.proto=x=y" := by
  decide

end Parameter

end Plugin

end TemporalBindings
