import TemporalBindings.Proofs.NormalForm

/-!
# TemporalBindings.Proofs.Aliases

Aliases over a whole history of calls. Each call for an identifier may give a package its
alias; what is kept between calls is the alias of each path and, apart from that, the names
in use:

```
own package    spelled bare, nothing is kept
known path     spelled with the alias of the path, whatever its name is now
new path       candidates are tried one after the other, the first free one is kept
```

Every history of calls comes to an end, with the spellings and the table of the file. No
two packages ever share an alias, and the names in use are the aliases, no more and no less.
-/

namespace TemporalBindings.Source

/-! ## The search -/

namespace Imports

/-- A search for an alias from some candidate on: candidates are tried one after the other
until one is not in use. -/
inductive Search (used : List String) (name : String) : Nat → String → Prop
  | found {n : Nat} (h : candidate name n ∉ used) : Search used name n (candidate name n)
  | next {n : Nat} {a : String} (h : candidate name n ∈ used) (hrest : Search used name (n + 1) a) :
      Search used name n a

/-- A search finds the first candidate from where it starts that is not in use. -/
theorem Search.exists_eq {used : List String} {name a : String} {start : Nat}
    (h : Search used name start a) :
    ∃ n ≥ start, a = candidate name n ∧ candidate name n ∉ used ∧
      ∀ m, start ≤ m → m < n → candidate name m ∈ used := by
  induction h with
  | found h => exact ⟨_, le_rfl, rfl, h, fun m hm hlt => absurd hlt (Nat.not_lt.2 hm)⟩
  | @next start a h _ ih =>
    obtain ⟨n, hn, ha, hfree, hused⟩ := ih
    refine ⟨n, Nat.le_of_succ_le hn, ha, hfree, fun m hm hlt => ?_⟩
    obtain rfl | hm := Nat.eq_or_lt_of_le hm
    · exact h
    · exact hused m hm hlt

theorem search_of_forall {used : List String} {name : String} (start count : Nat)
    (hfree : candidate name (start + count) ∉ used)
    (hused : ∀ m, start ≤ m → m < start + count → candidate name m ∈ used) :
    Search used name start (candidate name (start + count)) := by
  induction count generalizing start with
  | zero => exact .found hfree
  | succ count ih =>
    have hsum : start + (count + 1) = start + 1 + count := by omega
    rw [hsum] at hfree hused ⊢
    refine .next (hused start le_rfl (by omega)) (ih (start + 1) hfree fun m hm hlt => ?_)
    exact hused m (Nat.le_of_succ_le hm) hlt

/-- The search comes to an end, and finds the fresh alias. -/
theorem search_freshAlias (used : List String) (name : String) :
    Search used name 0 (freshAlias used name) := by
  obtain ⟨n, -, hn, hfree, hused⟩ := exists_freshAlias_eq used name
  have hsearch := search_of_forall 0 n (by simpa using hfree)
    fun m _ hlt => hused m (by simpa using hlt)
  rw [Nat.zero_add] at hsearch
  rwa [hn]

/-- Only this one, and it does not matter in which order names came into use. -/
theorem Search.eq_freshAlias {used used' : List String} {name a : String}
    (hsame : ∀ b, b ∈ used ↔ b ∈ used') (h : Search used name 0 a) :
    a = freshAlias used' name := by
  obtain ⟨n, -, rfl, hfree, hused⟩ := h.exists_eq
  obtain ⟨n', -, hn', hfree', hused'⟩ := exists_freshAlias_eq used' name
  rw [hn']
  obtain hlt | rfl | hlt := Nat.lt_trichotomy n n'
  · exact absurd ((hsame _).2 (hused' n hlt)) hfree
  · rfl
  · exact absurd ((hsame _).1 (hused n' (Nat.zero_le n') hlt)) hfree'

end Imports

/-! ## Histories of calls -/

/-- What is kept between calls: the alias of each path, and apart from that the names in
use. -/
structure Register where
  home : String
  aliases : List (String × String)
  used : List String

namespace Register

open Imports

/-- Before the first call. -/
def fresh (home : String) : Register :=
  ⟨home, [], []⟩

/-- One call for an identifier, and how it is spelled. -/
inductive Call : Register → Ident → String → Register → Prop
  | own {r : Register} {i : Ident} (h : i.package.path = r.home) : Call r i i.name r
  | known {r : Register} {i : Ident} {a : String} (hforeign : i.package.path ≠ r.home)
      (h : r.aliases.lookup i.package.path = some a) : Call r i (a ++ "." ++ i.name) r
  | new {r : Register} {i : Ident} {a : String} (hforeign : i.package.path ≠ r.home)
      (hnew : r.aliases.lookup i.package.path = none)
      (hsearch : Search r.used i.package.name 0 a) :
      Call r i (a ++ "." ++ i.name)
        { r with aliases := put i.package.path a r.aliases, used := a :: r.used }

/-- Calls one after the other. -/
inductive Calls : Register → List Ident → List String → Register → Prop
  | nil {r : Register} : Calls r [] [] r
  | cons {r r' r'' : Register} {i : Ident} {is : List Ident} {s : String} {ss : List String}
      (h : Call r i s r') (hrest : Calls r' is ss r'') : Calls r (i :: is) (s :: ss) r''

/-- Whether a register is that of an import table: the names in use are its aliases. -/
structure Agrees (r : Register) (t : Imports) : Prop where
  home : r.home = t.home
  aliases : r.aliases = t.aliases
  used : r.used.Perm (t.aliases.map Prod.snd)

variable {r r' : Register} {t : Imports} {i : Ident} {s : String}

/-- No call goes on for ever. -/
theorem exists_call (r : Register) (i : Ident) : ∃ s r', Call r i s r' := by
  by_cases hown : i.package.path = r.home
  · exact ⟨_, _, .own hown⟩
  · cases h : r.aliases.lookup i.package.path with
    | some a => exact ⟨_, _, .known hown h⟩
    | none => exact ⟨_, _, .new hown h (search_freshAlias _ _)⟩

/-- A call spells the identifier as the table does, and keeps up with it. -/
theorem Call.agrees (h : Call r i s r') (hr : r.Agrees t) :
    s = (t.spell i).1 ∧ r'.Agrees (t.require i) := by
  cases h with
  | own hown =>
    rw [hr.home] at hown
    have hsame : t.require i = t := if_pos hown
    rw [spell, hsame, spelling, if_pos hown]
    exact ⟨rfl, hr⟩
  | known hforeign hknown =>
    rw [hr.home] at hforeign
    rw [hr.aliases] at hknown
    have hsame : t.require i = t := by rw [require, if_neg hforeign, hknown]
    rw [spell, hsame, spelling, if_neg hforeign, hknown]
    exact ⟨rfl, hr⟩
  | @new a hforeign hnew hsearch =>
    rw [hr.home] at hforeign
    rw [hr.aliases] at hnew
    have ha : a = freshAlias (t.aliases.map Prod.snd) i.package.name :=
      hsearch.eq_freshAlias fun b => hr.used.mem_iff
    have hrequire : t.require i = { t with aliases := put i.package.path a t.aliases } := by
      rw [require, if_neg hforeign, hnew, ha]
    have hunlisted : i.package.path ∉ t.aliases.map Prod.fst := fun hmem => by
      obtain ⟨b, hb⟩ := exists_lookup_iff.2 hmem
      simp [hnew] at hb
    refine ⟨?_, ?_, ?_, ?_⟩
    · rw [spell, spelling, hrequire, if_neg hforeign, lookup_put_self]
    · rw [hrequire, hr.home]
    · rw [hrequire, hr.aliases]
    · rw [hrequire]
      exact (hr.used.cons a).trans ((put_perm hunlisted a).map Prod.snd).symm

theorem exists_calls (r : Register) (is : List Ident) : ∃ ss r', Calls r is ss r' := by
  induction is generalizing r with
  | nil => exact ⟨[], r, .nil⟩
  | cons i is ih =>
    obtain ⟨s, r', hcall⟩ := exists_call r i
    obtain ⟨ss, r'', hrest⟩ := ih r'
    exact ⟨s :: ss, r'', .cons hcall hrest⟩

end Register

/-- The spellings of identifiers that are asked for one after the other, and the file
afterwards. -/
def File.spellAll (f : File) : List Ident → List String × File
  | [] => ([], f)
  | i :: is =>
    ((f.spell i).1 :: ((f.spell i).2.spellAll is).1, ((f.spell i).2.spellAll is).2)

/-- Every call gets the spelling of the table after the last one. -/
theorem File.spellAll_eq (f : File) (is : List Ident) :
    f.spellAll is =
      (is.map (f.imports.requireAll is).spelling,
        { f with imports := f.imports.requireAll is }) := by
  induction is generalizing f with
  | nil => rfl
  | cons i is ih =>
    have hfirst : (f.imports.requireAll (i :: is)).spelling i = (f.imports.require i).spelling i :=
      (Imports.extends_requireAll _ is).spelling_eq (Imports.knows_require _ i)
    rw [spellAll, ih, List.map_cons, hfirst]
    rfl

theorem Register.Calls.agrees {r r' : Register} {is : List Ident} {ss : List String} {f : File}
    (h : Calls r is ss r') (hr : r.Agrees f.imports) :
    ss = (f.spellAll is).1 ∧ r'.Agrees (f.spellAll is).2.imports := by
  induction h generalizing f with
  | nil => exact ⟨rfl, hr⟩
  | @cons _ _ _ i _ _ _ hcall _ ih =>
    obtain ⟨hs, hr'⟩ := hcall.agrees hr
    obtain ⟨hss, hr''⟩ := ih (f := (f.spell i).2) hr'
    exact ⟨by rw [hs, hss]; rfl, hr''⟩

/-! ## The table afterwards -/

namespace Imports

variable {t : Imports} {path path' a : String}

/-- In a table whose paths ascend every entry is found. -/
theorem lookup_of_mem (h : Ascending t.aliases) (hmem : (path, a) ∈ t.aliases) :
    t.aliases.lookup path = some a :=
  h.lookup_eq_some_iff.2 hmem

/-- If no two packages have one alias, it tells which package is meant. -/
theorem eq_of_lookup (h : (t.aliases.map Prod.snd).Nodup)
    (hpath : t.aliases.lookup path = some a) (hpath' : t.aliases.lookup path' = some a) :
    path = path' := by
  have hsame := List.inj_on_of_nodup_map h (mem_of_lookup hpath) (mem_of_lookup hpath') rfl
  exact (Prod.mk.inj hsame).1

/-- The aliases after some calls in a fresh table are those that the paths of these calls
have for good. -/
theorem mem_aliases_iff_exists_call {home : String} {before after : List Ident} :
    a ∈ ((empty home).requireAll before).aliases.map Prod.snd ↔
      ∃ j ∈ before, j.package.path ≠ home ∧
        ((empty home).requireAll (before ++ after)).aliases.lookup j.package.path = some a := by
  have hgrown : Extends ((empty home).requireAll before)
      ((empty home).requireAll (before ++ after)) := by
    rw [requireAll_append]
    exact extends_requireAll _ _
  have hascending : Ascending ((empty home).requireAll before).aliases :=
    ascending_requireAll (t := empty home) List.Pairwise.nil before
  constructor
  · intro ha
    obtain ⟨⟨path, b⟩, he, rfl⟩ := List.mem_map.1 ha
    obtain ⟨hforeign, j, hj, rfl⟩ := mem_paths_requireAll_empty.1 (List.mem_map_of_mem he)
    exact ⟨j, hj, hforeign, hgrown.lookup _ _ (lookup_of_mem hascending he)⟩
  · rintro ⟨j, hj, hforeign, ha⟩
    obtain ⟨b, hb⟩ := exists_lookup_iff.2 (mem_paths_requireAll_empty.2 ⟨hforeign, j, hj, rfl⟩)
    have hsame := hgrown.lookup _ _ hb
    rw [ha, Option.some.injEq] at hsame
    exact hsame ▸ List.mem_map_of_mem (mem_of_lookup hb)

/-- The first call for a path of another package gives it the first candidate that is not in
use, for good. -/
theorem lookup_of_first {home : String} {before : List Ident} {i : Ident}
    (hforeign : i.package.path ≠ home)
    (hnew : ∀ j ∈ before, j.package.path ≠ i.package.path) (after : List Ident) :
    ((empty home).requireAll (before ++ i :: after)).aliases.lookup i.package.path =
      some (freshAlias (((empty home).requireAll before).aliases.map Prod.snd) i.package.name) := by
  have hhome : ((empty home).requireAll before).home = home :=
    (extends_requireAll (empty home) before).home
  have hunlisted : ((empty home).requireAll before).aliases.lookup i.package.path = none := by
    by_contra hlisted
    obtain ⟨a, ha⟩ := Option.ne_none_iff_exists'.1 hlisted
    obtain ⟨-, j, hj, hpath⟩ := mem_paths_requireAll_empty.1 (exists_lookup_iff.1 ⟨a, ha⟩)
    exact hnew j hj hpath
  have hgiven : (((empty home).requireAll before).require i).aliases.lookup i.package.path =
      some (freshAlias (((empty home).requireAll before).aliases.map Prod.snd) i.package.name) := by
    rw [require, hhome, if_neg hforeign, hunlisted]
    exact lookup_put_self ..
  rw [requireAll_append, requireAll_cons]
  exact (extends_requireAll _ after).lookup _ _ hgiven

/-- This is the name, or the name with the first number that gives an alias no earlier call
has. -/
theorem exists_candidate_of_first {home : String} {before : List Ident} {i : Ident}
    (hforeign : i.package.path ≠ home)
    (hnew : ∀ j ∈ before, j.package.path ≠ i.package.path) (after : List Ident) :
    ∃ n, ((empty home).requireAll (before ++ i :: after)).aliases.lookup i.package.path =
        some (candidate i.package.name n) ∧
      ∀ m ≤ n, m < n ↔ ∃ j ∈ before, j.package.path ≠ home ∧
        ((empty home).requireAll (before ++ i :: after)).aliases.lookup j.package.path =
          some (candidate i.package.name m) := by
  obtain ⟨n, -, hn, hfree, hused⟩ := exists_freshAlias_eq
    (((empty home).requireAll before).aliases.map Prod.snd) i.package.name
  refine ⟨n, by rw [lookup_of_first hforeign hnew after, hn], fun m hm => ?_⟩
  rw [← mem_aliases_iff_exists_call]
  constructor
  · exact hused m
  · intro hmem
    refine lt_of_le_of_ne hm fun heq => hfree ?_
    rwa [← heq]

/-- After some calls in a fresh table the paths of these calls have aliases, except for the
file's own. -/
theorem exists_lookup_requireAll_iff {home : String} {is : List Ident} :
    (∃ a, ((empty home).requireAll is).aliases.lookup path = some a) ↔
      path ≠ home ∧ ∃ i ∈ is, i.package.path = path := by
  rw [exists_lookup_iff, ← paths, mem_paths_requireAll_empty]

/-- An identifier is spelled with the alias of its path, and without one if it is of the
file's own package. -/
theorem spelling_requireAll {home : String} {is : List Ident} {i : Ident} (hi : i ∈ is) :
    (i.package.path = home → ((empty home).requireAll is).spelling i = i.name) ∧
      (i.package.path ≠ home →
        ∃ a, ((empty home).requireAll is).aliases.lookup i.package.path = some a ∧
          ((empty home).requireAll is).spelling i = a ++ "." ++ i.name) := by
  have hhome : ((empty home).requireAll is).home = home := (extends_requireAll _ is).home
  constructor
  · intro hown
    rw [spelling, if_pos (hown.trans hhome.symm)]
  · intro hforeign
    obtain ⟨a, ha⟩ := exists_lookup_requireAll_iff.2 ⟨hforeign, i, hi, rfl⟩
    refine ⟨a, ha, ?_⟩
    rw [spelling, hhome, if_neg hforeign, ha]

end Imports

/-- The import block is in the text of the file, if it has a package clause and anything is
imported. -/
theorem File.exists_content_eq (name : String) {home : String} {ops : List Op}
    (hpackage : ∃ op ∈ ops, op.isPackage = true)
    (hsome : ((Imports.empty home).requireAll (calls ops)).aliases ≠ []) :
    ∃ above below, ((File.empty name home).performAll ops).content =
      joinLines (above ++ ((Imports.empty home).requireAll (calls ops)).block ++ below) := by
  obtain ⟨above, clause, below, hops, hbelow⟩ := exists_last_package hpackage
  have hforeign : ∃ i ∈ calls ops, i.package.path ≠ home := by
    by_contra hnone
    exact hsome (Imports.aliases_requireAll_eq_nil_iff.2 (by simpa using hnone))
  have hlines := File.tidy_printed name home hops hbelow hforeign
  dsimp only at hlines
  rw [List.append_cons, ← List.append_assoc] at hlines
  exact ⟨_, _, congrArg joinLines hlines⟩

/-! ## Histories of a fresh file -/

namespace Register

open Imports

/-- What the spellings and the register have to be after some calls in a fresh file of the
package at `home`. -/
structure AliasesFit (home : String) (is : List Ident) (ss : List String) (r : Register) :
    Prop where
  /-- They are those of the file. -/
  made : ∀ name, ss = ((File.empty name home).spellAll is).1 ∧
    r.aliases = ((File.empty name home).spellAll is).2.imports.aliases
  /-- No two packages have one alias. -/
  injective : ∀ path path' a, r.aliases.lookup path = some a → r.aliases.lookup path' = some a →
    path = path'
  /-- The names in use are the aliases. -/
  range : ∀ a, a ∈ r.used ↔ ∃ path, r.aliases.lookup path = some a
  /-- The file's own package is not imported. -/
  own : r.aliases.lookup home = none
  /-- Every call is answered with the alias that the path has in the end, whatever name the
  call has for it. -/
  spelled : List.Forall₂ (fun i s =>
    (i.package.path = home → s = i.name) ∧ (i.package.path ≠ home →
      ∃ a, r.aliases.lookup i.package.path = some a ∧ s = a ++ "." ++ i.name)) is ss
  /-- The first call for a path decides. The name comes first, then the name with the numbers
  from 1 on, and what is passed over is in use for a path of an earlier call. -/
  first : ∀ before i after, is = before ++ i :: after → i.package.path ≠ home →
    (∀ j ∈ before, j.package.path ≠ i.package.path) →
    ∃ n, r.aliases.lookup i.package.path = some (candidate i.package.name n) ∧
      ∀ m ≤ n, m < n ↔ ∃ j ∈ before, j.package.path ≠ home ∧
        r.aliases.lookup j.package.path = some (candidate i.package.name m)
  /-- Identifiers of two packages are not qualified alike. -/
  apart : ∀ i ∈ is, ∀ j ∈ is, i.package.path ≠ home → j.package.path ≠ home →
    i.package.path ≠ j.package.path →
    r.aliases.lookup i.package.path ≠ r.aliases.lookup j.package.path
  /-- The import block lists these aliases, in whatever file the calls are made. -/
  rendered : ∀ name ops, calls ops = is → (∃ op ∈ ops, op.isPackage = true) → r.aliases ≠ [] →
    ∃ above below, ((File.empty name home).performAll ops).content =
      joinLines (above ++ (⟨home, r.aliases⟩ : Imports).block ++ below)

/-- Whatever calls are made in a fresh file, they come to an end, and the aliases fit. -/
theorem aliasesFit (home : String) (is : List Ident) :
    (∃ ss r, Calls (fresh home) is ss r) ∧
      ∀ ss r, Calls (fresh home) is ss r → AliasesFit home is ss r := by
  refine ⟨exists_calls (fresh home) is, fun ss r hcalls => ?_⟩
  have hfresh : (fresh home).Agrees (empty home) := ⟨rfl, rfl, .refl _⟩
  have hmade (name : String) := hcalls.agrees (f := File.empty name home) hfresh
  have hr : r.Agrees ((empty home).requireAll is) := by
    have hagrees := (hmade "").2
    rwa [File.spellAll_eq] at hagrees
  have hascending : Ascending ((empty home).requireAll is).aliases :=
    ascending_requireAll (t := empty home) List.Pairwise.nil is
  have hnodup : (((empty home).requireAll is).aliases.map Prod.snd).Nodup :=
    nodup_aliases_requireAll (t := empty home) List.nodup_nil is
  have hinjective (path path' a : String) (hpath : r.aliases.lookup path = some a)
      (hpath' : r.aliases.lookup path' = some a) : path = path' := by
    rw [hr.aliases] at hpath hpath'
    exact eq_of_lookup hnodup hpath hpath'
  constructor
  case made => exact fun name => ⟨(hmade name).1, (hmade name).2.aliases⟩
  case injective => exact hinjective
  case range =>
    intro a
    rw [hr.used.mem_iff, List.mem_map, hr.aliases]
    constructor
    · rintro ⟨e, he, rfl⟩
      exact ⟨e.1, lookup_of_mem hascending he⟩
    · rintro ⟨path, hpath⟩
      exact ⟨(path, a), mem_of_lookup hpath, rfl⟩
  case own =>
    by_contra hown
    rw [hr.aliases] at hown
    exact (exists_lookup_requireAll_iff.1 (Option.ne_none_iff_exists'.1 hown)).1 rfl
  case spelled =>
    have hss : ss = is.map ((empty home).requireAll is).spelling := by
      rw [(hmade "").1, File.spellAll_eq]
      rfl
    rw [hss, List.forall₂_map_right_iff, List.forall₂_same, hr.aliases]
    exact fun i hi => spelling_requireAll hi
  case first =>
    rintro before i after rfl hforeign hnew
    rw [hr.aliases]
    exact exists_candidate_of_first hforeign hnew after
  case apart =>
    intro i hi j _ hforeign _ hne hsame
    obtain ⟨a, ha⟩ := exists_lookup_requireAll_iff.2 ⟨hforeign, i, hi, rfl⟩
    rw [← hr.aliases] at ha
    exact hne (hinjective _ _ a ha (hsame ▸ ha))
  case rendered =>
    rintro name ops rfl hpackage hsome
    have htable : (empty home).requireAll (calls ops) = ⟨home, r.aliases⟩ := by
      rw [hr.aliases]
      exact congrArg (Imports.mk · _) (extends_requireAll (empty home) (calls ops)).home
    rw [← htable]
    exact File.exists_content_eq name hpackage (hr.aliases ▸ hsome)

/-- A numbered alias that is itself the name of another package is passed over. -/
theorem aliasesFit_numbered :
    AliasesFit "app" [⟨"A", "x/v1", "v1"⟩, ⟨"B", "y/v", "v"⟩, ⟨"C", "a/v", "v"⟩, ⟨"D", "app", "v"⟩]
      ["v1.A", "v.B", "v2.C", "D"]
      ⟨"app", [("a/v", "v2"), ("x/v1", "v1"), ("y/v", "v")], ["v2", "v", "v1"]⟩ := by
  have hfound : Search ["v", "v1"] "v" 0 "v2" :=
    .next (by decide) (.next (by decide) (.found (by decide)))
  refine (aliasesFit _ _).2 _ _ ?_
  refine .cons (.new (by decide) (by decide) (.found (by decide))) ?_
  refine .cons (.new (by decide) (by decide) (.found (by decide))) ?_
  refine .cons (.new (a := "v2") (by decide) (by decide) hfound) ?_
  exact .cons (.own rfl) .nil

end Register

end TemporalBindings.Source
