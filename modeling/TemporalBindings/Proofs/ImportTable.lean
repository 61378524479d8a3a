import Mathlib.Data.List.Nodup
import Mathlib.Data.List.Perm.Basic
import Mathlib.Data.String.Basic
import TemporalBindings.Proofs.Written

/-!
# TemporalBindings.Proofs.ImportTable

What a file's import table is after identifiers have been spelled. It follows from the
identifiers alone:

* its paths ascend, in the order of their UTF-8 bytes;
* they are the paths of the identifiers' packages, without the file's own;
* each alias is a candidate for the name of a package that was asked for.
-/

namespace TemporalBindings

/-! ## Ordered maps -/

section Put

variable {κ α : Type} {key k : κ} {value v : α} {entries : List (κ × α)}

/-- Whether the keys of a map ascend. -/
def Ascending [LT κ] (entries : List (κ × α)) : Prop :=
  (entries.map Prod.fst).Pairwise (· < ·)

theorem mem_of_mem_put [LT κ] [DecidableLT κ] [DecidableEq κ] {e : κ × α}
    (h : e ∈ put key value entries) : e = (key, value) ∨ e ∈ entries := by
  induction entries with
  | nil => simpa [put] using h
  | cons e' rest ih =>
    unfold put at h
    split at h
    · simp only [List.mem_cons] at h ⊢
      tauto
    · split at h
      · simpa using h
      · simp only [List.mem_cons] at h ⊢
        obtain rfl | h := h
        · exact .inr (.inl rfl)
        · exact (ih h).imp_right .inr

/-- A map has the new key and the keys it had. -/
theorem mem_map_fst_put [LT κ] [DecidableLT κ] [DecidableEq κ] :
    k ∈ (put key value entries).map Prod.fst ↔ k = key ∨ k ∈ entries.map Prod.fst := by
  induction entries with
  | nil => simp [put]
  | cons e rest ih =>
    unfold put
    split
    · next h => simp [h]
    · split
      · simp
      · rw [List.map_cons, List.mem_cons, ih, List.map_cons, List.mem_cons]
        tauto

/-- A new key is added to the entries. -/
theorem put_perm [LT κ] [DecidableLT κ] [DecidableEq κ] (h : key ∉ entries.map Prod.fst)
    (value : α) : (put key value entries).Perm ((key, value) :: entries) := by
  induction entries with
  | nil => exact .refl _
  | cons e rest ih =>
    rw [List.map_cons, List.mem_cons, not_or] at h
    unfold put
    rw [if_neg h.1]
    split
    · exact .refl _
    · exact ((ih h.2).cons e).trans (.swap _ _ _)

theorem Ascending.put [LinearOrder κ] (h : Ascending entries) :
    Ascending (put key value entries) := by
  induction entries with
  | nil => simp [Ascending, TemporalBindings.put]
  | cons e rest ih =>
    obtain ⟨k', v'⟩ := e
    obtain ⟨hall, hrest⟩ := List.pairwise_cons.1 h
    unfold TemporalBindings.put
    split
    · next heq =>
      subst heq
      exact h
    · next hne =>
      split
      · next hlt =>
        refine List.pairwise_cons.2 ⟨fun b hb => ?_, h⟩
        obtain rfl | hb := List.mem_cons.1 hb
        · exact hlt
        · exact hlt.trans (hall b hb)
      · next hnlt =>
        refine List.pairwise_cons.2 ⟨fun b hb => ?_, ih hrest⟩
        obtain rfl | hb := mem_map_fst_put.1 hb
        · exact lt_of_le_of_ne (not_lt.1 hnlt) (Ne.symm hne)
        · exact hall b hb

/-- Reading a key finds some entry iff there is one. -/
theorem exists_lookup_iff [BEq κ] [LawfulBEq κ] :
    (∃ v, entries.lookup k = some v) ↔ k ∈ entries.map Prod.fst := by
  rw [← Option.isSome_iff_exists, List.lookup_isSome_iff, List.mem_map]
  simp only [beq_iff_eq, eq_comm (a := k)]

theorem mem_of_lookup [BEq κ] [LawfulBEq κ] (h : entries.lookup k = some v) :
    (k, v) ∈ entries := by
  obtain ⟨before, after, rfl, -⟩ := List.lookup_eq_some_iff.1 h
  simp

/-- In an ascending map every entry is found. -/
theorem Ascending.lookup_eq_some_iff [LinearOrder κ] (h : Ascending entries) {k : κ} {v : α} :
    entries.lookup k = some v ↔ (k, v) ∈ entries := by
  refine ⟨mem_of_lookup, fun hmem => ?_⟩
  obtain ⟨w, hw⟩ := exists_lookup_iff.2 (List.mem_map_of_mem (f := Prod.fst) hmem)
  have hnodup : (entries.map Prod.fst).Nodup := h.imp ne_of_lt
  have hsame := List.inj_on_of_nodup_map hnodup hmem (mem_of_lookup hw) rfl
  rw [hw, (Prod.mk.inj hsame).2]

/-- Ascending maps that read the same are the same. -/
theorem Ascending.eq_of_lookup [LinearOrder κ] {entries' : List (κ × α)} (h : Ascending entries)
    (h' : Ascending entries') (hsame : ∀ k, entries.lookup k = entries'.lookup k) :
    entries = entries' := by
  have hnodup {es : List (κ × α)} (hes : Ascending es) : es.Nodup :=
    List.Nodup.of_map Prod.fst (hes.imp ne_of_lt)
  have hperm : entries.Perm entries' := by
    refine (List.perm_ext_iff_of_nodup (hnodup h) (hnodup h')).2 fun ⟨k, v⟩ => ?_
    rw [← h.lookup_eq_some_iff, hsame, h'.lookup_eq_some_iff]
  have hfirst {es : List (κ × α)} (hes : Ascending es) : es.Pairwise (·.1 < ·.1) :=
    List.pairwise_map.1 hes
  exact hperm.eq_of_pairwise (fun _ _ _ _ hlt hgt => absurd hlt hgt.asymm) (hfirst h) (hfirst h')

end Put

namespace Source

/-! ## The order of bytes -/

/-- The bytes of a text in UTF-8. -/
def utf8 (s : String) : List UInt8 :=
  s.toList.flatMap String.utf8EncodeChar

theorem cons_ofNat_lt_cons {m n : Nat} {x y : List UInt8} (hm : m < 256) (hn : n < 256) :
    UInt8.ofNat m :: x < UInt8.ofNat n :: y ↔ m < n ∨ m = n ∧ x < y := by
  rw [List.cons_lt_cons_iff, UInt8.lt_iff_toNat_lt, ← UInt8.toNat_inj,
    UInt8.toNat_ofNat_of_lt' hm, UInt8.toNat_ofNat_of_lt' hn]

/-- Characters are encoded in their order, whatever follows. The first bytes tell
lengths apart, and under one length the bytes are the digits of the code point. -/
theorem utf8EncodeChar_lt {a b : Char} (h : a < b) (x y : List UInt8) :
    String.utf8EncodeChar a ++ x < String.utf8EncodeChar b ++ y := by
  have hv : a.val.toNat < b.val.toNat := h
  have hb : b.val.toNat < 0x110000 := by
    have := b.valid
    simp only [UInt32.isValidChar, Nat.isValidChar] at this
    omega
  have h12 (n : Nat) : n / 4096 = n / 64 / 64 := by omega
  have h18 (n : Nat) : n / 262144 = n / 64 / 64 / 64 := by omega
  simp only [String.utf8EncodeChar, h12, h18]
  generalize a.val.toNat = m at hv ⊢
  generalize b.val.toNat = n at hv hb ⊢
  split_ifs <;>
    simp (disch := omega) only [List.cons_append, List.nil_append, cons_ofNat_lt_cons] <;> omega

/-- The order of texts is that of their bytes. -/
theorem utf8_lt_utf8 {s t : String} (h : s < t) : utf8 s < utf8 t := by
  have hlist : s.toList < t.toList := String.lt_iff_toList_lt.1 h
  unfold utf8
  generalize s.toList = l at hlist
  generalize t.toList = m at hlist
  induction l generalizing m with
  | nil =>
    cases m with
    | nil => exact absurd hlist (by simp)
    | cons b m =>
      have hne : String.utf8EncodeChar b ≠ [] := by
        unfold String.utf8EncodeChar
        simp only
        split_ifs <;> simp
      obtain ⟨c, cs, hc⟩ := List.exists_cons_of_ne_nil hne
      rw [List.flatMap_cons, hc]
      exact List.nil_lt_cons _ _
  | cons a l ih =>
    cases m with
    | nil => exact absurd hlist (by simp)
    | cons b m =>
      rw [List.flatMap_cons, List.flatMap_cons]
      obtain hab | ⟨rfl, hlm⟩ := List.cons_lt_cons_iff.1 hlist
      · exact utf8EncodeChar_lt hab _ _
      · exact List.append_left_lt (ih m hlm)

namespace Imports

/-! ## Paths -/

/-- The imported paths. -/
def paths (t : Imports) : List String :=
  t.aliases.map Prod.fst

theorem ascending_require {t : Imports} (h : Ascending t.aliases) (i : Ident) :
    Ascending (t.require i).aliases := by
  unfold require
  split
  · exact h
  · split
    · exact h
    · exact h.put

theorem ascending_requireAll {t : Imports} (h : Ascending t.aliases) (is : List Ident) :
    Ascending (t.requireAll is).aliases := by
  induction is generalizing t with
  | nil => exact h
  | cons i is ih => exact ih (ascending_require h i)

theorem mem_paths_require {t : Imports} {i : Ident} {path : String} :
    path ∈ (t.require i).paths ↔
      path ∈ t.paths ∨ (path = i.package.path ∧ i.package.path ≠ t.home) := by
  unfold require
  split
  · next h => simp [h]
  · next hne =>
    split
    · next a ha =>
      have hmem : i.package.path ∈ t.paths := exists_lookup_iff.1 ⟨a, ha⟩
      exact ⟨.inl, fun h => h.elim id fun h => h.1 ▸ hmem⟩
    · simp only [paths, mem_map_fst_put]
      tauto

/-- The paths after identifiers are those before and the ones of the identifiers'
packages, except for the file's own. -/
theorem mem_paths_requireAll {t : Imports} {is : List Ident} {path : String} :
    path ∈ (t.requireAll is).paths ↔
      path ∈ t.paths ∨ (path ≠ t.home ∧ ∃ i ∈ is, i.package.path = path) := by
  induction is generalizing t with
  | nil => simp
  | cons i is ih =>
    rw [requireAll_cons, ih, mem_paths_require, (extends_require t i).home]
    constructor
    · rintro ((h | ⟨rfl, h⟩) | ⟨h, j, hj, rfl⟩)
      · exact .inl h
      · exact .inr ⟨h, i, List.mem_cons_self, rfl⟩
      · exact .inr ⟨h, j, List.mem_cons_of_mem i hj, rfl⟩
    · rintro (h | ⟨h, j, hj, rfl⟩)
      · exact .inl (.inl h)
      · obtain rfl | hj := List.mem_cons.1 hj
        · exact .inl (.inr ⟨rfl, h⟩)
        · exact .inr ⟨h, j, hj, rfl⟩

/-- In a fresh table they are those of other packages. -/
theorem mem_paths_requireAll_empty {home : String} {is : List Ident} {path : String} :
    path ∈ ((empty home).requireAll is).paths ↔
      path ≠ home ∧ ∃ i ∈ is, i.package.path = path := by
  rw [mem_paths_requireAll]
  simp [paths, empty]

/-! ## Aliases -/

theorem candidate_injective (name : String) : Function.Injective (candidate name) := by
  have hdigits (n : Nat) :
      (candidate name (n + 1)).toList = name.toList ++ Nat.toDigits 10 (n + 1) := by
    simp [candidate]
  have hne (n : Nat) : candidate name 0 ≠ candidate name (n + 1) := fun h => by
    have hlist := congrArg String.toList h
    rw [hdigits, candidate] at hlist
    simp [Nat.toDigits_ne_nil] at hlist
  intro m n h
  cases m with
  | zero =>
    cases n with
    | zero => rfl
    | succ n => exact absurd h (hne n)
  | succ m =>
    cases n with
    | zero => exact absurd h.symm (hne m)
    | succ n =>
      have hlist := congrArg String.toList h
      rw [hdigits, hdigits] at hlist
      have hnumber := congrArg (Nat.ofDigitChars 10 · 0) (List.append_cancel_left hlist)
      simpa only [Nat.ofDigitChars_ten_toDigits] using hnumber

/-- The alias for a name is its first candidate that is not in use. There is always one,
since there is one more candidate than there are names in use. -/
theorem exists_freshAlias_eq (used : List String) (name : String) :
    ∃ n ≤ used.length, freshAlias used name = candidate name n ∧ candidate name n ∉ used ∧
      ∀ m < n, candidate name m ∈ used := by
  rw [freshAlias, List.find?_map]
  cases h : (List.range (used.length + 1)).find? ((fun a => decide (a ∉ used)) ∘ candidate name) with
  | some n =>
    obtain ⟨hfree, hrange, hfirst⟩ := List.find?_range_eq_some.1 h
    have hle : n ≤ used.length := Nat.lt_succ_iff.1 (List.mem_range.1 hrange)
    exact ⟨n, hle, rfl, by simpa using hfree, fun m hm => by simpa using hfirst m hm⟩
  | none =>
    have hall : (List.range (used.length + 1)).map (candidate name) ⊆ used := fun a ha => by
      obtain ⟨n, hn, rfl⟩ := List.mem_map.1 ha
      simpa using List.find?_eq_none.1 h n hn
    have hnodup := List.Nodup.map (candidate_injective name)
      (List.nodup_range (n := used.length + 1))
    have hlength := hnodup.length_le_of_subset hall
    simp at hlength

theorem freshAlias_eq_candidate (used : List String) (name : String) :
    ∃ n, freshAlias used name = candidate name n := by
  obtain ⟨n, -, hn, -⟩ := exists_freshAlias_eq used name
  exact ⟨n, hn⟩

theorem freshAlias_not_mem (used : List String) (name : String) : freshAlias used name ∉ used := by
  obtain ⟨n, -, hn, hfree, -⟩ := exists_freshAlias_eq used name
  rwa [hn]

/-- No two packages have one alias. -/
theorem nodup_aliases_require {t : Imports} (h : (t.aliases.map Prod.snd).Nodup) (i : Ident) :
    ((t.require i).aliases.map Prod.snd).Nodup := by
  unfold require
  split
  · exact h
  · split
    · exact h
    · next hnone =>
      have hnew : i.package.path ∉ t.aliases.map Prod.fst := fun hmem => by
        obtain ⟨a, ha⟩ := exists_lookup_iff.2 hmem
        simp [hnone] at ha
      refine ((put_perm hnew _).map Prod.snd).nodup_iff.2 ?_
      rw [List.map_cons, List.nodup_cons]
      exact ⟨freshAlias_not_mem _ _, h⟩

theorem nodup_aliases_requireAll {t : Imports} (h : (t.aliases.map Prod.snd).Nodup)
    (is : List Ident) : ((t.requireAll is).aliases.map Prod.snd).Nodup := by
  induction is generalizing t with
  | nil => exact h
  | cons i is ih => exact ih (nodup_aliases_require h i)

/-- Every new entry is for a package that was asked for, under a candidate for its
name. -/
theorem mem_aliases_requireAll {t : Imports} {is : List Ident} {e : String × String}
    (h : e ∈ (t.requireAll is).aliases) :
    e ∈ t.aliases ∨ ∃ i ∈ is, e.1 = i.package.path ∧ ∃ n, e.2 = candidate i.package.name n := by
  induction is generalizing t with
  | nil => exact .inl h
  | cons i is ih =>
    obtain h | ⟨j, hj, hpath, halias⟩ := ih h
    · unfold require at h
      split at h
      · exact .inl h
      · split at h
        · exact .inl h
        · obtain rfl | h := mem_of_mem_put h
          · exact .inr ⟨i, List.mem_cons_self, rfl, freshAlias_eq_candidate _ _⟩
          · exact .inl h
    · exact .inr ⟨j, List.mem_cons_of_mem i hj, hpath, halias⟩

end Imports

end Source

end TemporalBindings
