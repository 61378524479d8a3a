import TemporalBindings.Proofs.FloatTexts
import TemporalBindings.Proofs.Independence
import TemporalBindings.Proofs.Quotes

/-!
# TemporalBindings.Proofs.OptionsLiteral

The literal of a worker's options as lines, and the options that are read from them:

```
opts := worker.Options{
MaxConcurrentActivityExecutionSize: 5,
Identity:                           "me",
}
```

Every option that is not zero has a line, in the order of the catalog, and all values start in
one column. The reader knows nothing but the lines. It takes the keys first, which end at the
first colon; the longest of them gives the column, and what stands from there to the comma at
the end of the line is the value, whatever characters are in it. So options with the same
lines are the same, except that of a duration only the number of seconds is in them.
-/

namespace TemporalBindings.Source

open Text

/-! ## Lines of a literal -/

namespace Literal

variable {t : Imports} {l : Literal} {fields : List (String × Code)}

/-- A field on its line, with its value in a given column. -/
def fieldLine (column : Nat) (key value : String) : String :=
  key ++ ":" ++ String.ofList (List.replicate (column - (key.length + 1)) ' ') ++ value ++ ","

/-- Whether values can start in a column: one blank behind the colon of the longest key. -/
structure IsColumn (keys : List String) (column : Nat) : Prop where
  behind : ∀ key ∈ keys, key.length + 2 ≤ column
  next : ∃ key ∈ keys, key.length + 2 = column

theorem isColumn_width (h : fields ≠ []) : IsColumn (fields.map Prod.fst) (width fields + 1) := by
  -- the greatest of the keys and of what the fold begins with
  have hfold (fields : List (String × Code)) (w : Nat) :
      let last := fields.foldl (fun w f => max w (f.1.length + 1)) w
      w ≤ last ∧ (∀ f ∈ fields, f.1.length + 1 ≤ last) ∧
        (last = w ∨ ∃ f ∈ fields, f.1.length + 1 = last) := by
    induction fields generalizing w with
    | nil => simp
    | cons f fields ih =>
      obtain ⟨hstart, hall, hlast⟩ := ih (max w (f.1.length + 1))
      refine ⟨(le_max_left _ _).trans hstart, ?_, ?_⟩
      · exact List.forall_mem_cons.2 ⟨(le_max_right _ _).trans hstart, hall⟩
      · obtain hlast | ⟨g, hg, hlast⟩ := hlast
        · obtain hmax | hmax := max_choice w (f.1.length + 1)
          · exact .inl (hlast.trans hmax)
          · exact .inr ⟨f, List.mem_cons_self, (hlast.trans hmax).symm⟩
        · exact .inr ⟨g, List.mem_cons_of_mem f hg, hlast⟩
  obtain ⟨-, hall, hlast⟩ := hfold fields 0
  refine ⟨List.forall_mem_map.2 fun f hf => Nat.succ_le_succ (hall f hf), ?_⟩
  obtain hzero | ⟨f, hf, hlast⟩ := hlast
  · obtain ⟨f, fields, rfl⟩ := List.exists_cons_of_ne_nil h
    have := hall f List.mem_cons_self
    omega
  · exact ⟨f.1, List.mem_map_of_mem hf, congrArg Nat.succ hlast⟩

/-- On its line a value starts in the column. -/
theorem IsColumn.drop_fieldLine {keys : List String} {column : Nat} (h : IsColumn keys column)
    {key : String} (hkey : key ∈ keys) (value : String) :
    (fieldLine column key value).toList.drop column = (value ++ ",").toList := by
  have hfront : (key ++ ":" ++
      String.ofList (List.replicate (column - (key.length + 1)) ' ')).toList.length = column := by
    have := h.behind key hkey
    have hcolon : (":" : String).length = 1 := rfl
    simp only [String.length_toList, String.length_append, String.length_ofList,
      List.length_replicate, hcolon]
    omega
  rw [fieldLine, String.append_assoc, String.toList_append, List.drop_left' hfront]

/-- A key that is filled up to a width, and the value behind a blank. -/
theorem key_append_eq_fieldLine {width : Nat} {name : String} (h : name.length + 2 ≤ width + 1)
    (value : String) :
    key width name ++ " " ++ (value ++ ",") = fieldLine (width + 1) name value := by
  have hblanks : List.replicate (width + 1 - (name.length + 1)) ' ' =
      List.replicate (width - (name.length + 1)) ' ' ++ [' '] := by
    rw [← List.replicate_succ']
    congr 1
    omega
  have hblank : String.ofList [' '] = " " := rfl
  rw [fieldLine, key, hblanks, String.ofList_append, hblank]
  simp only [String.append_assoc]

/-- Without fields there is one line. -/
theorem lines_items_of_nil (h : l.fields = []) (before : Code) (after : String) :
    (l.items before after).flatMap (Item.lines t) =
      [⟨t.codeText before ++ t.spelling l.type ++ "\x7b\x7d" ++ after, none⟩] := by
  rw [items, h]
  simp [String.append_assoc]

/-- With fields there is a line for each between the braces. -/
theorem lines_items (h : l.fields ≠ []) (before : Code) (after : String) :
    (l.items before after).flatMap (Item.lines t) =
      ([t.codeText before ++ t.spelling l.type ++ "\x7b"] ++
        l.fields.map (fun f => fieldLine (width l.fields + 1) f.1 (t.codeText f.2)) ++
        ["\x7d" ++ after]).map (⟨·, none⟩) := by
  obtain ⟨type, fields⟩ := l
  obtain ⟨f, fs, rfl⟩ := List.exists_cons_of_ne_nil h
  have hlines : ((f :: fs).map fun g => line (.text (key (width (f :: fs)) g.1 ++ " ") :: g.2 ++
      [.text ","])).flatMap (Item.lines t) =
      (f :: fs).map fun g => ⟨fieldLine (width (f :: fs) + 1) g.1 (t.codeText g.2), none⟩ := by
    rw [List.flatMap_map, List.map_eq_flatMap]
    refine List.flatMap_congr fun g hg => ?_
    rw [lines_line, List.cons_append, Imports.codeText_cons, Imports.codeText_append,
      ← key_append_eq_fieldLine ((isColumn_width h).behind g.1 (List.mem_map_of_mem hg))]
    simp
  have hitems : Literal.items before ⟨type, f :: fs⟩ after =
      [line (before ++ [.ident type, .text "\x7b"])] ++
        ((f :: fs).map fun g => line (.text (key (width (f :: fs)) g.1 ++ " ") :: g.2 ++
          [.text ","])) ++ [line [.text ("\x7d" ++ after)]] := rfl
  rw [hitems, List.flatMap_append, List.flatMap_append, hlines]
  simp [String.append_assoc]

end Literal

/-! ## Reading lines -/

/-- A key with the value that starts in a column and ends at the comma, from what stands before
and behind the colon. -/
def entryAt? (column : Nat) (cut : List Char × List Char) : Option (List Char × List Char) := do
  let behind ← stripStart? (List.replicate (column - (cut.1.length + 1)) ' ') cut.2
  let value ← stripEnd? [','] behind
  some (cut.1, value)

/-- The keys and values of lines. All values start in the column that the longest key gives. -/
def entries? (lines : List (List Char)) : Option (List (List Char × List Char)) := do
  let cuts ← lines.mapM (cut? ':')
  cuts.mapM (entryAt? ((cuts.map fun cut => cut.1.length).max?.getD 0 + 2))

/-- What is read one by one is read. -/
theorem mapM_map_eq_some {α β γ : Type} {f : β → Option γ} {g : α → β} {h : α → γ} {xs : List α}
    (hread : ∀ x ∈ xs, f (g x) = some (h x)) : (xs.map g).mapM f = some (xs.map h) := by
  induction xs with
  | nil => rfl
  | cons x xs ih =>
    have hfirst := hread x List.mem_cons_self
    have hrest := ih fun y hy => hread y (List.mem_cons_of_mem x hy)
    simp [List.mapM_cons, hfirst, hrest]

/-- The longest key gives the column. -/
theorem Literal.IsColumn.max?_eq {keys : List String} {column : Nat} (h : IsColumn keys column) :
    (keys.map String.length).max?.getD 0 + 2 = column := by
  obtain ⟨key, hkey, hnext⟩ := h.next
  have hmax : (keys.map String.length).max? = some key.length := by
    refine List.max?_eq_some_iff.2 ⟨List.mem_map_of_mem hkey, List.forall_mem_map.2 fun k hk => ?_⟩
    have := h.behind k hk
    omega
  rw [hmax, Option.getD_some, hnext]

/-- Fields on their lines are read, whatever the values are. -/
theorem entries?_fieldLine {fields : List (String × String)} {column : Nat}
    (hkeys : ∀ f ∈ fields, ':' ∉ f.1.toList)
    (hcolumn : Literal.IsColumn (fields.map Prod.fst) column) :
    entries? (fields.map fun f => (Literal.fieldLine column f.1 f.2).toList) =
      some (fields.map fun f => (f.1.toList, f.2.toList)) := by
  let blanks (f : String × String) := List.replicate (column - (f.1.length + 1)) ' '
  have hcuts : (fields.map fun f => (Literal.fieldLine column f.1 f.2).toList).mapM (cut? ':') =
      some (fields.map fun f => (f.1.toList, blanks f ++ (f.2.toList ++ [',']))) := by
    refine mapM_map_eq_some fun f hf => cut?_eq_some_iff.2 ⟨?_, hkeys f hf⟩
    simp [Literal.fieldLine, blanks]
  have hmax := hcolumn.max?_eq
  rw [List.map_map] at hmax
  rw [entries?, hcuts, Option.bind_eq_bind, Option.bind_some]
  simp only [List.map_map, Function.comp_def, String.length_toList] at hmax ⊢
  rw [hmax]
  refine mapM_map_eq_some fun f _ => ?_
  have hblanks : stripStart? (blanks f) (blanks f ++ (f.2.toList ++ [','])) =
      some (f.2.toList ++ [',']) := stripStart?_eq_some_iff.2 rfl
  have hcomma : stripEnd? [','] (f.2.toList ++ [',']) = some f.2.toList :=
    stripEnd?_eq_some_iff.2 rfl
  rw [entryAt?, String.length_toList, hblanks, Option.bind_eq_bind, Option.bind_some, hcomma]
  rfl

/-- The integer that digits behind a minus, or without one, spell. -/
def int? : List Char → Option Int
  | '-' :: ds => (digits? ds).map fun n : Nat => -(n : Int)
  | ds => (digits? ds).map fun n : Nat => (n : Int)

theorem int?_intText (n : Int) : int? (intText n) = some n := by
  have hdigits := (isDigits_natText n.natAbs).digits?
  rw [ofDigitChars_natText] at hdigits
  unfold intText
  split
  · rw [int?, hdigits, Option.map_some, Option.some.injEq]
    omega
  · unfold int?
    split
    · next ds heq =>
      have hminus : '-' ∈ natText n.natAbs := heq ▸ List.mem_cons_self
      exact absurd hminus ((isDigits_natText n.natAbs).not_mem rfl)
    · rw [hdigits, Option.map_some, Option.some.injEq]
      omega

/-- The integer of 32 bits that is spelled, if there is one. -/
def int32? (cs : List Char) : Option Int32 :=
  (int? cs).bind fun n =>
    if Int32.minValue.toInt ≤ n ∧ n ≤ Int32.maxValue.toInt then some (Int32.ofInt n) else none

theorem int32?_intText (n : Int32) : int32? (intText n.toInt) = some n := by
  rw [int32?, int?_intText, Option.bind_some, if_pos ⟨n.minValue_le_toInt, n.toInt_le⟩,
    Int32.ofInt_toInt]

end TemporalBindings.Source

namespace TemporalBindings.Worker

namespace Setting

/-- A name ends before the colon behind it. -/
theorem colon_notMem_name (s : Setting) : ':' ∉ s.name.toList := by
  have hlist {cs : List Char} (h : ':' ∉ cs) : ':' ∉ (String.ofList cs).toList := by
    rwa [String.toList_ofList]
  cases s <;> exact hlist (by decide)

/-- The setting of a given name in the worker library. -/
def ofName? (name : String) : Option Setting :=
  all.find? (·.name = name)

theorem ofName?_name (s : Setting) : ofName? s.name = some s :=
  (find?_all_eq_some_iff fun _ _ => name_injective).2 rfl

end Setting

/-- Whether a value is finite, if it is a double. -/
def OptionValue.isFinite : OptionValue → Bool
  | .float d => d.isFinite
  | _ => true

namespace Options

theorem nonZero_eq_nil_iff (o : Options) : o.nonZero = [] ↔ ∀ s, (o.get s).isZero = true := by
  simp [List.eq_nil_iff_forall_not_mem, mem_nonZero]

/-- Whether all doubles of options are finite. -/
def HasFiniteDoubles (o : Options) : Prop :=
  ∀ s d, o.get s = .float d → d.isFinite = true

theorem hasFiniteDoubles_iff (o : Options) :
    o.HasFiniteDoubles ↔ ∀ s ∈ Setting.all, (o.get s).isFinite = true := by
  constructor
  · intro h s _
    cases hs : o.get s with
    | float d => exact h s d hs
    | _ => rfl
  · intro h s d hs
    have hfinite := h s s.mem_all
    rwa [hs] at hfinite

instance (o : Options) : Decidable o.HasFiniteDoubles :=
  decidable_of_iff _ o.hasFiniteDoubles_iff.symm

end Options

end TemporalBindings.Worker

namespace TemporalBindings.Bindings

open Source Worker

variable {t : Imports} {sdk : Sdk}

/-! ## Values -/

/-- What is read for an option: its value or, for doubles and durations, its code. -/
inductive Reading
  | value (v : OptionValue)
  | code (text : String)

/-- The reading of a text for an option of some kind. -/
def readValue? : Kind → List Char → Option Reading
  | .bool, cs =>
    if cs = ['t', 'r', 'u', 'e'] then some (.value (.bool true))
    else if cs = ['f', 'a', 'l', 's', 'e'] then some (.value (.bool false))
    else none
  | .int, cs => (int32? cs).map fun n => .value (.int n)
  | .string, cs => (readText? cs).map fun s => .value (.string s)
  | .float, cs | .duration, cs => some (.code (String.ofList cs))

/-- What is to be read for a value. -/
def reading (t : Imports) (sdk : Sdk) (v : OptionValue) : Reading :=
  match v.kind with
  | .float | .duration => .code (t.codeText (valueCode sdk v))
  | _ => .value v

theorem readValue?_codeText (v : OptionValue) :
    readValue? v.kind (t.codeText (valueCode sdk v)).toList = some (reading t sdk v) := by
  cases v with
  | bool b => cases b <;> simp [OptionValue.kind, valueCode, readValue?, reading]
  | int n => simp [OptionValue.kind, valueCode, readValue?, reading, int32?_intText]
  | string s => simp [OptionValue.kind, valueCode, readValue?, reading, readText?_quote]
  | float d => simp [OptionValue.kind, readValue?, reading]
  | duration d => simp [OptionValue.kind, readValue?, reading]

/-! ## Options -/

/-- The option that a key and a value are. -/
def readOption? (entry : List Char × List Char) : Option (Setting × Reading) :=
  (Setting.ofName? (String.ofList entry.1)).bind fun s => (readValue? s.kind entry.2).map (s, ·)

/-- The options that are read from the lines of a literal. -/
def readOptions? : List String → Option (List (Setting × Reading))
  | [] => none
  | [_] => some []
  | _ :: inside =>
    (entries? (inside.dropLast.map String.toList)).bind fun entries => entries.mapM readOption?

/-- What the lines of a literal have to be for options, if `front` is what stands before its
braces. -/
structure AreLinesOf (lines : List String) (t : Imports) (sdk : Sdk) (o : Options)
    (front after : String) : Prop where
  /-- If all options are zero, there is one line. -/
  single : (∀ s, (o.get s).isZero = true) → lines = [front ++ "\x7b\x7d" ++ after]
  /-- If not, there is one for each that is not zero, and all values start in one column. -/
  several : (¬ ∀ s, (o.get s).isZero = true) → ∃ column,
    Literal.IsColumn (o.nonZero.map fun e => e.1.name) column ∧
      lines = [front ++ "\x7b"] ++
        o.nonZero.map (fun e =>
          Literal.fieldLine column e.1.name (t.codeText (valueCode sdk e.2))) ++
        ["\x7d" ++ after] ∧
      ∀ e ∈ o.nonZero, ∀ value, (Literal.fieldLine column e.1.name value).toList.drop column =
        (value ++ ",").toList
  listed : ∀ s v, (s, v) ∈ o.nonZero ↔ o.get s = v ∧ v.isZero = false
  /-- The keys are in the order of the catalog, and no two are the same. -/
  keys : (o.nonZero.map fun e => e.1.name).Sublist (Setting.all.map Setting.name) ∧
    (o.nonZero.map fun e => e.1.name).Nodup
  read : readOptions? lines = some (o.nonZero.map fun e => (e.1, reading t sdk e.2))

/-- Only what is between the first line and the last is read. -/
theorem readOptions?_between (front behind : String) (lines : List String) :
    readOptions? ([front] ++ lines ++ [behind]) =
      (entries? (lines.map String.toList)).bind fun entries => entries.mapM readOption? := by
  have hlast : (lines ++ [behind]).dropLast = lines := List.dropLast_concat
  have hread : readOptions? ([front] ++ lines ++ [behind]) =
      (entries? ((lines ++ [behind]).dropLast.map String.toList)).bind fun entries =>
        entries.mapM readOption? := by
    cases lines <;> rfl
  rw [hread, hlast]

/-- The options are read from the lines of their fields. -/
theorem readOptions?_fieldLine (o : Options) {column : Nat} (front behind : String)
    (h : Literal.IsColumn (o.nonZero.map fun e => e.1.name) column) :
    readOptions? ([front] ++
        o.nonZero.map (fun e =>
          Literal.fieldLine column e.1.name (t.codeText (valueCode sdk e.2))) ++ [behind]) =
      some (o.nonZero.map fun e => (e.1, reading t sdk e.2)) := by
  let fields := o.nonZero.map fun e => (e.1.name, t.codeText (valueCode sdk e.2))
  have hentries : entries? (fields.map fun f => (Literal.fieldLine column f.1 f.2).toList) =
      some (fields.map fun f => (f.1.toList, f.2.toList)) := by
    refine entries?_fieldLine (List.forall_mem_map.2 fun e _ => e.1.colon_notMem_name) ?_
    rwa [List.map_map]
  have hoptions : (fields.map fun f => (f.1.toList, f.2.toList)).mapM readOption? =
      some (o.nonZero.map fun e => (e.1, reading t sdk e.2)) := by
    rw [List.map_map]
    refine mapM_map_eq_some fun e he => ?_
    have hkind : e.1.kind = e.2.kind := by
      rw [← (Options.mem_nonZero.1 he).1, o.kind_get]
    simp only [Function.comp_apply, readOption?, String.ofList_toList, Setting.ofName?_name,
      Option.bind_some, hkind, readValue?_codeText, Option.map_some]
  have hlines : (o.nonZero.map fun e =>
      Literal.fieldLine column e.1.name (t.codeText (valueCode sdk e.2))).map String.toList =
      fields.map fun f => (Literal.fieldLine column f.1 f.2).toList := by
    rw [List.map_map, List.map_map]
    rfl
  rw [readOptions?_between, hlines, hentries, Option.bind_some, hoptions]

/-- The lines of the literal, if its type may have any name and anything stands around it. -/
theorem exists_areLinesOf (t : Imports) (sdk : Sdk) (o : Options) (type : Ident) (before : Code)
    (after : String) :
    ∃ lines : List String,
      (Literal.items before ⟨type, (optionsLiteral sdk o).fields⟩ after).flatMap (Item.lines t) =
        lines.map (⟨·, none⟩) ∧
      AreLinesOf lines t sdk o (t.codeText before ++ t.spelling type) after := by
  have hkeys := o.map_fst_nonZero_sublist.map Setting.name
  rw [List.map_map] at hkeys
  have hnodup := hkeys.nodup Setting.nodup_names
  let l : Literal := ⟨type, (optionsLiteral sdk o).fields⟩
  have hfields : l.fields = o.nonZero.map fun e => (e.1.name, valueCode sdk e.2) := rfl
  by_cases hzero : o.nonZero = []
  · have hnil : l.fields = [] := by rw [hfields, hzero, List.map_nil]
    exact ⟨_, Literal.lines_items_of_nil hnil before after, {
      single := fun _ => rfl
      several := fun hsome => absurd (o.nonZero_eq_nil_iff.1 hzero) hsome
      listed := fun _ _ => Options.mem_nonZero
      keys := ⟨hkeys, hnodup⟩
      read := by rw [hzero]; rfl }⟩
  · have hne : l.fields ≠ [] := by rwa [hfields, ne_eq, List.map_eq_nil_iff]
    have hcolumn := Literal.isColumn_width hne
    have hlines := Literal.lines_items (t := t) hne before after
    rw [hfields, List.map_map] at hcolumn hlines
    exact ⟨_, hlines, {
      single := fun hall => absurd (o.nonZero_eq_nil_iff.2 hall) hzero
      several := fun _ => ⟨_, hcolumn, rfl, fun e he =>
        hcolumn.drop_fieldLine (List.mem_map.2 ⟨e, he, rfl⟩)⟩
      listed := fun _ _ => Options.mem_nonZero
      keys := ⟨hkeys, hnodup⟩
      read := readOptions?_fieldLine o _ _ hcolumn }⟩

/-! ## Options that have the same lines -/

/-- A double other than zero is known by its text. -/
theorem eq_of_floatText_eq {d d' : Number.Double} (hd : d.isFinite = true)
    (hd' : d'.isFinite = true) (hzero : d.isZero = false) (hzero' : d'.isZero = false)
    (h : floatText d' = floatText d) : d' = d := by
  have htext := isTextOf_of_not_isZero hd hzero
  have htext' := isTextOf_of_not_isZero hd' hzero'
  have hsame := htext'.denotes.symm.trans (h ▸ htext.denotes)
  have hnearest := htext'.nearest
  rw [Option.some.inj hsame, htext.nearest, hzero, hzero'] at hnearest
  exact hnearest.symm

/-- A value that is no duration is known by its reading. -/
theorem eq_of_reading_eq {t t' : Imports} {sdk sdk' : Sdk} {v v' : OptionValue}
    (hkind : v'.kind = v.kind) (hduration : v.kind ≠ .duration)
    (hfinite : ∀ d, v = .float d → d.isFinite = true)
    (hfinite' : ∀ d, v' = .float d → d.isFinite = true)
    (hzero : v.isZero = false) (hzero' : v'.isZero = false)
    (h : reading t' sdk' v' = reading t sdk v) : v' = v := by
  cases v with
  | duration d => exact absurd rfl hduration
  | float d =>
    cases v' with
    | float d' =>
      have htext : floatText d' = floatText d := by
        simpa [reading, OptionValue.kind, valueCode, String.ofList_inj] using h
      rw [eq_of_floatText_eq (hfinite d rfl) (hfinite' d' rfl) hzero hzero' htext]
    | _ => cases hkind
  | _ => cases v' <;> simp_all [reading, OptionValue.kind]

/-- A setting that is not zero is not zero in other options with the same readings. -/
theorem exists_reading_eq {t t' : Imports} {sdk sdk' : Sdk} {o o' : Options}
    (h : (o'.nonZero.map fun e => (e.1, reading t' sdk' e.2)) =
      o.nonZero.map fun e => (e.1, reading t sdk e.2)) {s : Setting}
    (hzero : (o.get s).isZero = false) :
    (o'.get s).isZero = false ∧ reading t' sdk' (o'.get s) = reading t sdk (o.get s) := by
  have hmem : (s, reading t sdk (o.get s)) ∈
      o'.nonZero.map fun e => (e.1, reading t' sdk' e.2) := by
    rw [h]
    exact List.mem_map.2 ⟨_, Options.mem_nonZero.2 ⟨rfl, hzero⟩, rfl⟩
  obtain ⟨⟨s', v⟩, he, hpair⟩ := List.mem_map.1 hmem
  obtain ⟨rfl, hreading⟩ := Prod.mk.inj hpair
  obtain ⟨rfl, hv⟩ := Options.mem_nonZero.1 he
  exact ⟨hv, hreading⟩

/-- Options that have the same readings are the same, but for durations and the sign of zero. -/
theorem withPositiveZero_get_eq {t t' : Imports} {sdk sdk' : Sdk} {o o' : Options}
    (ho : o.HasFiniteDoubles) (ho' : o'.HasFiniteDoubles)
    (h : (o'.nonZero.map fun e => (e.1, reading t' sdk' e.2)) =
      o.nonZero.map fun e => (e.1, reading t sdk e.2)) {s : Setting} (hs : s.kind ≠ .duration) :
    (o'.get s).withPositiveZero = (o.get s).withPositiveZero := by
  have hkind : (o'.get s).kind = (o.get s).kind := by rw [o.kind_get, o'.kind_get]
  cases hzero : (o.get s).isZero with
  | false =>
    obtain ⟨hzero', hreading⟩ := exists_reading_eq h hzero
    rw [← o.kind_get] at hs
    rw [eq_of_reading_eq hkind hs (ho s) (ho' s) hzero hzero' hreading]
  | true =>
    have hzero' : (o'.get s).isZero = true := by
      by_contra hne
      have := (exists_reading_eq h.symm (by simpa using hne)).1
      simp [hzero] at this
    rw [OptionValue.withPositiveZero_of_isZero hzero, OptionValue.withPositiveZero_of_isZero hzero',
      hkind]

/-! ## Writing -/

theorem exists_writeAll_eq (f : Source.File) (sdk : Sdk) (o : Options) (type : Ident)
    (before : Code) (after : String) :
    let items := Literal.items before ⟨type, (optionsLiteral sdk o).fields⟩ after
    let t := (f.writeAll items).imports
    ∃ lines : List String,
      f.writeAll items = { f with imports := t, body := f.body ++ lines.map (⟨·, none⟩) } ∧
        AreLinesOf lines t sdk o (t.codeText before ++ t.spelling type) after := by
  intro items t
  have hpackage : ∀ item ∈ items, item.isPackage = false :=
    fun _ => Literal.isPackage_of_mem_items
  have hwritten := Source.File.writeAll_eq (f := f) hpackage (.refl _)
  have ht : t = f.imports.requireAll (items.flatMap Item.idents) :=
    congrArg Source.File.imports hwritten
  obtain ⟨lines, hlines, hare⟩ := exists_areLinesOf t sdk o type before after
  refine ⟨lines, ?_, hare⟩
  rw [hwritten, ← ht, hlines]

/-- Wherever the literal of a worker's options is written, it adds lines that the options are
read from. No other options have these lines, but for durations and the sign of zero. -/
theorem exists_lines_of_options (f : Source.File) (sdk : Sdk) (o : Options) (type : Ident)
    (before : Code) (after : String) :
    let items := Literal.items before ⟨type, (optionsLiteral sdk o).fields⟩ after
    let t := (f.writeAll items).imports
    ∃ lines : List String,
      f.writeAll items = { f with imports := t, body := f.body ++ lines.map (⟨·, none⟩) } ∧
      AreLinesOf lines t sdk o (t.codeText before ++ t.spelling type) after ∧
      ∀ (f' : Source.File) (sdk' : Sdk) (o' : Options) (type' : Ident) (before' : Code)
        (after' : String),
        (f'.writeAll (Literal.items before' ⟨type', (optionsLiteral sdk' o').fields⟩ after')).body =
          f'.body ++ lines.map (⟨·, none⟩) →
        o.HasFiniteDoubles → o'.HasFiniteDoubles → ∀ s : Setting, s.kind ≠ .duration →
          (o'.get s).withPositiveZero = (o.get s).withPositiveZero := by
  intro items t
  obtain ⟨lines, hwritten, hlines⟩ := exists_writeAll_eq f sdk o type before after
  refine ⟨lines, hwritten, hlines, fun f' sdk' o' type' before' after' hbody ho ho' s hs => ?_⟩
  obtain ⟨lines', hwritten', hlines'⟩ := exists_writeAll_eq f' sdk' o' type' before' after'
  rw [hwritten'] at hbody
  have hsame : lines' = lines :=
    List.map_injective_iff.2 (fun _ _ h => congrArg Line.code h) (List.append_cancel_left hbody)
  have hread := hlines'.read
  rw [hsame, hlines.read] at hread
  exact withPositiveZero_get_eq ho ho' (Option.some.inj hread).symm hs

/-- Options with one rate, a tenth or the double next to it: both are finite, and they do not have
the same lines. -/
theorem body_writeAll_tenth_ne :
    let items (rate : Number.Double) := Literal.items ["opts := "]
      ⟨⟨"Options", ⟨"example.com/worker", "worker"⟩⟩,
        (optionsLiteral {} { workerActivitiesPerSecond := rate }).fields⟩ ""
    ((Source.File.empty "a.go" "example.com/a").writeAll (items ⟨0x3fb999999999999a⟩)).body ≠
      ((Source.File.empty "a.go" "example.com/a").writeAll (items ⟨0x3fb999999999999b⟩)).body := by
  intro items hbody
  obtain ⟨lines, hwritten, -, hothers⟩ := exists_lines_of_options (.empty "a.go" "example.com/a") {}
    { workerActivitiesPerSecond := ⟨0x3fb999999999999a⟩ }
    ⟨"Options", ⟨"example.com/worker", "worker"⟩⟩ ["opts := "] ""
  have hsame := hothers (.empty "a.go" "example.com/a") {}
    { workerActivitiesPerSecond := ⟨0x3fb999999999999b⟩ }
    ⟨"Options", ⟨"example.com/worker", "worker"⟩⟩ ["opts := "] ""
    (hbody.symm.trans (congrArg Source.File.body hwritten)) (by decide) (by decide)
    .workerActivitiesPerSecond (by decide)
  exact absurd hsame (by decide)

end TemporalBindings.Bindings
