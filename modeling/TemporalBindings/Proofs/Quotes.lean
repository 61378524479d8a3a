import TemporalBindings.Proofs.NormalForm

/-!
# TemporalBindings.Proofs.Quotes

Literals of texts by the grammar of the generated language, and how they are read. Between
the quotes stand values, one after the other:

```
c             any character but a quote, a backslash and a line break, itself
\a … \"       nine named characters
\ooo  \xhh    one byte, in octal or hexadecimal digits
\uhhhh …      one character, by its code point in four or in eight digits
```

Characters stand for their bytes in UTF-8. The literal of a text is one by this grammar and
is read as the bytes of the text, so it belongs to no other text. The layout of a file does
not touch it.
-/

namespace TemporalBindings.Source

open Text

/-! ## Numbers -/

/-- The value of a digit in a base of at most sixteen. -/
def digitValue? (base : Nat) (c : Char) : Option Nat :=
  let n :=
    if c.isDigit then c.toNat - 0x30
    else if 'a' ≤ c ∧ c ≤ 'f' then c.toNat - 0x57
    else if 'A' ≤ c ∧ c ≤ 'F' then c.toNat - 0x37
    else base
  if n < base then some n else none

/-- The number that digits stand for, the most significant first. -/
def digitsValue? (base : Nat) (ds : List Char) : Option Nat :=
  ds.foldlM (fun n d => (digitValue? base d).map (base * n + ·)) 0

/-- A number of some digits at the start of a text, and the rest of the text. -/
def readDigits? (base count : Nat) (cs : List Char) : Option (Nat × List Char) :=
  if count ≤ cs.length then (digitsValue? base (cs.take count)).map (·, cs.drop count) else none

theorem readDigits?_eq_some_iff {base count n : Nat} {cs rest : List Char} :
    readDigits? base count cs = some (n, rest) ↔
      ∃ ds, cs = ds ++ rest ∧ ds.length = count ∧ digitsValue? base ds = some n := by
  unfold readDigits?
  constructor
  · intro h
    split at h
    · next hle =>
      obtain ⟨m, hm, hpair⟩ := Option.map_eq_some_iff.1 h
      obtain ⟨rfl, rfl⟩ := Prod.mk.inj hpair
      exact ⟨_, (List.take_append_drop count cs).symm, List.length_take_of_le hle, hm⟩
    · simp at h
  · rintro ⟨ds, rfl, rfl, hn⟩
    rw [if_pos (by simp), List.take_left, List.drop_left, hn]
    rfl

theorem digitsValue?_concat (base : Nat) (ds : List Char) (d : Char) :
    digitsValue? base (ds ++ [d]) =
      (digitsValue? base ds).bind fun n => (digitValue? base d).map (base * n + ·) := by
  simp only [digitsValue?, List.foldlM_append, List.foldlM_cons, List.foldlM_nil]
  exact congrArg _ (funext fun n => bind_pure _)

/-- Of octal digits each is a decimal digit. -/
theorem isDigit_of_digitsValue? {ds : List Char} {n : Nat} (h : digitsValue? 8 ds = some n)
    {d : Char} (hd : d ∈ ds) : d.isDigit = true := by
  have hoctal {c : Char} {m : Nat} (hc : digitValue? 8 c = some m) : c.isDigit = true := by
    by_contra hdigit
    simp only [digitValue?, if_neg hdigit] at hc
    split_ifs at hc with hlower hbound hupper hbound
    · have hle : 0x61 ≤ c.toNat := hlower.1
      omega
    · have hle : 0x41 ≤ c.toNat := hupper.1
      omega
    · omega
  induction ds using List.reverseRecOn generalizing n with
  | nil => simp at hd
  | append_singleton ds c ih =>
    rw [digitsValue?_concat] at h
    obtain ⟨m, hm, hlast⟩ := Option.bind_eq_some_iff.1 h
    obtain ⟨k, hk, -⟩ := Option.map_eq_some_iff.1 hlast
    obtain hd | hd := List.mem_append.1 hd
    · exact ih hm hd
    · exact List.mem_singleton.1 hd ▸ hoctal hk

/-- The digits of a number are read as the number, as far as they reach. -/
theorem digitsValue?_hexDigits (count n : Nat) :
    digitsValue? 16 (hexDigits count n) = some (n % 16 ^ count) := by
  have hdigit : ∀ k < 16, digitValue? 16 (Nat.digitChar k) = some k := by decide
  induction count generalizing n with
  | zero => simp [hexDigits, digitsValue?, Nat.mod_one]
  | succ count ih =>
    have hlast := hdigit _ (Nat.mod_lt n (by decide))
    have hsum : 16 * (n / 16 % 16 ^ count) + n % 16 = n % 16 ^ (count + 1) := by
      rw [Nat.pow_succ', Nat.mod_mul, Nat.add_comm]
    rw [hexDigits, digitsValue?_concat, ih, Option.bind_some, hlast, Option.map_some, hsum]

theorem length_hexDigits (count n : Nat) : (hexDigits count n).length = count := by
  induction count generalizing n with
  | zero => rfl
  | succ count ih => rw [hexDigits, List.length_append, ih, List.length_singleton]

/-! ## Grammar -/

/-- The letters of named characters. -/
def namedChars : List (Char × Char) :=
  [('a', '\x07'), ('b', '\x08'), ('f', '\x0C'), ('n', '\n'), ('r', '\r'), ('t', '\t'),
    ('v', '\x0B'), ('\\', '\\'), ('"', '"')]

/-- A value between quotes, and its bytes. -/
inductive IsValue : List Char → List UInt8 → Prop
  | char {c : Char} (hquote : c ≠ '"') (hback : c ≠ '\\') (hbreak : c ≠ '\n') :
      IsValue [c] (String.utf8EncodeChar c)
  | named {letter c : Char} (h : (letter, c) ∈ namedChars) :
      IsValue ['\\', letter] (String.utf8EncodeChar c)
  | octal {ds : List Char} {n : Nat} (hcount : ds.length = 3) (h : digitsValue? 8 ds = some n)
      (hbyte : n < 256) : IsValue ('\\' :: ds) [UInt8.ofNat n]
  | hex {ds : List Char} {n : Nat} (hcount : ds.length = 2) (h : digitsValue? 16 ds = some n) :
      IsValue ('\\' :: 'x' :: ds) [UInt8.ofNat n]
  | short {ds : List Char} {c : Char} (hcount : ds.length = 4)
      (h : digitsValue? 16 ds = some c.toNat) :
      IsValue ('\\' :: 'u' :: ds) (String.utf8EncodeChar c)
  | long {ds : List Char} {c : Char} (hcount : ds.length = 8)
      (h : digitsValue? 16 ds = some c.toNat) :
      IsValue ('\\' :: 'U' :: ds) (String.utf8EncodeChar c)

/-- Values one after the other. -/
inductive AreValues : List Char → List UInt8 → Prop
  | nil : AreValues [] []
  | cons {v cs : List Char} {bs bs' : List UInt8} (hv : IsValue v bs) (hcs : AreValues cs bs') :
      AreValues (v ++ cs) (bs ++ bs')

/-- A literal, and the bytes that it stands for. -/
def IsLiteral (cs : List Char) (bs : List UInt8) : Prop :=
  ∃ inside, cs = '"' :: (inside ++ ['"']) ∧ AreValues inside bs

/-! ## Reading -/

/-- The character with a code point. Surrogates are none. -/
def charAt? (n : Nat) : Option Char :=
  if n.isValidChar then some (Char.ofNat n) else none

theorem charAt?_eq_some_iff {n : Nat} {c : Char} : charAt? n = some c ↔ c.toNat = n := by
  unfold charAt?
  constructor
  · intro h
    split at h
    · next hvalid =>
      obtain rfl := Option.some.inj h
      rw [Char.ofNat, dif_pos hvalid]
      rfl
    · simp at h
  · rintro rfl
    have hvalid : c.toNat.isValidChar := c.valid
    rw [if_pos hvalid, Char.ofNat_toNat]

/-- A character of which the code point is given in some digits, and the rest of the text. -/
def readChar? (count : Nat) (cs : List Char) : Option (List UInt8 × List Char) :=
  (readDigits? 16 count cs).bind fun r => (charAt? r.1).map (String.utf8EncodeChar ·, r.2)

theorem readChar?_eq_some_iff {count : Nat} {cs rest : List Char} {bs : List UInt8} :
    readChar? count cs = some (bs, rest) ↔
      ∃ ds c, cs = ds ++ rest ∧ ds.length = count ∧ digitsValue? 16 ds = some (Char.toNat c) ∧
        bs = String.utf8EncodeChar c := by
  unfold readChar?
  constructor
  · intro h
    obtain ⟨r, hr, hchar⟩ := Option.bind_eq_some_iff.1 h
    obtain ⟨c, hc, hpair⟩ := Option.map_eq_some_iff.1 hchar
    obtain ⟨rfl, rfl⟩ := Prod.mk.inj hpair
    obtain ⟨ds, hds, hcount, hn⟩ := readDigits?_eq_some_iff.1 hr
    exact ⟨ds, c, hds, hcount, by rw [hn, charAt?_eq_some_iff.1 hc], rfl⟩
  · rintro ⟨ds, c, hds, hcount, hn, rfl⟩
    have hread := readDigits?_eq_some_iff.2 ⟨ds, hds, hcount, hn⟩
    simp [hread, charAt?_eq_some_iff.2 rfl]

/-- The bytes of the escape behind a backslash, and the rest of the text. -/
def readEscape? : List Char → Option (List UInt8 × List Char)
  | [] => none
  | c :: cs =>
    if c = 'x' then (readDigits? 16 2 cs).map fun r => ([UInt8.ofNat r.1], r.2)
    else if c = 'u' then readChar? 4 cs
    else if c = 'U' then readChar? 8 cs
    else if (namedChars.lookup c).isSome then
      (namedChars.lookup c).map (String.utf8EncodeChar ·, cs)
    else
      (readDigits? 8 3 (c :: cs)).bind fun r =>
        if r.1 < 256 then some ([UInt8.ofNat r.1], r.2) else none

/-- The bytes of the first value, and the rest of the text. -/
def readValue? : List Char → Option (List UInt8 × List Char)
  | [] => none
  | c :: cs =>
    if c = '\\' then readEscape? cs
    else if c = '"' ∨ c = '\n' then none
    else some (String.utf8EncodeChar c, cs)

/-- A value is read as its bytes, whatever follows. -/
theorem IsValue.readValue?_append {v : List Char} {bs : List UInt8} (h : IsValue v bs)
    (rest : List Char) : readValue? (v ++ rest) = some (bs, rest) := by
  have hmarker {ds : List Char} {base count n : Nat} (hcount : ds.length = count)
      (h : digitsValue? base ds = some n) :
      readDigits? base count (ds ++ rest) = some (n, rest) :=
    readDigits?_eq_some_iff.2 ⟨ds, rfl, hcount, h⟩
  cases h with
  | char hquote hback hbreak => simp [readValue?, hquote, hback, hbreak]
  | @named letter c h =>
    have hletters : ∀ e ∈ namedChars, e.1 ≠ 'x' ∧ e.1 ≠ 'u' ∧ e.1 ≠ 'U' ∧
        namedChars.lookup e.1 = some e.2 := by decide
    obtain ⟨hx, hu, hU, hlookup⟩ := hletters _ h
    simp [readValue?, readEscape?, hx, hu, hU, hlookup]
  | @octal ds n hcount h hbyte =>
    obtain ⟨d, ds, rfl⟩ := List.exists_cons_of_length_eq_add_one hcount
    -- a digit is not the letter of another escape
    have hdigit := isDigit_of_digitsValue? h List.mem_cons_self
    have hne {c : Char} (hc : c.isDigit = false) : d ≠ c := fun hdc => by simp [← hdc, hdigit] at hc
    have hletters : ∀ e ∈ namedChars, e.1.isDigit = false := by decide
    have hlookup : namedChars.lookup d = none :=
      List.lookup_eq_none_iff.2 fun e he => by simpa using hne (hletters e he)
    have hread := hmarker hcount h
    rw [List.cons_append] at hread
    have hx : d ≠ 'x' := hne rfl
    have hu : d ≠ 'u' := hne rfl
    have hU : d ≠ 'U' := hne rfl
    simp [readValue?, readEscape?, hx, hu, hU, hlookup, hread, hbyte]
  | hex hcount h => simp [readValue?, readEscape?, hmarker hcount h]
  | @short ds c hcount h =>
    have hread : readChar? 4 (ds ++ rest) = some (String.utf8EncodeChar c, rest) :=
      readChar?_eq_some_iff.2 ⟨ds, c, rfl, hcount, h, rfl⟩
    simp [readValue?, readEscape?, hread]
  | @long ds c hcount h =>
    have hread : readChar? 8 (ds ++ rest) = some (String.utf8EncodeChar c, rest) :=
      readChar?_eq_some_iff.2 ⟨ds, c, rfl, hcount, h, rfl⟩
    simp [readValue?, readEscape?, hread]

theorem isValue_of_readEscape? {cs rest : List Char} {bs : List UInt8}
    (h : readEscape? cs = some (bs, rest)) : ∃ v, cs = v ++ rest ∧ IsValue ('\\' :: v) bs := by
  cases cs with
  | nil => simp [readEscape?] at h
  | cons c cs =>
    simp only [readEscape?] at h
    split_ifs at h with hx hu hU hnamed
    · subst hx
      obtain ⟨r, hr, hpair⟩ := Option.map_eq_some_iff.1 h
      obtain ⟨rfl, rfl⟩ := Prod.mk.inj hpair
      obtain ⟨ds, hds, hcount, hn⟩ := readDigits?_eq_some_iff.1 hr
      exact ⟨'x' :: ds, by rw [hds, List.cons_append], .hex hcount hn⟩
    · subst hu
      obtain ⟨ds, c, hds, hcount, hn, rfl⟩ := readChar?_eq_some_iff.1 h
      exact ⟨'u' :: ds, by rw [hds, List.cons_append], .short hcount hn⟩
    · subst hU
      obtain ⟨ds, c, hds, hcount, hn, rfl⟩ := readChar?_eq_some_iff.1 h
      exact ⟨'U' :: ds, by rw [hds, List.cons_append], .long hcount hn⟩
    · obtain ⟨d, hd, hpair⟩ := Option.map_eq_some_iff.1 h
      obtain ⟨rfl, rfl⟩ := Prod.mk.inj hpair
      exact ⟨[c], rfl, .named (mem_of_lookup hd)⟩
    · obtain ⟨r, hr, hbyte⟩ := Option.bind_eq_some_iff.1 h
      split_ifs at hbyte with hlt
      obtain ⟨rfl, rfl⟩ := Prod.mk.inj (Option.some.inj hbyte)
      obtain ⟨ds, hds, hcount, hn⟩ := readDigits?_eq_some_iff.1 hr
      exact ⟨ds, hds, .octal hcount hn hlt⟩

theorem IsValue.ne_nil {v : List Char} {bs : List UInt8} (h : IsValue v bs) : v ≠ [] := by
  cases h <;> simp

/-- What is read is a value. -/
theorem isValue_of_readValue? {cs rest : List Char} {bs : List UInt8}
    (h : readValue? cs = some (bs, rest)) : ∃ v, cs = v ++ rest ∧ IsValue v bs := by
  cases cs with
  | nil => simp [readValue?] at h
  | cons c cs =>
    simp only [readValue?] at h
    split_ifs at h with hback hends
    · subst hback
      obtain ⟨v, hv, hvalue⟩ := isValue_of_readEscape? h
      exact ⟨'\\' :: v, by rw [hv, List.cons_append], hvalue⟩
    · obtain ⟨rfl, rfl⟩ := Prod.mk.inj (Option.some.inj h)
      rw [not_or] at hends
      exact ⟨[c], rfl, .char hends.1 hback hends.2⟩

theorem length_lt_of_readValue? {cs rest : List Char} {bs : List UInt8}
    (h : readValue? cs = some (bs, rest)) : rest.length < cs.length := by
  obtain ⟨v, rfl, hv⟩ := isValue_of_readValue? h
  rw [List.length_append]
  have hpos := List.length_pos_iff.2 hv.ne_nil
  omega

/-- The bytes of all values up to the quote that ends the text. -/
def readValues? (cs : List Char) : Option (List UInt8) :=
  if cs = ['"'] then some []
  else
    match _ : readValue? cs with
    | none => none
    | some r => (readValues? r.2).map (r.1 ++ ·)
termination_by cs.length
decreasing_by exact length_lt_of_readValue? ‹_›

/-- The bytes that a literal stands for. -/
def readLiteral? : List Char → Option (List UInt8)
  | [] => none
  | c :: cs => if c = '"' then readValues? cs else none

theorem readValues?_eq_some_iff {cs : List Char} {bs : List UInt8} :
    readValues? cs = some bs ↔ ∃ inside, cs = inside ++ ['"'] ∧ AreValues inside bs := by
  constructor
  · intro h
    fun_induction readValues? cs generalizing bs with
    | case1 =>
      obtain rfl := Option.some.inj h
      exact ⟨[], rfl, .nil⟩
    | case2 => simp at h
    | case3 cs _ r hr ih =>
      obtain ⟨bs', hbs', rfl⟩ := Option.map_eq_some_iff.1 h
      obtain ⟨inside, hinside, hvalues⟩ := ih hbs'
      obtain ⟨v, rfl, hv⟩ := isValue_of_readValue? hr
      exact ⟨v ++ inside, by rw [hinside, List.append_assoc], .cons hv hvalues⟩
  · rintro ⟨inside, rfl, hvalues⟩
    induction hvalues with
    | nil => rw [readValues?, if_pos (by rfl)]
    | @cons v cs bs bs' hv _ ih =>
      have hread := hv.readValue?_append (cs ++ ['"'])
      have hmore : v ++ (cs ++ ['"']) ≠ ['"'] := fun hend => by
        rw [hend] at hread
        simp [readValue?] at hread
      rw [List.append_assoc, readValues?, if_neg hmore]
      split
      · next hnone => simp [hread] at hnone
      · next r hr =>
        rw [hread, Option.some.injEq] at hr
        rw [← hr, ih]
        rfl

/-- Reading decides the grammar, so a literal stands for one text only. -/
theorem readLiteral?_eq_some_iff {cs : List Char} {bs : List UInt8} :
    readLiteral? cs = some bs ↔ IsLiteral cs bs := by
  cases cs with
  | nil => simp [readLiteral?, IsLiteral]
  | cons c cs =>
    simp only [readLiteral?, IsLiteral, List.cons.injEq]
    by_cases hc : c = '"'
    · simp [hc, readValues?_eq_some_iff]
    · simp [hc]

/-! ## Quoted texts -/

/-- Every character is written as one value. -/
theorem isValue_escape (c : Char) : IsValue (escape c) (String.utf8EncodeChar c) := by
  unfold escape
  split_ifs with hquote hback hnewline hreturn htab hcontrol
  · subst hquote
    exact .named (by decide)
  · subst hback
    exact .named (by decide)
  · subst hnewline
    exact .named (by decide)
  · subst hreturn
    exact .named (by decide)
  · subst htab
    exact .named (by decide)
  · have hbound : c.toNat < 16 ^ 4 := by
      simp only [isControl, Bool.or_eq_true, Bool.and_eq_true, decide_eq_true_eq] at hcontrol
      omega
    have hvalue : digitsValue? 16 (hexDigits 4 c.toNat) = some c.toNat := by
      rw [digitsValue?_hexDigits, Nat.mod_eq_of_lt hbound]
    exact .short (length_hexDigits 4 c.toNat) hvalue
  · exact .char hquote hback hnewline

theorem areValues_flatMap_escape (cs : List Char) :
    AreValues (cs.flatMap escape) (cs.flatMap String.utf8EncodeChar) := by
  induction cs with
  | nil => exact .nil
  | cons c cs ih =>
    rw [List.flatMap_cons, List.flatMap_cons]
    exact .cons (isValue_escape c) ih

/-- The literal of a text stands for its bytes. -/
theorem isLiteral_quote (s : String) : IsLiteral (quote s).toList (utf8 s) :=
  ⟨_, toList_quote s, areValues_flatMap_escape s.toList⟩

/-- The text that a literal stands for, if its bytes are one. -/
def readText? (cs : List Char) : Option String :=
  (readLiteral? cs).bind fun bs => String.fromUTF8? bs.toByteArray

theorem readText?_quote (s : String) : readText? (quote s).toList = some s := by
  have hbytes : (utf8 s).toByteArray = s.toByteArray := by
    conv_rhs => rw [← String.ofList_toList (s := s)]
    rfl
  rw [readText?, readLiteral?_eq_some_iff.2 (isLiteral_quote s), Option.bind_some, hbytes,
    String.fromUTF8?, dif_pos s.isValidUTF8]
  rfl

/-- Two texts have two literals. -/
theorem quote_injective : Function.Injective quote := by
  intro s t h
  have hread := readText?_quote s
  rw [h, readText?_quote] at hread
  exact (Option.some.inj hread).symm

/-- No character of a literal is a control character. -/
theorem not_isControl_of_mem_quote {s : String} {c : Char} (h : c ∈ (quote s).toList) :
    isControl c = false := by
  have hhex {count n : Nat} (hc : c ∈ hexDigits count n) : isControl c = false := by
    induction count generalizing n with
    | zero => simp [hexDigits] at hc
    | succ count ih =>
      have hdigit : ∀ k < 16, isControl (Nat.digitChar k) = false := by decide
      rw [hexDigits, List.mem_append, List.mem_singleton] at hc
      obtain hc | rfl := hc
      · exact ih hc
      · exact hdigit _ (Nat.mod_lt n (by decide))
  have hall (cs : List Char) (hcs : cs.all (!isControl ·) = true) (hc : c ∈ cs) :
      isControl c = false := by simpa using List.all_eq_true.1 hcs c hc
  rw [toList_quote, List.mem_cons, List.mem_append, List.mem_flatMap] at h
  obtain rfl | ⟨d, -, hd⟩ | hend := h
  · decide
  · unfold escape at hd
    split_ifs at hd with hquote hback hnewline hreturn htab hcontrol
    · exact hall _ (by decide) hd
    · exact hall _ (by decide) hd
    · exact hall _ (by decide) hd
    · exact hall _ (by decide) hd
    · exact hall _ (by decide) hd
    · obtain hd | hd := List.mem_append.1 hd
      · exact hall _ (by decide) hd
      · exact hhex hd
    · rw [List.mem_singleton.1 hd]
      exact Bool.eq_false_iff.2 hcontrol
  · exact hall _ (by decide) hend

/-! ## Printed literals -/

theorem mem_indent {l : Line} {ls : List Line} (h : l ∈ ls) (depth : Nat) :
    ∃ d, l.render d ∈ indent depth ls := by
  induction ls generalizing depth with
  | nil => simp at h
  | cons m ls ih =>
    rw [indent]
    obtain rfl | h := List.mem_cons.1 h
    · exact ⟨depth, List.mem_cons_self⟩
    · obtain ⟨d, hd⟩ := ih h (m.depthAfter depth)
      exact ⟨d, List.mem_cons_of_mem _ hd⟩

theorem infix_joinLines {s : String} {ls : List String} (h : s ∈ ls) :
    s.toList <:+: (joinLines ls).toList := by
  obtain ⟨above, below, rfl⟩ := List.append_of_mem h
  rw [toList_joinLines (by simp), List.flatMap_append, List.flatMap_cons]
  exact ((List.prefix_append _ _).trans (List.prefix_append _ _)).isInfix.trans
    (List.suffix_append _ _).isInfix

/-- What is in the text of a line is in the text of the file. -/
theorem File.infix_content {f : File} {l : Line} (hl : l ∈ f.preamble ++ f.body) {cs : List Char}
    (hne : l.text ≠ []) (hcs : cs <:+: l.text) : cs <:+: f.content.toList := by
  obtain ⟨d, hd⟩ : ∃ d, l.render d ∈ f.printed := by
    obtain hl | hl := List.mem_append.1 hl
    · obtain ⟨d, hd⟩ := mem_indent hl 0
      exact ⟨d, List.mem_append_left _ (List.mem_append_left _ hd)⟩
    · obtain ⟨d, hd⟩ := mem_indent hl (depthOf 0 f.preamble)
      exact ⟨d, List.mem_append_right _ hd⟩
  have hprinted : l.text <:+: (l.render d).toList := by
    rw [Line.toList_render hne, Line.shown, ← List.append_assoc]
    exact List.infix_append _ _ _
  have hrender : l.render d ≠ "" := fun hblank => hne <| by
    rw [hblank] at hprinted
    exact List.infix_nil.1 hprinted
  have htidy : l.render d ∈ (tidy f.printed).filter (· ≠ "") := by
    rw [filter_tidy]
    exact List.mem_filter.2 ⟨hd, by simpa using hrender⟩
  exact (hcs.trans hprinted).trans (infix_joinLines (List.mem_filter.1 htidy).1)

/-- What the literal of a text has to be. -/
structure IsLiteralOf (s literal : String) : Prop where
  /-- By the grammar it stands for the bytes of the text. -/
  grammar : IsLiteral literal.toList (utf8 s)
  /-- Reading it gives the text back. -/
  text : readText? literal.toList = some s
  /-- No line break and no other control character is in it. -/
  visible : ∀ c ∈ literal.toList, isControl c = false
  /-- It is not the literal of another text. -/
  only : ∀ t, quote t = literal → t = s
  /-- Trimming leaves it as it is, whatever stands around it. -/
  trimmed : ∀ before after, trim (before ++ literal.toList ++ after) =
    before.dropWhile isBlank ++ literal.toList ++ after.rdropWhile isBlank
  /-- If it is in the code of a line, it is in the text of the file. -/
  printed : ∀ (f : File), ∀ l ∈ f.preamble ++ f.body, literal.toList <:+: l.code.toList →
    literal.toList <:+: f.content.toList

/-- Whatever is in a text, its literal is one that is read as this text and stays as it is. -/
theorem isLiteralOf_quote (s : String) : IsLiteralOf s (quote s) := by
  have hfirst : (quote s).toList.head?.any (!isBlank ·) = true := by
    rw [toList_quote]
    rfl
  have hlast : (quote s).toList.getLast?.any (!isBlank ·) = true := by
    rw [toList_quote, ← List.cons_append, List.getLast?_concat]
    decide
  have htrimmed := trim_around hfirst hlast
  refine ⟨isLiteral_quote s, readText?_quote s, fun c hc => not_isControl_of_mem_quote hc,
    fun t ht => quote_injective ht, htrimmed, fun f l hl hcode => ?_⟩
  obtain ⟨before, after, hcode⟩ := hcode
  have htext : l.text = before.dropWhile isBlank ++ (quote s).toList ++
      after.rdropWhile isBlank := by
    rw [Line.text, ← hcode, htrimmed]
  refine File.infix_content hl (fun hnil => ?_) ⟨_, _, htext.symm⟩
  rw [htext, toList_quote] at hnil
  simp at hnil

end TemporalBindings.Source
