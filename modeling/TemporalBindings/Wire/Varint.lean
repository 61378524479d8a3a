/-!
# TemporalBindings.Wire.Varint

Base-128 varints. A number below `2 ^ 64` is written in groups of seven bits, the
least significant first; every byte but the last has its high bit set.

The reader takes at most ten bytes. Nine of them carry 63 bits, so a tenth may
only be 0 or 1. Longer forms of a number than the written one are accepted.
-/

namespace TemporalBindings.Wire

namespace Varint

/-! ## Writing -/

/-- The groups of `v`, when at most `groups` of them have another one after them. -/
def writeGroups : Nat → Nat → List UInt8
  | 0, v => [UInt8.ofNat v]
  | groups + 1, v =>
    if v < 128 then [UInt8.ofNat v]
    else UInt8.ofNat (v % 128 + 128) :: writeGroups groups (v / 128)

/-- The shortest form of a number. -/
def write (v : UInt64) : List UInt8 :=
  writeGroups 9 v.toNat

/-! ## Reading -/

/-- Reads groups, at most `groups` of which have another one after them. -/
def readGroups : Nat → List UInt8 → Option (Nat × List UInt8)
  | _, [] => none
  | 0, b :: rest => if b < 2 then some (b.toNat, rest) else none
  | groups + 1, b :: rest =>
    if b < 128 then some (b.toNat, rest)
    else (readGroups groups rest).map fun (v, rest) => (b.toNat - 128 + 128 * v, rest)

/-- Reads a number and returns it with the bytes behind it. -/
def read (bytes : List UInt8) : Option (UInt64 × List UInt8) :=
  (readGroups 9 bytes).map fun (v, rest) => (UInt64.ofNat v, rest)

/-! ## Reading back -/

theorem readGroups_writeGroups_append (groups v : Nat) (rest : List UInt8)
    (h : v < 2 * Nat.pow 128 groups) :
    readGroups groups (writeGroups groups v ++ rest) = some (v, rest) := by
  induction groups generalizing v with
  | zero =>
    have hv : v < 2 := by simpa using h
    have : v = 0 ∨ v = 1 := by omega
    rcases this with rfl | rfl <;> rfl
  | succ groups ih =>
    by_cases hv : v < 128
    · have h8 : UInt8.ofNat v < 128 := by
        rw [UInt8.lt_iff_toNat_lt, UInt8.toNat_ofNat']
        simpa [Nat.mod_eq_of_lt (show v < 256 by omega)] using hv
      simp only [writeGroups, if_pos hv, List.singleton_append, readGroups, if_pos h8]
      rw [UInt8.toNat_ofNat', Nat.mod_eq_of_lt (by omega)]
    · have h8 : ¬ UInt8.ofNat (v % 128 + 128) < 128 := by
        rw [UInt8.lt_iff_toNat_lt, UInt8.toNat_ofNat', Nat.mod_eq_of_lt (by omega)]
        simp
      have hlt : v / 128 < 2 * Nat.pow 128 groups := by
        rw [Nat.div_lt_iff_lt_mul (by decide)]
        have hpow : Nat.pow 128 (groups + 1) = Nat.pow 128 groups * 128 := rfl
        omega
      simp only [writeGroups, if_neg hv, List.cons_append, readGroups, if_neg h8, ih _ hlt,
        Option.map_some, Option.some.injEq, Prod.mk.injEq, and_true]
      rw [UInt8.toNat_ofNat', Nat.mod_eq_of_lt (by omega)]
      omega

theorem read_write_append (v : UInt64) (rest : List UInt8) :
    read (write v ++ rest) = some (v, rest) := by
  have h : v.toNat < 2 * Nat.pow 128 9 := Nat.lt_of_lt_of_le v.toNat_lt (by decide)
  simp [read, write, readGroups_writeGroups_append 9 _ rest h]

end Varint

end TemporalBindings.Wire
