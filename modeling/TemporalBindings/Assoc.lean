/-!
# TemporalBindings.Assoc

Finite maps as lists of pairs in ascending order of their keys. `put` keeps the
order; `List.lookup` reads.
-/

namespace TemporalBindings

variable {κ α : Type}

/-- The map with `value` under `key`. -/
def put [LT κ] [DecidableLT κ] [DecidableEq κ] (key : κ) (value : α) :
    List (κ × α) → List (κ × α)
  | [] => [(key, value)]
  | (k, v) :: rest =>
    if key = k then (key, value) :: rest
    else if key < k then (key, value) :: (k, v) :: rest
    else (k, v) :: put key value rest

theorem lookup_put_self [LT κ] [DecidableLT κ] [DecidableEq κ] (key : κ) (value : α)
    (entries : List (κ × α)) : (put key value entries).lookup key = some value := by
  induction entries with
  | nil => simp [put]
  | cons e rest ih =>
    obtain ⟨k', v'⟩ := e
    unfold put
    split
    · simp
    · split
      · simp
      · rename_i h _
        simp [List.lookup_cons, beq_eq_false_iff_ne.2 h, ih]

theorem lookup_put_of_ne [LT κ] [DecidableLT κ] [DecidableEq κ] {key k : κ} (h : k ≠ key)
    (value : α) (entries : List (κ × α)) :
    (put key value entries).lookup k = entries.lookup k := by
  induction entries with
  | nil => simp [put, List.lookup_cons, beq_eq_false_iff_ne.2 h]
  | cons e rest ih =>
    obtain ⟨k', v'⟩ := e
    unfold put
    split
    · rename_i hk
      subst hk
      simp [List.lookup_cons, beq_eq_false_iff_ne.2 h]
    · split
      · simp [List.lookup_cons, beq_eq_false_iff_ne.2 h]
      · simp [List.lookup_cons, ih]

end TemporalBindings
