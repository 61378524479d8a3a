import Mathlib.Data.List.Perm.Basic
import TemporalBindings.Proofs.Settings

/-!
# TemporalBindings.Proofs.Independence

Every setting is a field of its own. Reading and writing it obey the laws of a field, and two
settings do not get in each other's way:

```
get (set o s v) s    v, or the zero of the kind of s if v is of another kind
get (set o s v) s'   get o s'
set o s (get o s)    o
set after set        the order does not matter
```

So options are known by what is read from their settings, and whoever has the settings that
are not zero, in whatever order, has the options. Only the sign of a zero is lost on that way.
-/

namespace TemporalBindings.Number.Double

/-! ## Zeros -/

/-- Zero with the sign bit. -/
def negativeZero : Double :=
  ⟨0x8000000000000000⟩

/-- The double, but positive zero for negative zero. -/
def withPositiveZero (d : Double) : Double :=
  if d = negativeZero then zero else d

/-- There are two zeros. -/
theorem isZero_iff {d : Double} : d.isZero = true ↔ d = zero ∨ d = negativeZero := by
  constructor
  · intro h
    have hone : (1 <<< 52 : Nat) = 2 ^ 52 := rfl
    simp only [isZero, exponentField, fraction, Nat.shiftRight_eq_div_pow, hone, Bool.and_eq_true,
      decide_eq_true_eq] at h
    have hlt := d.bits.toNat_lt
    have hbits : d.bits.toNat = 0 ∨ d.bits.toNat = 0x8000000000000000 := by omega
    obtain ⟨bits⟩ := d
    exact hbits.imp (fun h => congrArg Double.mk (UInt64.toNat_inj.1 h)) fun h =>
      congrArg Double.mk (UInt64.toNat_inj.1 h)
  · rintro (rfl | rfl) <;> decide

theorem withPositiveZero_of_isZero {d : Double} (h : d.isZero = true) :
    d.withPositiveZero = zero := by
  obtain rfl | rfl := isZero_iff.1 h <;> decide

theorem withPositiveZero_of_not_isZero {d : Double} (h : d.isZero = false) :
    d.withPositiveZero = d := by
  refine if_neg fun hzero => ?_
  rw [isZero_iff.2 (.inr hzero)] at h
  cases h

end TemporalBindings.Number.Double

namespace TemporalBindings.Worker

open Number

/-! ## Values -/

namespace OptionValue

/-- The value, but positive zero for negative zero. -/
def withPositiveZero : OptionValue → OptionValue
  | .float d => .float d.withPositiveZero
  | v => v

theorem withPositiveZero_of_isZero {v : OptionValue} (h : v.isZero = true) :
    v.withPositiveZero = v.kind.zero := by
  cases v with
  | bool b => simp_all [isZero, withPositiveZero, kind, Kind.zero]
  | int n => simp_all [isZero, withPositiveZero, kind, Kind.zero]
  | float d => exact congrArg OptionValue.float (Double.withPositiveZero_of_isZero h)
  | string s => simp_all [isZero, withPositiveZero, kind, Kind.zero]
  | duration d => simp_all [isZero, withPositiveZero, kind, Kind.zero]

theorem withPositiveZero_of_not_isZero {v : OptionValue} (h : v.isZero = false) :
    v.withPositiveZero = v := by
  cases v with
  | float d => exact congrArg OptionValue.float (Double.withPositiveZero_of_not_isZero h)
  | _ => rfl

end OptionValue

/-! ## One setting -/

namespace Options

variable (o : Options) {s s' : Setting}

theorem get_default (s : Setting) : ({} : Options).get s = s.kind.zero := by
  cases s <;> rfl

theorem kind_get (s : Setting) : (o.get s).kind = s.kind := by
  cases s <;> rfl

/-- What is read after a write: the value, if the setting is for values of its kind. -/
theorem get_set (s : Setting) (v : OptionValue) :
    (o.set s v).get s = if v.kind = s.kind then v else s.kind.zero := by
  split
  · next h => exact get_set_self o h
  · next h => cases s <;> cases v <;> first | rfl | exact absurd rfl h

/-- Options are known by what is read from their settings. -/
theorem ext_get {o o' : Options} (h : ∀ s, o.get s = o'.get s) : o = o' := by
  obtain ⟨⟩ := o
  obtain ⟨⟩ := o'
  rw [Options.mk.injEq]
  exact ⟨OptionValue.int.inj (h .maxConcurrentActivityExecutionSize),
    OptionValue.float.inj (h .workerActivitiesPerSecond),
    OptionValue.int.inj (h .maxConcurrentLocalActivityExecutionSize),
    OptionValue.float.inj (h .workerLocalActivitiesPerSecond),
    OptionValue.float.inj (h .taskQueueActivitiesPerSecond),
    OptionValue.int.inj (h .maxConcurrentActivityTaskPollers),
    OptionValue.int.inj (h .maxConcurrentWorkflowTaskExecutionSize),
    OptionValue.int.inj (h .maxConcurrentWorkflowTaskPollers),
    OptionValue.bool.inj (h .enableLoggingInReplay),
    OptionValue.duration.inj (h .stickyScheduleToStartTimeout),
    OptionValue.duration.inj (h .workerStopTimeout),
    OptionValue.bool.inj (h .enableSessionWorker),
    OptionValue.int.inj (h .maxConcurrentSessionExecutionSize),
    OptionValue.bool.inj (h .disableWorkflowWorker),
    OptionValue.bool.inj (h .localActivityWorkerOnly),
    OptionValue.string.inj (h .identity),
    OptionValue.duration.inj (h .deadlockDetectionTimeout),
    OptionValue.duration.inj (h .maxHeartbeatThrottleInterval),
    OptionValue.duration.inj (h .defaultHeartbeatThrottleInterval),
    OptionValue.bool.inj (h .disableEagerActivities),
    OptionValue.int.inj (h .maxConcurrentEagerActivityExecutionSize),
    OptionValue.bool.inj (h .disableRegistrationAliasing),
    OptionValue.string.inj (h .buildId),
    OptionValue.bool.inj (h .useBuildIdForVersioning)⟩

theorem set_get (s : Setting) : o.set s (o.get s) = o := by
  refine ext_get fun t => ?_
  by_cases ht : t = s
  · rw [ht, get_set_self o (o.kind_get s)]
  · rw [get_set_of_ne o ht]

/-! ## Several settings -/

theorem set_comm (h : s ≠ s') (v w : OptionValue) :
    (o.set s v).set s' w = (o.set s' w).set s v := by
  refine ext_get fun t => ?_
  by_cases ht : t = s
  · rw [ht, get_set_of_ne _ h, get_set, get_set]
  · by_cases ht' : t = s'
    · rw [ht', get_set, get_set_of_ne _ h.symm, get_set]
    · rw [get_set_of_ne _ ht', get_set_of_ne _ ht, get_set_of_ne _ ht, get_set_of_ne _ ht']

/-- The options after values have been put under settings, one after the other. -/
def setAll (o : Options) (entries : List (Setting × OptionValue)) : Options :=
  entries.foldl (fun o e => o.set e.1 e.2) o

@[simp] theorem setAll_nil : o.setAll [] = o := rfl

@[simp] theorem setAll_cons (e : Setting × OptionValue) (es : List (Setting × OptionValue)) :
    o.setAll (e :: es) = (o.set e.1 e.2).setAll es := rfl

/-- A setting that nothing is put under stays as it is. -/
theorem get_setAll_of_notMem {es : List (Setting × OptionValue)} (h : s ∉ es.map Prod.fst) :
    (o.setAll es).get s = o.get s := by
  induction es generalizing o with
  | nil => rfl
  | cons e es ih =>
    rw [List.map_cons, List.mem_cons, not_or] at h
    rw [setAll_cons, ih _ h.2, get_set_of_ne o h.1]

/-- A setting has what is put under it, if that happens once. -/
theorem get_setAll_of_mem {es : List (Setting × OptionValue)} {v : OptionValue}
    (hdistinct : (es.map Prod.fst).Nodup) (h : (s, v) ∈ es) (hkind : v.kind = s.kind) :
    (o.setAll es).get s = v := by
  induction es generalizing o with
  | nil => simp at h
  | cons e es ih =>
    obtain ⟨hnew, hothers⟩ := List.nodup_cons.1 hdistinct
    obtain rfl | h := List.mem_cons.1 h
    · rw [setAll_cons, get_setAll_of_notMem _ hnew, get_set_self o hkind]
    · exact ih _ hothers h

/-! ## The settings that are not zero -/

theorem nodup_nonZero : (o.nonZero.map Prod.fst).Nodup :=
  o.map_fst_nonZero_sublist.nodup (List.Nodup.of_map Setting.name Setting.nodup_names)

/-- The options, but positive zeros for negative ones. -/
def withPositiveZeros (o : Options) : Options :=
  { o with
    workerActivitiesPerSecond := o.workerActivitiesPerSecond.withPositiveZero
    workerLocalActivitiesPerSecond := o.workerLocalActivitiesPerSecond.withPositiveZero
    taskQueueActivitiesPerSecond := o.taskQueueActivitiesPerSecond.withPositiveZero }

theorem get_withPositiveZeros (s : Setting) :
    o.withPositiveZeros.get s = (o.get s).withPositiveZero := by
  cases s <;> rfl

/-- The options are made again from their settings that are not zero, in any order. -/
theorem setAll_nonZero {es : List (Setting × OptionValue)} (h : es.Perm o.nonZero) :
    ({} : Options).setAll es = o.withPositiveZeros := by
  have hdistinct : (es.map Prod.fst).Nodup := (h.map Prod.fst).nodup_iff.2 o.nodup_nonZero
  refine ext_get fun s => ?_
  rw [get_withPositiveZeros]
  cases hzero : (o.get s).isZero with
  | true =>
    have hs : s ∉ es.map Prod.fst := fun hs => by
      obtain ⟨⟨_, v⟩, he, rfl⟩ := List.mem_map.1 hs
      obtain ⟨rfl, hv⟩ := mem_nonZero.1 (h.mem_iff.1 he)
      rw [hzero] at hv
      cases hv
    rw [get_setAll_of_notMem _ hs, get_default, OptionValue.withPositiveZero_of_isZero hzero,
      kind_get]
  | false =>
    have hmem : (s, o.get s) ∈ es := h.mem_iff.2 (mem_nonZero.2 ⟨rfl, hzero⟩)
    rw [get_setAll_of_mem _ hdistinct hmem (o.kind_get s),
      OptionValue.withPositiveZero_of_not_isZero hzero]

end Options

/-! ## Settings as fields -/

/-- What makes the settings the fields of options. -/
structure HasFields (o : Options) : Prop where
  /-- The catalog has each setting once. -/
  catalog : Setting.all.length = 24 ∧ Setting.all.Nodup ∧ ∀ s, s ∈ Setting.all
  /-- The kind of a setting is that of its value where nothing has been put under it. -/
  kind : ∀ s, (({} : Options).get s).kind = s.kind
  /-- A value is read back, a value of another kind as the zero of the right one. -/
  read : ∀ s v, (o.set s v).get s = if v.kind = s.kind then v else s.kind.zero
  /-- No other setting is touched. -/
  frame : ∀ s s' v, s ≠ s' → (o.set s v).get s' = o.get s'
  /-- What is there can be put there. -/
  same : ∀ s, o.set s (o.get s) = o
  /-- Two settings can be written in either order. -/
  order : ∀ s s' v w, s ≠ s' → (o.set s v).set s' w = (o.set s' w).set s v
  /-- No other options read the same. -/
  only : ∀ o' : Options, (∀ s, o'.get s = o.get s) → o' = o
  /-- The settings that are not zero give the options, but for the sign of a zero. -/
  nonZero : ∀ es : List (Setting × OptionValue), es.Perm o.nonZero →
    ({} : Options).setAll es = o.withPositiveZeros

theorem hasFields (o : Options) : HasFields o where
  catalog := ⟨rfl, List.Nodup.of_map Setting.name Setting.nodup_names, Setting.mem_all⟩
  kind := Options.kind_get {}
  read := o.get_set
  frame := fun _ _ v h => Options.get_set_of_ne o h.symm v
  same := o.set_get
  order := fun _ _ v w h => o.set_comm h v w
  only := fun _ h => Options.ext_get h
  nonZero := fun _ h => o.setAll_nonZero h

end TemporalBindings.Worker
