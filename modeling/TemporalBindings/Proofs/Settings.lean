import Mathlib.Data.List.Nodup
import TemporalBindings.Worker.Options

/-!
# TemporalBindings.Proofs.Settings

The settings of a worker as fields that do not get in each other's way. The catalog lists
each of them once, no two of them share a name, and a value that is put under one of them
is read from it and from no other.
-/

namespace TemporalBindings.Worker

/-! ## Names -/

namespace Setting

theorem mem_all (s : Setting) : s ∈ all := by
  cases s <;> decide

theorem nodup_protoNames : (all.map protoName).Nodup := by
  decide +kernel

theorem nodup_names : (all.map name).Nodup := by
  decide +kernel

theorem protoName_injective {s s' : Setting} (h : s.protoName = s'.protoName) : s = s' :=
  List.inj_on_of_nodup_map nodup_protoNames s.mem_all s'.mem_all h

theorem name_injective {s s' : Setting} (h : s.name = s'.name) : s = s' :=
  List.inj_on_of_nodup_map nodup_names s.mem_all s'.mem_all h

/-- If names are those of one setting each, a name is looked up as the setting that has it. -/
theorem find?_all_eq_some_iff {f : Setting → String} (hf : ∀ s s', f s = f s' → s = s')
    {name : String} {s : Setting} : all.find? (f · = name) = some s ↔ f s = name := by
  constructor
  · intro h
    simpa using List.find?_some h
  · rintro rfl
    cases h : all.find? (f · = f s) with
    | none => simpa using List.find?_eq_none.1 h s s.mem_all
    | some s' =>
      have hname : f s' = f s := by simpa using List.find?_some h
      rw [hf _ _ hname]

theorem ofProtoName?_eq_some_iff {name : String} {s : Setting} :
    ofProtoName? name = some s ↔ s.protoName = name :=
  find?_all_eq_some_iff fun _ _ => protoName_injective

theorem ofProtoName?_eq_none_iff {name : String} :
    ofProtoName? name = none ↔ ∀ s : Setting, s.protoName ≠ name := by
  simp only [Option.eq_none_iff_forall_ne_some, ne_eq, ofProtoName?_eq_some_iff]

end Setting

/-! ## Values -/

namespace Options

variable (o : Options) {s s' : Setting}

/-- Without anything put under it a setting is zero. -/
theorem isZero_get_default (s : Setting) : (({} : Options).get s).isZero = true := by
  cases s <;> rfl

theorem get_set_self {v : OptionValue} (h : v.kind = s.kind) : (o.set s v).get s = v := by
  cases s <;> cases v <;> first | rfl | cases h

-- one case per pair of fields: what is read is another field of the record
theorem get_set_of_ne (h : s' ≠ s) (v : OptionValue) : (o.set s v).get s' = o.get s' := by
  cases s <;> cases s' <;> first | rfl | exact absurd rfl h

/-- A setting is listed with its value iff that is not zero. -/
theorem mem_nonZero {o : Options} {v : OptionValue} :
    (s, v) ∈ o.nonZero ↔ o.get s = v ∧ v.isZero = false := by
  simp only [nonZero, List.mem_filter, List.mem_map, Prod.mk.injEq, Bool.not_eq_true']
  constructor
  · rintro ⟨⟨_, -, rfl, hv⟩, hzero⟩
    exact ⟨hv, hzero⟩
  · rintro ⟨hv, hzero⟩
    exact ⟨⟨s, s.mem_all, rfl, hv⟩, hzero⟩

/-- The settings that are listed are in the order of the catalog. -/
theorem map_fst_nonZero_sublist (o : Options) : (o.nonZero.map Prod.fst).Sublist Setting.all := by
  have h := (List.filter_sublist (p := fun e : Setting × OptionValue => !e.2.isZero)
    (l := Setting.all.map fun s => (s, o.get s))).map Prod.fst
  simpa [nonZero, Function.comp_def] using h

/-- The settings are listed in the order of the catalog. -/
theorem nonZero_eq_filterMap (o : Options) :
    o.nonZero = Setting.all.filterMap fun s =>
      if (o.get s).isZero then none else some (s, o.get s) := by
  rw [nonZero, List.filter_map, ← List.filterMap_eq_map, List.filterMap_filter]
  refine List.filterMap_congr fun s _ => ?_
  cases h : (o.get s).isZero <;> simp [h]

end Options

end TemporalBindings.Worker
