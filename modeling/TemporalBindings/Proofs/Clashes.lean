import Mathlib.Data.List.Nodup
import TemporalBindings.Bindings.Declaration

/-!
# TemporalBindings.Proofs.Clashes

Which of the names that services declare can be equal. A service `S` declares

```
StartWorkerS   STemporalClient   sTemporalClient   NewSTemporalClient   <verb>SM
```

with a helper for each verb of each of its methods `M`. No verb is a front of another one, nor
is `StartWorker` a front of a verb, so that a helper's name tells its verb. What stands in front of
`S` in a name has a letter that is not in `TemporalClient`, so that no such name is
`STemporalClient`, whatever `S` is: the two would have different numbers of that letter. The
other pairs differ in their first letter. What is left are helpers of two methods, and these are
equal only if role and name of the methods are.
-/

namespace TemporalBindings.Bindings

open Text

/-! ## Verbs -/

theorem Mode.name_append_inj {m m' : Mode} {s s' : String} :
    m.name ++ s = m'.name ++ s' ↔ m = m' ∧ s = s' := by
  constructor
  · intro h
    cases m <;> cases m' <;> simp [Mode.name, ← String.toList_inj] at h ⊢ <;> exact h
  · rintro ⟨rfl, rfl⟩
    rfl

theorem Target.name_append_inj {t t' : Target} {s s' : String} :
    t.name ++ s = t'.name ++ s' ↔ t = t' ∧ s = s' := by
  constructor
  · intro h
    cases t <;> cases t' <;> simp [Target.name, ← String.toList_inj] at h ⊢ <;> exact h
  · rintro ⟨rfl, rfl⟩
    rfl

/-- A text tells with which verb it begins, and what comes behind it. -/
theorem Verb.name_append_inj {v v' : Verb} {s s' : String} :
    v.name ++ s = v'.name ++ s' ↔ v = v' ∧ s = s' := by
  obtain ⟨m, t⟩ := v
  obtain ⟨m', t'⟩ := v'
  rw [Verb.name, Verb.name, String.append_assoc, String.append_assoc, Mode.name_append_inj,
    Target.name_append_inj, Verb.mk.injEq, and_assoc]

theorem Verb.helperName_inj {v v' : Verb} {service service' method method' : String} :
    v.helperName service method = v'.helperName service' method' ↔
      v = v' ∧ service ++ method = service' ++ method' := by
  rw [Verb.helperName, Verb.helperName, String.append_assoc, String.append_assoc,
    Verb.name_append_inj]

/-- No verb begins with what the function that starts a worker begins with, nor the other way
round. -/
theorem startWorker_append_ne (v : Verb) (s s' : String) : "StartWorker" ++ s ≠ v.name ++ s' := by
  intro h
  have hstart : "StartWorker" ++ s = Mode.start.name ++ ("Worker" ++ s) := by
    simp [Mode.name, ← String.toList_inj]
  rw [hstart, Verb.name, String.append_assoc, Mode.name_append_inj] at h
  cases ht : v.target <;> simp [ht, Target.name, ← String.toList_inj] at h

/-- A role is told by any of its verbs. -/
theorem Role.eq_of_mem_verbs {r r' : Role} {v : Verb} (h : v ∈ r.verbs) (h' : v ∈ r'.verbs) :
    r = r' := by
  revert v
  cases r <;> cases r' <;> simp [Role.verbs, Role.targets]

theorem Role.nodup_verbs (r : Role) : r.verbs.Nodup := by
  cases r <;> decide

/-! ## The names of one service -/

/-- What is put in front of a text and has a character that the text does not get behind it makes a
different text, whatever else comes behind it. -/
theorem append_ne_append_of_mem (c : Char) {front behind : String} (hfront : c ∈ front.toList)
    (hbehind : c ∉ behind.toList) (s t : String) : front ++ s ++ t ≠ s ++ behind := by
  intro h
  have hcount := congrArg (fun text => text.toList.count c) h
  have hpos : 0 < front.toList.count c := List.count_pos_iff.2 hfront
  simp only [String.toList_append, List.count_append, List.count_eq_zero_of_not_mem hbehind]
    at hcount
  omega

/-- Whether a name begins with an ASCII upper-case letter. -/
def startsUpper (name : String) : Bool :=
  name.toList.head?.any Char.isUpper

theorem startsUpper_append (name s : String) (h : startsUpper name = true) :
    startsUpper (name ++ s) = true := by
  unfold startsUpper at h ⊢
  rw [String.toList_append]
  cases hname : name.toList with
  | nil => simp [hname] at h
  | cons c cs => simpa [hname] using h

/-- The lower-case form of an ASCII upper-case letter is one letter, and that is no such. -/
theorem exists_lowerCase_of_isUpper {c : Char} (h : c.isUpper = true) :
    ∃ d, lowerCase c = [d] ∧ d.isUpper = false := by
  have hrange : 65 ≤ c.toNat ∧ c.toNat ≤ 90 := by
    have hbounds : 'A'.val ≤ c.val ∧ c.val ≤ 'Z'.val := of_decide_eq_true h
    exact hbounds.imp UInt32.le_iff_toNat_le.1 UInt32.le_iff_toNat_le.1
  have hdotted : c ≠ 'İ' := by
    rintro rfl
    exact absurd hrange.2 (by decide)
  have hrun : caseRuns.find? (·.has c.toNat) = some ⟨0x41, 0x5A, 1, 0x61⟩ := by
    refine List.find?_cons_of_pos ?_
    simp only [CaseRun.has, Bool.and_eq_true, decide_eq_true_eq, Nat.mod_one, beq_self_eq_true,
      and_true]
    exact hrange
  refine ⟨Char.ofNat (0x61 + (c.toNat - 0x41)), by simp [lowerCase, hdotted, hrun], ?_⟩
  obtain ⟨k, hk, hc⟩ : ∃ k < 26, c.toNat = 0x41 + k := ⟨c.toNat - 0x41, by omega, by omega⟩
  rw [hc, Nat.add_sub_cancel_left]
  clear h hrange hdotted hrun hc
  decide +revert

namespace Service

variable {s : Service}

theorem startsUpper_workerName : startsUpper s.workerName = true :=
  startsUpper_append "StartWorker" _ (by decide)

theorem startsUpper_interfaceName (h : startsUpper s.name = true) :
    startsUpper s.interfaceName = true :=
  startsUpper_append _ _ h

theorem startsUpper_constructorName : startsUpper s.constructorName = true :=
  startsUpper_append "New" _ (by decide)

theorem startsUpper_helperName (v : Verb) (service method : String) :
    startsUpper (v.helperName service method) = true := by
  rw [Verb.helperName, Verb.name, String.append_assoc, String.append_assoc]
  cases v.mode with
  | start => exact startsUpper_append "Start" _ (by decide)
  | execute => exact startsUpper_append "Execute" _ (by decide)

/-- The name of the structure is the only one that is private. -/
theorem startsUpper_structName (h : startsUpper s.name = true) :
    startsUpper s.structName = false := by
  unfold startsUpper at h
  cases hname : s.name.toList with
  | nil => simp [hname] at h
  | cons c cs =>
    obtain ⟨d, hd, hupper⟩ := exists_lowerCase_of_isUpper (by simpa [hname] using h)
    simp [startsUpper, structName, interfaceName, hname, lowerFirst, hd, hupper]

theorem workerName_ne_interfaceName : s.workerName ≠ s.interfaceName := by
  have hfront : 'S' ∈ "StartWorker".toList := by decide
  have hbehind : 'S' ∉ "TemporalClient".toList := by decide
  have hne := append_ne_append_of_mem 'S' hfront hbehind s.name ""
  rwa [String.append_empty] at hne

theorem constructorName_ne_interfaceName : s.constructorName ≠ s.interfaceName := by
  have hfront : 'N' ∈ "New".toList := by decide
  rw [constructorName, interfaceName, ← String.append_assoc]
  exact append_ne_append_of_mem 'N' hfront (by decide) _ _

theorem helperName_ne_interfaceName (v : Verb) (method : String) :
    v.helperName s.name method ≠ s.interfaceName := by
  rw [Verb.helperName, Verb.name]
  cases v.mode with
  | start =>
    have hfront : 'S' ∈ (Mode.start.name ++ v.target.name).toList := by simp [Mode.name]
    exact append_ne_append_of_mem 'S' hfront (by decide) _ _
  | execute =>
    have hfront : 'E' ∈ (Mode.execute.name ++ v.target.name).toList := by simp [Mode.name]
    exact append_ne_append_of_mem 'E' hfront (by decide) _ _

theorem workerName_ne_constructorName : s.workerName ≠ s.constructorName := by
  intro h
  simp [workerName, constructorName, ← String.toList_inj] at h

theorem workerName_ne_helperName (v : Verb) (method : String) :
    s.workerName ≠ v.helperName s.name method := by
  rw [workerName, Verb.helperName, String.append_assoc]
  exact startWorker_append_ne v _ _

theorem constructorName_ne_helperName (v : Verb) (method : String) :
    s.constructorName ≠ v.helperName s.name method := by
  intro h
  obtain ⟨m, t⟩ := v
  cases m <;>
    simp [constructorName, Verb.helperName, Verb.name, Mode.name, ← String.toList_inj] at h

/-! ## Repeated names -/

/-- The names that a service declares for itself, and in any case. -/
def ownNames (s : Service) : List String :=
  [s.workerName, s.interfaceName, s.structName, s.constructorName]

theorem nodup_ownNames (h : startsUpper s.name = true) : s.ownNames.Nodup := by
  have hstruct (name : String) (hname : startsUpper name = true) : name ≠ s.structName := by
    rintro rfl
    rw [startsUpper_structName h] at hname
    cases hname
  simp only [ownNames, List.nodup_cons, List.mem_cons, List.not_mem_nil, or_false, not_or,
    not_false_eq_true, List.nodup_nil, and_true]
  exact ⟨⟨workerName_ne_interfaceName, hstruct _ startsUpper_workerName,
      workerName_ne_constructorName⟩,
    ⟨hstruct _ (startsUpper_interfaceName h), constructorName_ne_interfaceName.symm⟩,
    (hstruct _ startsUpper_constructorName).symm⟩

/-- No helper has a name that the service declares for itself. -/
theorem disjoint_ownNames_helperNames (h : startsUpper s.name = true) (m : Method) :
    s.ownNames.Disjoint (s.helperNames m) := by
  rw [List.disjoint_right]
  intro name hname hown
  obtain ⟨v, -, rfl⟩ := List.mem_map.1 hname
  simp only [ownNames, List.mem_cons, List.not_mem_nil, or_false] at hown
  obtain hown | hown | hown | hown := hown
  · exact workerName_ne_helperName v m.name hown.symm
  · exact helperName_ne_interfaceName v m.name hown
  · have hupper := startsUpper_helperName v s.name m.name
    rw [hown, startsUpper_structName h] at hupper
    cases hupper
  · exact constructorName_ne_helperName v m.name hown.symm

/-- Helpers have different names iff no two methods have one role and one name. -/
theorem nodup_helperNames_iff (s : Service) :
    (s.methods.flatMap s.helperNames).Nodup ↔
      (s.methods.map fun m => (m.role, m.name)).Nodup := by
  have hmethod (m : Method) : (s.helperNames m).Nodup := by
    refine List.Nodup.map (fun v v' hv => (Verb.helperName_inj.1 hv).1) m.role.nodup_verbs
  have hdisjoint (m m' : Method) :
      (s.helperNames m).Disjoint (s.helperNames m') ↔ (m.role, m.name) ≠ (m'.role, m'.name) := by
    constructor
    · intro hdisjoint heq
      obtain ⟨hrole, hname⟩ := Prod.mk.inj heq
      obtain ⟨v, hv⟩ : ∃ v, v ∈ m.role.verbs := by
        cases m.role <;> exact ⟨_, List.mem_cons_self⟩
      have hmem : v.helperName s.name m.name ∈ s.helperNames m := List.mem_map_of_mem hv
      refine hdisjoint hmem ?_
      rw [hname]
      exact List.mem_map_of_mem (hrole ▸ hv)
    · intro hne
      rw [List.disjoint_left]
      intro name hname hname'
      obtain ⟨v, hv, rfl⟩ := List.mem_map.1 hname
      obtain ⟨v', hv', heq⟩ := List.mem_map.1 hname'
      obtain ⟨rfl, happend⟩ := Verb.helperName_inj.1 heq
      refine hne (Prod.ext (Role.eq_of_mem_verbs hv hv') ?_)
      exact ((String.append_right_inj _).1 happend).symm
  rw [List.nodup_flatMap, List.nodup_iff_pairwise_ne, List.pairwise_map]
  exact (and_iff_right fun m _ => hmethod m).trans (List.Pairwise.iff fun m m' => hdisjoint m m')

/-- Among all the names of a service, only those of helpers can be equal. -/
theorem nodup_declarations_iff (h : startsUpper s.name = true) :
    s.declarations.Nodup ↔ (s.methods.map fun m => (m.role, m.name)).Nodup := by
  have hall : (s.ownNames ++ s.methods.flatMap s.helperNames).Nodup ↔
      (s.methods.flatMap s.helperNames).Nodup := by
    have hdisjoint : s.ownNames.Disjoint (s.methods.flatMap s.helperNames) := by
      intro name hown hname
      obtain ⟨m, -, hm⟩ := List.mem_flatMap.1 hname
      exact disjoint_ownNames_helperNames h m hown hm
    simp [List.nodup_append', nodup_ownNames h, hdisjoint]
  have hsublist : s.declarations.Sublist (s.ownNames ++ s.methods.flatMap s.helperNames) := by
    unfold declarations ownNames
    split <;> simp
  have hhelpers : (s.methods.flatMap s.helperNames).Sublist s.declarations :=
    List.sublist_append_right _ _
  rw [← nodup_helperNames_iff]
  exact ⟨fun hnodup => hnodup.sublist hhelpers, fun hnodup => (hall.2 hnodup).sublist hsublist⟩

/-- A service with an exported name declares a name twice iff two of its methods have one role and
one name, with a worker or without. Helpers, of one service or of two, have one name iff they have
one verb and the names of service and method, put together, are the same. -/
theorem not_nodup_declarations_iff (h : startsUpper s.name = true) :
    (¬ s.declarations.Nodup ↔
        ∃ (i j : Nat) (m m' : Method), i < j ∧ s.methods[i]? = some m ∧ s.methods[j]? = some m' ∧
          m.role = m'.role ∧ m.name = m'.name) ∧
      ∀ (v v' : Verb) (service service' method method' : String),
        v.helperName service method = v'.helperName service' method' ↔
          v = v' ∧ service ++ method = service' ++ method' := by
  refine ⟨?_, fun v v' service service' method method' => Verb.helperName_inj⟩
  rw [nodup_declarations_iff h, List.nodup_iff_pairwise_ne, List.pairwise_map,
    List.pairwise_iff_getElem]
  constructor
  · intro hnot
    push Not at hnot
    obtain ⟨i, j, hi, hj, hij, heq⟩ := hnot
    obtain ⟨hrole, hname⟩ := Prod.mk.inj heq
    exact ⟨i, j, _, _, hij, List.getElem?_eq_getElem hi, List.getElem?_eq_getElem hj, hrole, hname⟩
  · rintro ⟨i, j, m, m', hij, hm, hm', hrole, hname⟩ hall
    obtain ⟨hi, rfl⟩ := List.getElem?_eq_some_iff.1 hm
    obtain ⟨hj, rfl⟩ := List.getElem?_eq_some_iff.1 hm'
    exact hall i j hi hj hij (Prod.ext hrole hname)

/-- A service that is named like a verb, with a workflow and two activities of one name. -/
def startWorkflowService : Service :=
  let method (role : Role) : Method :=
    { name := "StartWorkflow", input := ⟨"In", ⟨"example.com/foo", "foo"⟩⟩,
      output := ⟨"Out", ⟨"example.com/foo", "foo"⟩⟩, role, deprecated := false, comments := {} }
  { fullName := "foo.StartWorkflow", name := "StartWorkflow", deprecated := false, comments := {},
    worker := some ⟨"queue", {}⟩,
    methods := [method .workflow, method .activity, method .activity] }

/-- The workflow has names of its own; those of the activities are repeated. -/
theorem not_nodup_declarations_startWorkflowService :
    startsUpper startWorkflowService.name = true ∧ ¬ startWorkflowService.declarations.Nodup := by
  have hupper : startsUpper startWorkflowService.name = true := by decide
  have hclash := (not_nodup_declarations_iff hupper).1
  exact ⟨hupper, hclash.2 ⟨1, 2, _, _, by decide, rfl, rfl, rfl, rfl⟩⟩

end Service

end TemporalBindings.Bindings
