import TemporalBindings.Bindings.Output
import TemporalBindings.Proofs.Unique

/-!
# TemporalBindings.Proofs.Interface

The methods that a client's interface lists. It lists every method of its service
under its bare name, while files are accepted by the names of helpers, which carry the
verbs of a method's role:

```
workflow   StartWorkflow..., ExecuteWorkflow..., StartChildWorkflow..., ExecuteChildWorkflow...
activity   StartActivity..., ExecuteActivity..., StartLocalActivity..., ExecuteLocalActivity...
```

So acceptance tells methods of one role apart, but not a workflow from an activity.
-/

namespace TemporalBindings.Bindings

open Source

/-- The names of the methods that a declared interface lists. -/
def listedMethods : Decl → List String
  | .interface _ _ _ members => members.map (·.signature.name)
  | _ => []

theorem listedMethods_interface (s : Service) (sdk : Sdk) :
    listedMethods (s.interface sdk) = s.methods.map (·.name) := by
  simp [Service.interface, listedMethods, Method.member, Function.comp_def]

/-- Methods of one role and one name have their helpers in common. -/
theorem Service.helperNames_congr (s : Service) {m m' : Method} (hrole : m.role = m'.role)
    (hname : m.name = m'.name) : s.helperNames m = s.helperNames m' := by
  rw [helperNames, helperNames, hrole, hname]

theorem Service.helperNames_ne_nil (s : Service) (m : Method) : s.helperNames m ≠ [] := by
  unfold helperNames
  cases m.role <;> simp [Role.verbs, Role.targets]

/-- If a service declares no name twice, its methods of one role have different names. -/
theorem Service.pairwise_of_nodup_declarations {s : Service} (h : s.declarations.Nodup) :
    s.methods.Pairwise fun m m' => m.role = m'.role → m.name ≠ m'.name := by
  have hhelpers : (s.methods.flatMap s.helperNames).Nodup := (List.nodup_append.1 h).2.1
  refine (List.nodup_flatMap.1 hhelpers).2.imp fun {m m'} hdisjoint hrole hname => ?_
  obtain ⟨helper, rest, hhelper⟩ := List.exists_cons_of_ne_nil (s.helperNames_ne_nil m)
  have hmem : helper ∈ s.helperNames m := by simp [hhelper]
  exact hdisjoint hmem (s.helperNames_congr hrole hname ▸ hmem)

/-- The services of accepted files declare no name twice. -/
theorem nodup_service_declarations {files : List File} (h : checkUnique files = .ok ())
    {f : File} (hf : f ∈ files) {s : Service} (hs : s ∈ f.services) : s.declarations.Nodup := by
  have hchosen : [f].Sublist files := List.singleton_sublist.2 hf
  have hfile := nodup_declarations h hchosen f.package.path (by simp)
  rw [List.flatMap_singleton, File.declarations, List.nodup_flatMap] at hfile
  exact hfile.1 s hs

/-- The interface of a service in accepted files lists its methods without repetition
exactly if no workflow has the name of an activity. -/
theorem nodup_listedMethods_iff {files : List File} (h : checkUnique files = .ok ())
    {f : File} (hf : f ∈ files) {s : Service} (hs : s ∈ f.services) (sdk : Sdk) :
    (listedMethods (s.interface sdk)).Nodup ↔
      ∀ m ∈ s.methods, ∀ m' ∈ s.methods, m.role = .workflow → m'.role = .activity →
        m.name ≠ m'.name := by
  have hsame := Service.pairwise_of_nodup_declarations (nodup_service_declarations h hf hs)
  rw [listedMethods_interface]
  constructor
  · intro hnodup m hm m' hm' hworkflow hactivity hname
    have heq : m = m' := List.inj_on_of_nodup_map hnodup hm hm' hname
    rw [heq, hactivity] at hworkflow
    cases hworkflow
  · intro hroles
    refine List.pairwise_map.2 ?_
    refine List.Pairwise.imp_of_mem (fun {m m'} hm hm' hne hname => ?_) hsame
    cases hrole : m.role <;> cases hrole' : m'.role
    · exact hne (hrole.trans hrole'.symm) hname
    · exact hroles m hm m' hm' hrole hrole' hname
    · exact hroles m' hm' m hm hrole' hrole hname.symm
    · exact hne (hrole.trans hrole'.symm) hname

/-- A file with a workflow and an activity of one name. The descriptor can have both, as
`Bar` and as `bar`. -/
def sharedNameFile : File where
  path := "foo.proto"
  deprecated := false
  package := ⟨"example.com/foo", "foo"⟩
  stem := "foo"
  syntaxComments := {}
  packageComments := {}
  services :=
    [{ fullName := "foo.Foo"
       name := "Foo"
       deprecated := false
       comments := {}
       worker := none
       methods :=
        [{ name := "Bar"
           input := ⟨"In", ⟨"example.com/foo", "foo"⟩⟩
           output := ⟨"Out", ⟨"example.com/foo", "foo"⟩⟩
           role := .workflow
           deprecated := false
           comments := {} },
         { name := "Bar"
           input := ⟨"In", ⟨"example.com/foo", "foo"⟩⟩
           output := ⟨"Out", ⟨"example.com/foo", "foo"⟩⟩
           role := .activity
           deprecated := false
           comments := {} }] }]

/-- It is accepted, and the interface of its client lists a method twice. -/
theorem not_nodup_listedMethods_sharedNameFile :
    checkUnique [sharedNameFile] = .ok () ∧
      ∀ s ∈ sharedNameFile.services, ¬ (listedMethods (s.interface {})).Nodup := by
  have haccepted : checkUnique [sharedNameFile] = .ok () := by decide +kernel
  refine ⟨haccepted, fun s hs hnodup => ?_⟩
  have hroles := (nodup_listedMethods_iff haccepted List.mem_cons_self hs {}).1 hnodup
  obtain rfl := List.mem_singleton.1 hs
  exact hroles _ List.mem_cons_self _ (List.mem_cons_of_mem _ List.mem_cons_self) rfl rfl rfl

end TemporalBindings.Bindings
