import AtlasOperator.Proofs.Status

namespace AtlasOperator

/-- The resources' names and specs, in the order they were created. -/
abbrev SpecStore := List (NamespacedName × AtlasMigrationSpec)

namespace SpecStore

/-- A step on the spec store: a create adds a name not yet taken, an edit
replaces the spec of its name, a delete removes it, and a pass changes nothing. -/
def step (ss : SpecStore) : Step → SpecStore
  | .reconcile .. => ss
  | .create am =>
    if ss.any (·.1 = am.namespacedName) then ss else ss ++ [(am.namespacedName, am.spec)]
  | .edit req spec => ss.map fun p => if p.1 = req then (p.1, spec) else p
  | .delete req => ss.filter (·.1 ≠ req)

end SpecStore

def System.specs (sys : System) : SpecStore :=
  sys.migrations.map fun a => (a.namespacedName, a.spec)

namespace Proofs

theorem specs_updateStatus (sys : System) (am : AtlasMigration) :
    (sys.updateStatus am).specs = sys.specs := by
  simp only [System.specs, System.updateStatus, List.map_map]
  refine List.map_congr_left fun x _ => ?_
  simp only [Function.comp_apply]
  split <;> rfl

theorem specs_reconcile (lib : Lib) (w : World) (written : Bool) (req : NamespacedName)
    (sys : System) : (Reconcile lib w written req sys).specs = sys.specs := by
  unfold Reconcile
  split
  · rfl
  · cases written
    · rfl
    · exact specs_updateStatus _ _

/-- Each step of the system is the same step on its spec store. -/
theorem specs_step (lib : Lib) (sys : System) (x : Step) :
    (step lib sys x).specs = sys.specs.step x := by
  cases x with
  | reconcile req w written => exact specs_reconcile lib w written req sys
  | create am =>
    have hany : sys.specs.any (·.1 = am.namespacedName) = (sys.get am.namespacedName).isSome := by
      rw [Bool.eq_iff_iff]
      simp [System.specs, System.get, List.any_eq_true, List.find?_isSome]
    simp only [step, SpecStore.step, hany]
    split
    · rfl
    · simp [System.specs, AtlasMigration.namespacedName]
  | edit req spec =>
    simp only [step, SpecStore.step, System.specs, List.map_map]
    refine List.map_congr_left fun x _ => ?_
    by_cases hx : x.namespacedName = req
    · simp only [Function.comp_apply, hx, if_true]
      exact Prod.ext hx rfl
    · simp only [Function.comp_apply, hx, if_false]
  | delete req =>
    simp only [step, SpecStore.step, System.specs, List.filter_map]
    rfl

/-- The stored names and specs after any run are those of the users' steps
alone: no pass creates, removes or renames a resource or changes its spec. -/
theorem run_specs (lib : Lib) (sys : System) (steps : List Step) :
    (run lib sys steps).specs = steps.foldl SpecStore.step sys.specs := by
  induction steps using List.reverseRecOn with
  | nil => rfl
  | append_singleton steps x ih => rw [run_append, specs_step, ih, List.foldl_append]; rfl

theorem step_names_nodup {ss : SpecStore} (h : (ss.map Prod.fst).Nodup) (x : Step) :
    ((ss.step x).map Prod.fst).Nodup := by
  cases x with
  | reconcile => exact h
  | create am =>
    simp only [SpecStore.step]
    split
    · exact h
    · rename_i hn
      rw [List.map_append, List.nodup_append]
      refine ⟨h, List.nodup_singleton _, fun a ha hb => hn ?_⟩
      obtain ⟨p, hp, rfl⟩ := List.mem_map.mp ha
      simp only [List.map_cons, List.map_nil, List.mem_singleton] at hb
      exact List.any_eq_true.mpr ⟨p, hp, by simpa using hb⟩
  | edit req spec =>
    simp only [SpecStore.step, List.map_map]
    convert h using 2
    funext p
    simp only [Function.comp]
    split <;> rfl
  | delete req => exact (List.filter_sublist ss).map Prod.fst |>.nodup h

theorem names_specs (sys : System) :
    sys.migrations.map AtlasMigration.namespacedName = sys.specs.map Prod.fst := by
  simp [System.specs, Function.comp_def]

theorem names_nodup_step (lib : Lib) {sys : System}
    (h : (sys.migrations.map AtlasMigration.namespacedName).Nodup) (x : Step) :
    ((step lib sys x).migrations.map AtlasMigration.namespacedName).Nodup := by
  rw [names_specs, specs_step]
  rw [names_specs] at h
  exact step_names_nodup h x

/-- From a state whose resources have distinct names, every state a run
reaches has resources with distinct names. -/
theorem run_names_nodup (lib : Lib) (sys : System)
    (h : (sys.migrations.map AtlasMigration.namespacedName).Nodup) (steps : List Step) :
    ((run lib sys steps).migrations.map AtlasMigration.namespacedName).Nodup := by
  induction steps generalizing sys with
  | nil => exact h
  | cons x xs ih => exact ih _ (names_nodup_step lib h x)

end Proofs

end AtlasOperator
