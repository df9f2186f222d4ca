import AtlasOperator.Proofs.Stable
import AtlasOperator.Proofs.Conditions
import AtlasOperator.Proofs.Executor

namespace AtlasOperator.Proofs

/-- The steps of a run in which no spec is edited, created resources have plain file names,
and every pass reads the cluster data `w` with any temporary names, iteration order and executor. -/
def SameData (lib : Lib) (w : World) : Step → Prop
  | .reconcile _ w' _ => ∃ t it c, w' = { w with temp := t, iter := it, cli := c } ∧ ReadsBack lib t
  | .create am => PlainLocal am.spec
  | .edit _ _ => False
  | .delete _ => True

/-- A `Ready` resource carries as `ObservedHash` the fingerprint its spec has
under the cluster data `w`, whenever that fingerprint is computed. -/
def Consistent (lib : Lib) (w : World) (a : AtlasMigration) : Prop :=
  a.status.ready = some .true → ∀ t it c fs, ReadsBack lib t →
    (fingerprint lib { w with temp := t, iter := it, cli := c } a fs).isSome →
      fingerprint lib { w with temp := t, iter := it, cli := c } a fs = some (.ok a.status.observedHash)

/-- The invariant of such runs: distinct names, plain file names, and every
resource consistent with `w`. -/
structure Converged (lib : Lib) (w : World) (sys : System) : Prop where
  nodup : (sys.migrations.map AtlasMigration.namespacedName).Nodup
  plain : PlainStore sys
  consistent : ∀ a ∈ sys.migrations, Consistent lib w a

section Step

variable {lib : Lib} {w : World}

theorem consistent_pass (hc : PlainConfigMaps w) {am : AtlasMigration} (hl : PlainLocal am.spec)
    {t : TempNames} {it : Iteration} {c : MigrateCLI} {fs : Fs} (hr : ReadsBack lib t) :
    Consistent lib w (PassM.final (pass lib { w with temp := t, iter := it, cli := c } am fs)).am := by
  intro hready t₂ it₂ c₂ fs₂ hr₂ hsome
  have e₁ := ready_observedHash ((isReady_iff _).mpr hready)
  obtain ⟨st, hst⟩ := pass_am lib { w with temp := t, iter := it, cli := c } am fs
  rw [hst] at e₁ hsome ⊢
  rw [← e₁]
  exact fingerprint_congr hl hc hr₂ hl hc hr
    ((extractURL_world w t₂ it₂ c₂ am st).trans (extractURL_world w t it c am am.status).symm)
    rfl rfl hsome (by rw [e₁]; rfl)

theorem converged_step (hc : PlainConfigMaps w) {sys : System} (h : Converged lib w sys) {x : Step}
    (hx : SameData lib w x) : Converged lib w (step lib sys x) := by
  have hpx : PlainStep x := by
    cases x with
    | reconcile _ w' _ =>
      obtain ⟨t, it, c, rfl, -⟩ := hx
      exact hc
    | create => exact hx
    | edit => exact hx.elim
    | delete => trivial
  refine ⟨names_nodup_step lib h.nodup x, plainStore_step h.plain hpx, fun a ha => ?_⟩
  rcases mem_step ha with ha | ⟨_, -, rfl⟩ | ⟨_, _, _, rfl, -, -⟩ | ⟨_, _, am, y, rfl, hg, hy, hn, rfl⟩
  · exact h.consistent a ha
  · intro hready
    cases hready
  · exact hx.elim
  · -- the status written back goes to the resource the pass read
    obtain ⟨t, it, c, rfl, hr⟩ := hx
    obtain rfl : y = am := List.inj_on_of_nodup_map h.nodup hy (System.get_some hg).1 hn
    rw [status_pass_final]
    exact consistent_pass hc (h.plain _ (List.mem_map_of_mem _ hy)) hr

theorem converged_run (hc : PlainConfigMaps w) :
    ∀ (sys : System) (steps : List Step), Converged lib w sys →
      (∀ x ∈ steps, SameData lib w x) → Converged lib w (run lib sys steps)
  | _, [], h, _ => h
  | _, x :: xs, h, hx => converged_run hc _ xs (converged_step hc h (hx x (List.mem_cons_self _ _)))
      fun y hy => hx y (List.mem_cons_of_mem _ hy)

end Step

/-- Over any run in which no spec is edited and every pass reads the same cluster data, the change
check never requeues a resource of any state the run reaches, whatever the executor. -/
theorem run_no_requeue (lib : Lib) (w : World) (sys : System) (steps : List Step)
    (hc : PlainConfigMaps w) (h : Converged lib w sys) (hx : ∀ x ∈ steps, SameData lib w x) :
    ∀ a ∈ (run lib sys steps).migrations, ∀ t it c fs, ReadsBack lib t →
      ¬ Requeued lib { w with temp := t, iter := it, cli := c } a fs := by
  rintro a ha t it c fs hr ⟨-, md, cl, s, hv, hxt, hh, hready, hm⟩
  have e₂ : fingerprint lib { w with temp := t, iter := it, cli := c } a fs = some (.ok hv) := by
    unfold fingerprint
    rw [hxt]
    exact congrArg some hh
  have e₁ := (converged_run hc sys steps h hx).consistent a ha ((isReady_iff a).mp hready) t it c fs hr
    (by rw [e₂]; rfl)
  rw [e₂] at e₁
  cases e₁
  simp [AtlasMigration.isHashModified] at hm

/-- `twoFiles` created, then reconciled on the same data by an executor that applies revision 2
and then finds nothing pending, in two temporary directories and iteration orders. -/
def sameDataSteps : List Step :=
  [.create twoFilesDir, .reconcile twoFilesDir.namespacedName applyWorld true,
   .reconcile twoFilesDir.namespacedName applyWorld true,
   .reconcile twoFilesDir.namespacedName { appliedWorld with temp := otherTemp, iter := .reversed } true,
   .reconcile twoFilesDir.namespacedName appliedWorld true]

theorem run_no_requeue_sameDataSteps :
    PlainConfigMaps oneFileWorld ∧ Converged urlParseLib oneFileWorld (System.init tmpOnly) ∧
      (∀ x ∈ sameDataSteps, SameData urlParseLib oneFileWorld x) ∧
      ∀ a ∈ (run urlParseLib (System.init tmpOnly) sameDataSteps).migrations, ∀ t it c fs,
        ReadsBack urlParseLib t →
          ¬ Requeued urlParseLib { oneFileWorld with temp := t, iter := it, cli := c } a fs := by
  have h : Converged urlParseLib oneFileWorld (System.init tmpOnly) :=
    ⟨List.nodup_nil, (fun _ ha => nomatch ha), (fun _ ha => nomatch ha)⟩
  have hx : ∀ x ∈ sameDataSteps, SameData urlParseLib oneFileWorld x := by
    intro x hx
    simp only [sameDataSteps, List.mem_cons, List.mem_singleton, List.not_mem_nil, or_false] at hx
    rcases hx with rfl | rfl | rfl | rfl | rfl
    · show PlainLocal twoFilesDir.spec
      decide
    · exact ⟨_, _, _, rfl, readsBack_oneFileWorld⟩
    · exact ⟨_, _, _, rfl, readsBack_oneFileWorld⟩
    · exact ⟨_, _, _, rfl, readsBack_otherTemp⟩
    · exact ⟨_, _, _, rfl, readsBack_oneFileWorld⟩
  exact ⟨plainConfigMaps_oneFileWorld, h, hx,
    run_no_requeue urlParseLib oneFileWorld _ sameDataSteps plainConfigMaps_oneFileWorld h hx⟩

end AtlasOperator.Proofs
