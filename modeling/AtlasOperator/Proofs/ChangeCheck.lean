import AtlasOperator.Proofs.Status

namespace AtlasOperator.Proofs

theorem isReady_iff (am : AtlasMigration) : am.isReady = true ↔ am.status.ready = some .true := by
  simp only [AtlasMigration.isReady, isStatusConditionTrue, AtlasMigrationStatus.ready]
  cases am.status.conditions.find? (·.type = "Ready") <;> simp

/-- The pass on `am` over `fs` stopped at the change check: the resource was
`Ready` and the fingerprint of its extracted data differed from the observed one. -/
def Requeued (lib : Lib) (w : World) (am : AtlasMigration) (fs : Fs) : Prop :=
  am.status.conditions ≠ [] ∧ ∃ md cl s hv, extractMigrationData w am ⟨am, fs, [], []⟩ = .ok (md, cl) s ∧
    md.hash lib s.fs = .ok hv ∧ am.isReady ∧ am.isHashModified hv

/-- A pass that stops at the change check returns a requeue and leaves the
resource not `Ready`. -/
theorem pass_requeued {lib : Lib} {w : World} {am : AtlasMigration} {fs : Fs}
    (h : Requeued lib w am fs) :
    (∃ t, pass lib w am fs = .ok ({ requeue := true }, none) t) ∧
      (PassM.final (pass lib w am fs)).am.status.ready = some .false := by
  obtain ⟨hc, md, cl, s, hv, hx, hh, hr, hm⟩ := h
  have ham : s.am = am := (keeps_extract.of_ok hx).1
  rw [pass_extract_ok hc hx, deferring_ok (data_changed hh (ham ▸ ⟨hr, hm⟩))]
  exact ⟨⟨_, rfl⟩, by simp⟩

theorem status_updateStatus {sys : System} {am a : AtlasMigration}
    (h : a ∈ (sys.updateStatus am).migrations) (hn : a.namespacedName = am.namespacedName) :
    a.status = am.status := by
  obtain ⟨x, -, rfl⟩ := List.mem_map.mp h
  by_cases hx : x.namespacedName = am.namespacedName
  · simp only [hx, if_true]
  · simp only [hx, if_false] at hn

/-- Once the change check has fired on a resource and its status was written back, the
resource is `Ready` again only after a later pass on it that the executor confirmed. -/
theorem ready_after_requeue (lib : Lib) (sys : System) (pre mid : List Step) {req : NamespacedName}
    {w : World} {am : AtlasMigration} (hg : (run lib sys pre).get req = some am)
    (hq : Requeued lib w am (run lib sys pre).fs) {a : AtlasMigration}
    (ha : a ∈ (run lib sys (pre ++ .reconcile req w true :: mid)).migrations)
    (hn : a.namespacedName = req) (hr : a.status.ready = some .true) :
    VouchedFrom lib (run lib sys (pre ++ [.reconcile req w true])) mid req a.status := by
  have hrun : run lib sys (pre ++ .reconcile req w true :: mid) =
      run lib (run lib sys (pre ++ [.reconcile req w true])) mid := by
    simp [run, List.foldl_append]
  rw [hrun] at ha
  refine hn ▸ (run_ready lib _ mid a ha hr).resolve_left fun ⟨a₀, ha₀, hn₀, hs₀⟩ => ?_
  -- a resource of that name right after the requeueing pass has that pass's status
  obtain ⟨-, hnam⟩ := System.get_some hg
  obtain ⟨stp, hp⟩ := pass_am lib w am (run lib sys pre).fs
  simp only [run_append, step, Reconcile, hg, finish_migrations, if_true] at ha₀
  have hs : a₀.status = (PassM.final (pass lib w am (run lib sys pre).fs)).am.status :=
    status_updateStatus ha₀ (by rw [hn₀, hn, hp, ← hnam]; rfl)
  have h := (pass_requeued hq).2
  rw [← hs, hs₀, hr] at h
  cases h

def editedFile : GoMap := ⟨[("1.sql", "create table t(id bigint);")], by decide⟩

/-- `localOne` is created, reconciled until `Ready`, and its file edited. -/
def requeuePre : List Step :=
  [.create localOne, .reconcile localOne.namespacedName oneFileWorld true,
   .reconcile localOne.namespacedName oneFileWorld true,
   .edit localOne.namespacedName { url := "sqlite://file", dir := { «local» := some editedFile } }]

theorem ready_after_requeue_edit :
    (run contentLib (System.init tmpOnly) requeuePre).get localOne.namespacedName =
        some (storedAfter requeuePre) ∧
      Requeued contentLib oneFileWorld (storedAfter requeuePre)
        (run contentLib (System.init tmpOnly) requeuePre).fs ∧
      storedAfter (requeuePre ++ [.reconcile localOne.namespacedName oneFileWorld true,
          .reconcile localOne.namespacedName oneFileWorld true]) ∈
        (run contentLib (System.init tmpOnly) (requeuePre ++
          [.reconcile localOne.namespacedName oneFileWorld true,
           .reconcile localOne.namespacedName oneFileWorld true])).migrations ∧
      (storedAfter (requeuePre ++ [.reconcile localOne.namespacedName oneFileWorld true,
          .reconcile localOne.namespacedName oneFileWorld true])).namespacedName =
        localOne.namespacedName ∧
      (storedAfter (requeuePre ++ [.reconcile localOne.namespacedName oneFileWorld true,
          .reconcile localOne.namespacedName oneFileWorld true])).status.ready = some .true ∧
      VouchedFrom contentLib (run contentLib (System.init tmpOnly)
          (requeuePre ++ [.reconcile localOne.namespacedName oneFileWorld true]))
        [.reconcile localOne.namespacedName oneFileWorld true] localOne.namespacedName
        (storedAfter (requeuePre ++ [.reconcile localOne.namespacedName oneFileWorld true,
          .reconcile localOne.namespacedName oneFileWorld true])).status := by
  have hg : (run contentLib (System.init tmpOnly) requeuePre).get localOne.namespacedName =
      some (storedAfter requeuePre) := rfl
  have hq : Requeued contentLib oneFileWorld (storedAfter requeuePre)
      (run contentLib (System.init tmpOnly) requeuePre).fs :=
    ⟨by decide, _, _, _, _, rfl, rfl, by decide, by decide⟩
  have ha : storedAfter (requeuePre ++ [.reconcile localOne.namespacedName oneFileWorld true,
      .reconcile localOne.namespacedName oneFileWorld true]) ∈
      (run contentLib (System.init tmpOnly) (requeuePre ++
        [.reconcile localOne.namespacedName oneFileWorld true,
         .reconcile localOne.namespacedName oneFileWorld true])).migrations := by decide
  have hr : (storedAfter (requeuePre ++ [.reconcile localOne.namespacedName oneFileWorld true,
      .reconcile localOne.namespacedName oneFileWorld true])).status.ready = some .true := by decide
  exact ⟨hg, hq, ha, rfl, hr, ready_after_requeue contentLib (System.init tmpOnly) requeuePre
    [.reconcile localOne.namespacedName oneFileWorld true] hg hq ha rfl hr⟩

end AtlasOperator.Proofs
