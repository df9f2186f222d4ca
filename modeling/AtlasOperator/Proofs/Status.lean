import AtlasOperator.Proofs.Fingerprint

namespace AtlasOperator

/-- The status of the `Ready` condition, if there is one. -/
def AtlasMigrationStatus.ready (st : AtlasMigrationStatus) : Option ConditionStatus :=
  (st.conditions.find? (·.type = "Ready")).map (·.status)

/-- The observed part of a status: `ObservedHash`, `LastApplied`, `LastAppliedVersion`. -/
def AtlasMigrationStatus.observed (st : AtlasMigrationStatus) : String × Int × String :=
  (st.observedHash, st.lastApplied, st.lastAppliedVersion)

namespace Proofs

theorem find_setStatusCondition (c : Condition) :
    ∀ cs : List Condition, ((setStatusCondition cs c).find? (·.type = c.type)).map (·.status) =
      some c.status
  | [] => by simp [setStatusCondition]
  | x :: xs => by
    by_cases hx : x.type = c.type
    · simp [setStatusCondition, hx]
    · simp [setStatusCondition, hx, find_setStatusCondition c xs]

section Updates

variable (am : AtlasMigration) (st : AtlasMigrationStatus) (reason message : String)

@[simp] theorem ready_setNotReady : (am.setNotReady reason message).status.ready = some .false :=
  find_setStatusCondition ⟨"Ready", .false, reason, message⟩ _

@[simp] theorem ready_setReady : (am.setReady st).status.ready = some .true :=
  find_setStatusCondition ⟨"Ready", .true, "Applied", ""⟩ _

@[simp] theorem observed_setNotReady :
    (am.setNotReady reason message).status.observed = am.status.observed := rfl

@[simp] theorem observed_setReady : (am.setReady st).status.observed = st.observed := rfl

@[simp] theorem namespacedName_setNotReady :
    (am.setNotReady reason message).namespacedName = am.namespacedName := rfl

@[simp] theorem namespacedName_setReady : (am.setReady st).namespacedName = am.namespacedName := rfl

end Updates

/-- In the pass on `am` over `fs`, extraction gave `md`, the fingerprint at line 147 was `hv`,
the change check let the pass on, and `r.reconcile` returned `st`. -/
def ReconcileReturned (lib : Lib) (w : World) (am : AtlasMigration) (fs : Fs)
    (md : AtlasMigrationData) (hv : String) (st : AtlasMigrationStatus) : Prop :=
  am.status.conditions ≠ [] ∧ ∃ cl s, extractMigrationData w am ⟨am, fs, [], []⟩ = .ok (md, cl) s ∧
    md.hash lib s.fs = .ok hv ∧ ¬ (am.isReady ∧ am.isHashModified hv) ∧ reconcile lib w md s = .ok st s

section Pass

variable {lib : Lib} {w : World} {am : AtlasMigration} {fs : Fs} {md md' : AtlasMigrationData}
  {hv : String} {st : AtlasMigrationStatus} {cl : CleanUp} {s : PassState}

theorem ReconcileReturned.of_extract (h : ReconcileReturned lib w am fs md' hv st)
    (hx : extractMigrationData w am ⟨am, fs, [], []⟩ = .ok (md, cl) s) :
    md' = md ∧ md.hash lib s.fs = .ok hv ∧ ¬ (am.isReady ∧ am.isHashModified hv) ∧
      reconcile lib w md s = .ok st s := by
  obtain ⟨-, cl', s', hx', hh, hr, hc⟩ := h
  rw [hx] at hx'
  cases hx'
  exact ⟨rfl, hh, hr, hc⟩

/-- The status a pass writes back: `Ready` with the observed fields of the `st` `r.reconcile`
returned; otherwise the observed fields as read and not `Ready`, unless the pass panicked. -/
def StatusWritten (lib : Lib) (w : World) (am : AtlasMigration) (fs : Fs) : Prop :=
  (∃ md hv st, ReconcileReturned lib w am fs md hv st ∧ Confirmed lib w md hv st ∧
    (PassM.final (pass lib w am fs)).am.status.ready = some .true ∧
    (PassM.final (pass lib w am fs)).am.status.observed = st.observed) ∨
  ((∀ md hv st, ¬ ReconcileReturned lib w am fs md hv st) ∧
    (PassM.final (pass lib w am fs)).am.status.observed = am.status.observed ∧
    ((PassM.final (pass lib w am fs)).am.status.ready = some .false ∨
      ∃ m, pass lib w am fs = .error (.panic m) (PassM.final (pass lib w am fs)) ∧
        (PassM.final (pass lib w am fs)).am = am))

theorem pass_status (lib : Lib) (w : World) (am : AtlasMigration) (fs : Fs) :
    StatusWritten lib w am fs := by
  unfold StatusWritten
  rcases pass_cases lib w am fs with ⟨hc, h⟩ | ⟨-, err, s, hx, h⟩ | ⟨hc, md, cl, s, hx, h⟩
  · rw [h]
    exact .inr ⟨fun _ _ _ hr => hr.1 hc, rfl, .inl (by simp)⟩
  · have hs : s.am = am := (keeps_extract.of_error hx).1
    rw [h]
    refine .inr ⟨fun _ _ _ ⟨_, _, _, hx', _⟩ => (by rw [hx] at hx'; cases hx'), by simp [hs],
      .inl (by simp)⟩
  have hs : s.am = am := (keeps_extract.of_ok hx).1
  rw [h, final_deferring]
  rcases reconcileData_cases lib w md s with ⟨err, hh, hd⟩ | ⟨hv, hh, hr, hd⟩ |
    ⟨hv, hh, hr, ⟨err, hx', hd⟩ | ⟨st, hx', hd⟩ | ⟨m, hx', hd⟩⟩ <;> rw [hd] <;> simp only [final_ok, final_error]
  · refine .inr ⟨fun _ _ _ h => ?_, by simp [hs], .inl (by simp)⟩
    rw [(h.of_extract hx).2.1] at hh
    cases hh
  · refine .inr ⟨fun _ _ _ h => ?_, by simp [hs], .inl (by simp)⟩
    obtain ⟨-, hh', hr', -⟩ := h.of_extract hx
    rw [hh] at hh'
    cases hh'
    exact hr' (hs ▸ hr)
  · refine .inr ⟨fun _ _ _ h => ?_, by simp [hs], .inl (by simp)⟩
    rw [(h.of_extract hx).2.2.2] at hx'
    cases hx'
  · obtain ⟨-, hv', hh', hconf⟩ := reconcile_ok hx'
    rw [hh] at hh'
    cases hh'
    exact .inl ⟨md, hv, st, ⟨hc, cl, s, hx, hh, hs ▸ hr, hx'⟩, hconf, by simp, by simp⟩
  · refine .inr ⟨fun _ _ _ h => ?_, by simp [hs], .inr ⟨m, ?_, by simp [hs]⟩⟩
    · rw [(h.of_extract hx).2.2.2] at hx'
      cases hx'
    · exact deferring_error hd

end Pass

/-- The status `st` of `req` after `steps` comes from a pass of the run whose status write went
through, with a status `r.reconcile` returned and the executor confirmed. -/
def Vouched (lib : Lib) (fs₀ : Fs) (steps : List Step) (req : NamespacedName)
    (st : AtlasMigrationStatus) : Prop :=
  ∃ i w am md hv st', steps[i]? = some (.reconcile req w true) ∧
    (run lib (System.init fs₀) (steps.take i)).get req = some am ∧
    ReconcileReturned lib w am (run lib (System.init fs₀) (steps.take i)).fs md hv st' ∧
    Confirmed lib w md hv st' ∧ st.observed = st'.observed

/-- `Vouched`, over the run `steps` from `sys`. -/
def VouchedFrom (lib : Lib) (sys : System) (steps : List Step) (req : NamespacedName)
    (st : AtlasMigrationStatus) : Prop :=
  ∃ i w am md hv st', steps[i]? = some (.reconcile req w true) ∧
    (run lib sys (steps.take i)).get req = some am ∧
    ReconcileReturned lib w am (run lib sys (steps.take i)).fs md hv st' ∧
    Confirmed lib w md hv st' ∧ st.observed = st'.observed

section Run

variable {lib : Lib} {sys : System} {steps : List Step} {req : NamespacedName}
  {st : AtlasMigrationStatus}

theorem VouchedFrom.append (h : VouchedFrom lib sys steps req st) (x : Step) :
    VouchedFrom lib sys (steps ++ [x]) req st := by
  obtain ⟨i, w, am, md, hv, st', hi, rest⟩ := h
  have hlt : i < steps.length := (List.getElem?_eq_some_iff.mp hi).1
  refine ⟨i, w, am, md, hv, st', by rw [List.getElem?_append_left hlt, hi], ?_⟩
  rwa [List.take_append_of_le_length hlt.le]

@[simp] theorem finish_migrations (sys : System) (s : PassState) (written : Bool) :
    (sys.finish s written).migrations = if written then (sys.updateStatus s.am).migrations
      else sys.migrations := by
  cases written <;> rfl

theorem get_updateStatus (sys : System) (am : AtlasMigration) (req : NamespacedName) :
    (sys.updateStatus am).get req = (sys.get req).map fun x =>
      if x.namespacedName = am.namespacedName then { x with status := am.status } else x := by
  simp only [System.get, System.updateStatus, List.find?_map]
  congr 2
  funext x
  simp only [Function.comp_apply]
  split <;> rfl

theorem namespacedName_pass_final (lib : Lib) (w : World) (am : AtlasMigration) (fs : Fs) :
    (PassM.final (pass lib w am fs)).am.namespacedName = am.namespacedName := by
  obtain ⟨st, hst⟩ := pass_am lib w am fs
  rw [hst]
  rfl

theorem status_pass_final (lib : Lib) (w : World) (am : AtlasMigration) (fs : Fs) :
    { am with status := (PassM.final (pass lib w am fs)).am.status } =
      (PassM.final (pass lib w am fs)).am := by
  obtain ⟨st, hst⟩ := pass_am lib w am fs
  rw [hst]

/-- After a pass on `req`, `r.Get` returns the resource the pass ended with,
or the resource as read when the status write failed. -/
theorem get_reconcile (lib : Lib) (sys : System) (req : NamespacedName) (w : World) (written : Bool) :
    (step lib sys (.reconcile req w written)).get req = (sys.get req).map fun am =>
      if written then (PassM.final (pass lib w am sys.fs)).am else am := by
  simp only [step, Reconcile]
  cases hg : sys.get req with
  | none => exact hg
  | some am =>
    cases written with
    | false => exact hg
    | true =>
      refine (get_updateStatus { sys with fs := (PassM.final (pass lib w am sys.fs)).fs } _ req).trans ?_
      rw [show ({ sys with fs := (PassM.final (pass lib w am sys.fs)).fs } : System).get req = some am from hg]
      simp only [Option.map_some', namespacedName_pass_final, if_true, status_pass_final]

theorem mem_updateStatus {sys : System} {am a : AtlasMigration}
    (h : a ∈ (sys.updateStatus am).migrations) :
    a ∈ sys.migrations ∨ (a.namespacedName = am.namespacedName ∧ a.status = am.status) := by
  obtain ⟨x, hx, rfl⟩ := List.mem_map.mp h
  by_cases hxn : x.namespacedName = am.namespacedName
  · exact .inr ⟨by rw [if_pos hxn]; exact hxn, by rw [if_pos hxn]⟩
  · exact .inl (by simpa [hxn] using hx)

/-- What a step leaves as a resource's status: one its name had before (all of it when `Ready`),
the empty status of a new resource, or one a confirmed pass of the step wrote back. -/
theorem status_step {x : Step} {a : AtlasMigration} (ha : a ∈ (step lib sys x).migrations) :
    (∃ a₀ ∈ sys.migrations, a₀.namespacedName = a.namespacedName ∧
        a₀.status.observed = a.status.observed ∧
        (a.status.ready = some .true → a₀.status = a.status)) ∨
      a.status = {} ∨
      ∃ w am md hv st, x = .reconcile a.namespacedName w true ∧ sys.get a.namespacedName = some am ∧
        ReconcileReturned lib w am sys.fs md hv st ∧ Confirmed lib w md hv st ∧
        a.status.observed = st.observed := by
  cases x with
  | reconcile req w written =>
    simp only [step, Reconcile] at ha
    cases hg : sys.get req with
    | none =>
      rw [hg] at ha
      exact .inl ⟨a, ha, rfl, rfl, fun _ => rfl⟩
    | some am₀ =>
      rw [hg, finish_migrations] at ha
      obtain ⟨hm₀, rfl⟩ := System.get_some hg
      cases written
      · exact .inl ⟨a, ha, rfl, rfl, fun _ => rfl⟩
      rcases mem_updateStatus ha with ha | ⟨hn, hs⟩
      · exact .inl ⟨a, ha, rfl, rfl, fun _ => rfl⟩
      obtain ⟨stp, hp⟩ := pass_am lib w am₀ sys.fs
      rw [hp] at hn hs
      rw [hs, hn]
      rcases pass_status lib w am₀ sys.fs with
        ⟨md, hv, st', hrr, hc, -, ho⟩ | ⟨-, ho, hf | ⟨m, -, ht⟩⟩ <;> rw [hp] at *
      · exact .inr (.inr ⟨w, am₀, md, hv, st', rfl, hg, hrr, hc, ho⟩)
      · exact .inl ⟨am₀, hm₀, rfl, ho.symm, fun hr => absurd (hf.symm.trans hr) (by simp)⟩
      · exact .inl ⟨am₀, hm₀, rfl, ho.symm, fun _ => by rw [← ht]⟩
  | create am =>
    simp only [step] at ha
    split at ha
    · exact .inl ⟨a, ha, rfl, rfl, fun _ => rfl⟩
    · rcases List.mem_append.mp ha with ha | ha
      · exact .inl ⟨a, ha, rfl, rfl, fun _ => rfl⟩
      · rw [List.mem_singleton.mp ha]
        exact .inr (.inl rfl)
  | edit req spec =>
    simp only [step] at ha
    obtain ⟨x, hx, rfl⟩ := List.mem_map.mp ha
    exact .inl ⟨x, hx, by split <;> rfl, by split <;> rfl, fun _ => by split <;> rfl⟩
  | delete req =>
    simp only [step] at ha
    exact .inl ⟨a, (List.mem_filter.mp ha).1, rfl, rfl, fun _ => rfl⟩

theorem ready_step {x : Step} {a : AtlasMigration} (ha : a ∈ (step lib sys x).migrations)
    (hr : a.status.ready = some .true) :
    (∃ a₀ ∈ sys.migrations, a₀.namespacedName = a.namespacedName ∧ a₀.status = a.status) ∨
      ∃ w am md hv st, x = .reconcile a.namespacedName w true ∧ sys.get a.namespacedName = some am ∧
        ReconcileReturned lib w am sys.fs md hv st ∧ Confirmed lib w md hv st ∧
        a.status.observed = st.observed := by
  rcases status_step ha with ⟨a₀, h₀, hn, -, hs⟩ | hs | h
  · exact .inl ⟨a₀, h₀, hn, hs hr⟩
  · rw [hs] at hr
    cases hr
  · exact .inr h

/-- Over a run from any state, a `Ready` resource either had its status, under
its name, at the start, or is vouched for by a pass of the run. -/
theorem run_ready (lib : Lib) (sys : System) :
    ∀ steps : List Step, ∀ a ∈ (run lib sys steps).migrations, a.status.ready = some .true →
      (∃ a₀ ∈ sys.migrations, a₀.namespacedName = a.namespacedName ∧ a₀.status = a.status) ∨
        VouchedFrom lib sys steps a.namespacedName a.status := by
  intro steps
  induction steps using List.reverseRecOn with
  | nil => exact fun a ha _ => .inl ⟨a, ha, rfl, rfl⟩
  | append_singleton steps x ih =>
    intro a ha hr
    rw [run_append] at ha
    rcases ready_step ha hr with ⟨a₀, ha₀, hn, hs⟩ | ⟨w, am, md, hv, st', rfl, hg, hrr, hc, ho⟩
    · rw [← hn, ← hs]
      exact (ih a₀ ha₀ (hs ▸ hr)).imp_right (·.append _)
    · exact .inr ⟨steps.length, w, am, md, hv, st', by simp, by simpa using hg,
        by simpa using hrr, hc, ho⟩

def storedAfter (steps : List Step) : AtlasMigration :=
  ((run contentLib (System.init tmpOnly) steps).get localOne.namespacedName).getD localOne

theorem run_ready_vouched (lib : Lib) (fs₀ : Fs) :
    ∀ steps : List Step, ∀ am ∈ (run lib (System.init fs₀) steps).migrations,
      am.status.ready = some .true → Vouched lib fs₀ steps am.namespacedName am.status :=
  fun steps am ha hr => (run_ready lib (System.init fs₀) steps am ha hr).resolve_left
    fun ⟨_, h, _⟩ => List.not_mem_nil _ h

end Run

/-- Each pass writes back the status `StatusWritten` describes, which `r.Get` then returns; in
every run a `Ready` resource's observed fields come from a pass the executor confirmed. -/
theorem status_write_back (lib : Lib) (w : World) (am : AtlasMigration) (fs fs₀ : Fs) (sys : System)
    (req : NamespacedName) (written : Bool) (steps : List Step) :
    StatusWritten lib w am fs ∧
      (step lib sys (.reconcile req w written)).get req = (sys.get req).map (fun x =>
        if written then (PassM.final (pass lib w x sys.fs)).am else x) ∧
      ∀ a ∈ (run lib (System.init fs₀) steps).migrations, a.status.ready = some .true →
        Vouched lib fs₀ steps a.namespacedName a.status :=
  ⟨pass_status lib w am fs, get_reconcile lib sys req w written, run_ready_vouched lib fs₀ steps⟩

end Proofs

end AtlasOperator
