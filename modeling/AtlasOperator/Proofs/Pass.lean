import AtlasOperator.Controller.System

namespace AtlasOperator.Proofs

variable {α β : Type} {x : PassM α} {f : α → PassM β} {s t : PassState} {a : α} {e : Exit}

theorem bind_ok (h : x s = .ok a t) : (x >>= f) s = f a t := by
  simp [bind, EStateM.bind, h]

theorem bind_error (h : x s = .error e t) : (x >>= f) s = .error e t := by
  simp [bind, EStateM.bind, h]

theorem bind_eq_ok {b : β} (h : (x >>= f) s = .ok b t) : ∃ a u, x s = .ok a u ∧ f a u = .ok b t := by
  cases hx : x s with
  | ok a u => exact ⟨a, u, rfl, by rwa [bind_ok hx] at h⟩
  | error e u => rw [bind_error hx] at h; cases h

theorem bind_eq_error (h : (x >>= f) s = .error e t) :
    x s = .error e t ∨ ∃ a u, x s = .ok a u ∧ f a u = .error e t := by
  cases hx : x s with
  | ok a u => exact .inr ⟨a, u, rfl, by rwa [bind_ok hx] at h⟩
  | error e u => rw [bind_error hx] at h; cases h; exact .inl rfl

theorem pure_eq_ok {b : α} (h : (pure a : PassM α) s = .ok b t) : b = a ∧ t = s := by
  cases h; exact ⟨rfl, rfl⟩

theorem onFs_eq_ok {g : Fs → Except Err (α × Fs)} (h : onFs g s = .ok a t) :
    ∃ fs, g s.fs = .ok (a, fs) ∧ t = { s with fs := fs } := by
  simp only [onFs] at h
  split at h
  · cases h; exact ⟨_, ‹_›, rfl⟩
  · cases h

theorem onFs_eq_error {g : Fs → Except Err (α × Fs)} (h : onFs g s = .error e t) : t = s := by
  simp only [onFs] at h
  split at h
  · cases h
  · cases h; rfl

@[simp] theorem final_ok (b : β) : PassM.final (.ok b t : EStateM.Result Exit PassState β) = t := rfl

@[simp] theorem final_error : PassM.final (.error e t : EStateM.Result Exit PassState β) = t := rfl

/-- `x` never panics, and every way it ends relates the state it started in to
the one it ends in by `P`. -/
def Keeps (P : PassState → PassState → Prop) (x : PassM α) : Prop :=
  ∀ s, P s (PassM.final (x s)) ∧ ∀ m t, x s ≠ .error (.panic m) t

section Keeps

variable {P : PassState → PassState → Prop}

theorem Keeps.bind [IsTrans PassState P] (hx : Keeps P x) (hf : ∀ a, Keeps P (f a)) :
    Keeps P (x >>= f) := by
  intro s
  cases h : x s with
  | ok a t =>
    rw [bind_ok h]
    exact ⟨IsTrans.trans _ _ _ (by simpa [h] using (hx s).1) (hf a t).1, (hf a t).2⟩
  | error e t =>
    rw [bind_error h]
    refine ⟨by simpa [h] using (hx s).1, fun m u he => ?_⟩
    cases he
    exact (hx s).2 m t h

theorem keeps_modify {g : PassState → PassState} (h : ∀ s, P s (g s)) : Keeps P (modify g) :=
  fun s => ⟨h s, fun _ _ h => nomatch h⟩

theorem Keeps.of_ok (hx : Keeps P x) (h : x s = .ok a t) : P s t := by
  simpa [h] using (hx s).1

theorem Keeps.of_error (hx : Keeps P x) (h : x s = .error e t) : P s t := by
  simpa [h] using (hx s).1

variable [IsRefl PassState P]

theorem keeps_pure : Keeps P (pure a : PassM α) := fun s => ⟨refl s, fun _ _ h => nomatch h⟩

theorem keeps_get : Keeps P (get : PassM PassState) := fun s => ⟨refl s, fun _ _ h => nomatch h⟩

theorem keeps_fail (e : Err) : Keeps P (fail e : PassM α) :=
  fun s => ⟨refl s, fun _ _ h => nomatch h⟩

theorem keeps_onFs {g : Fs → Except Err (α × Fs)} (h : ∀ s (fs : Fs), P s { s with fs := fs }) :
    Keeps P (onFs g) := by
  intro s
  simp only [onFs]
  split
  · exact ⟨h s _, fun _ _ h => nomatch h⟩
  · exact ⟨refl s, fun _ _ h => nomatch h⟩

end Keeps

/-- The secrets and config map a resource's spec references, as `r.watch`
registers them. -/
def specRefs (am : AtlasMigration) : List Ref :=
  (am.spec.dir.configMapRef.map fun c => Ref.configMap ⟨am.ns, c⟩).toList ++
    ([am.spec.cloud.tokenFrom.secretKeyRef, am.spec.urlFrom.secretKeyRef,
      am.spec.credentials.passwordFrom.secretKeyRef].filterMap id).map
      fun sel => .secret ⟨am.ns, sel.name⟩

/-- A step of `extractMigrationData` on `am`: the resource and the events stay
as they are, and what is read is referenced by `am`'s spec. -/
def ExtractFrame (am : AtlasMigration) (s t : PassState) : Prop :=
  t.am = s.am ∧ t.events = s.events ∧ ∀ r ∈ t.reads, r ∈ s.reads ∨ r ∈ specRefs am

section Extract

variable {w : World} {am : AtlasMigration}

instance : IsRefl PassState (ExtractFrame am) := ⟨fun _ => ⟨rfl, rfl, fun _ h => .inl h⟩⟩

instance : IsTrans PassState (ExtractFrame am) :=
  ⟨fun _ _ _ h₁ h₂ => ⟨h₂.1.trans h₁.1, h₂.2.1.trans h₁.2.1,
    fun r hr => (h₂.2.2 r hr).elim (h₁.2.2 r) .inr⟩⟩

theorem secret_mem_specRefs {sel : SecretKeySelector}
    (h : sel ∈ [am.spec.cloud.tokenFrom.secretKeyRef, am.spec.urlFrom.secretKeyRef,
      am.spec.credentials.passwordFrom.secretKeyRef].filterMap id) :
    Ref.secret ⟨am.ns, sel.name⟩ ∈ specRefs am :=
  List.mem_append_right _ (List.mem_map_of_mem _ h)

variable {P : PassState → PassState → Prop} [IsRefl PassState P] [IsTrans PassState P]
  (hr : ∀ r ∈ specRefs am, ∀ s : PassState, P s { s with reads := s.reads ++ [r] })
  (hfs : ∀ (s : PassState) (fs : Fs), P s { s with fs := fs })
include hr

theorem keeps_getSecretValue {ns : String} {sel : SecretKeySelector}
    (h : Ref.secret ⟨ns, sel.name⟩ ∈ specRefs am) : Keeps P (getSecretValue w ns sel) := by
  refine Keeps.bind (keeps_modify (hr _ h)) fun _ => ?_
  split
  · exact keeps_pure
  · exact keeps_fail _

theorem keeps_extractURL : Keeps P (extractURL w am) := by
  unfold extractURL
  split
  · exact keeps_pure
  · split
    · rename_i ref h
      exact keeps_getSecretValue hr (secret_mem_specRefs (by simp [h]))
    · split
      · unfold hydrateCredentials
        split
        · rename_i ref h
          exact Keeps.bind (Keeps.bind (keeps_getSecretValue hr (secret_mem_specRefs (by simp [h])))
            fun _ => keeps_pure) fun _ => keeps_pure
        · exact Keeps.bind keeps_pure fun _ => keeps_pure
      · exact keeps_pure

theorem keeps_extractCloud : Keeps P (extractCloud w am) := by
  unfold extractCloud
  split
  · rename_i ref h
    exact Keeps.bind (keeps_getSecretValue hr (secret_mem_specRefs (by simp [h]))) fun _ => keeps_pure
  · exact keeps_pure

omit hr
include hfs

theorem keeps_writeEntries (dir : String) :
    ∀ es : List (String × String), Keeps P (writeEntries dir es)
  | [] => keeps_pure
  | (key, value) :: rest => by
    intro s
    simp only [writeEntries]
    split
    · exact ⟨IsTrans.trans _ _ _ (hfs s _) (keeps_writeEntries dir rest _).1,
        (keeps_writeEntries dir rest _).2⟩
    · exact ⟨hfs s _, fun _ _ h => nomatch h⟩

theorem keeps_createTmpDirFromMap (m : GoMap) : Keeps P (createTmpDirFromMap w m) :=
  Keeps.bind (keeps_onFs hfs) fun _ => Keeps.bind (keeps_writeEntries hfs _ _) fun _ => keeps_pure

include hr

theorem keeps_extractConfigMapDir : Keeps P (extractConfigMapDir w am) := by
  unfold extractConfigMapDir
  split
  · rename_i c h
    refine Keeps.bind (Keeps.bind (keeps_modify (hr _ (by simp [specRefs, h]))) fun _ => ?_)
      fun _ => keeps_pure
    split
    · exact keeps_fail _
    · exact keeps_createTmpDirFromMap hfs _
  · exact keeps_pure

omit hr in
theorem keeps_extractLocalDir (mig : Option Migration) (cl : CleanUp) :
    Keeps P (extractLocalDir w am mig cl) := by
  unfold extractLocalDir
  split
  · split
    · exact keeps_fail _
    · exact Keeps.bind (keeps_createTmpDirFromMap hfs _) fun _ => keeps_pure
  · exact keeps_pure

theorem keeps_extractMigrationData : Keeps P (extractMigrationData w am) :=
  Keeps.bind (keeps_extractURL hr) fun _ =>
    Keeps.bind (keeps_extractConfigMapDir hr hfs) fun ⟨_, _⟩ =>
      Keeps.bind (keeps_extractLocalDir hfs _ _) fun ⟨_, _⟩ =>
        Keeps.bind (keeps_extractCloud hr) fun _ => keeps_pure

end Extract

/-- `extractMigrationData` never panics, leaves the resource and the events
alone, and reads only objects its spec references. -/
theorem keeps_extract {w : World} {am : AtlasMigration} :
    Keeps (ExtractFrame am) (extractMigrationData w am) :=
  keeps_extractMigrationData
    (fun r hr' _ => ⟨rfl, rfl, fun r' h => by
      rcases List.mem_append.mp h with h | h
      · exact .inl h
      · exact .inr (by simpa [List.mem_singleton.mp h] using hr')⟩)
    (fun _ _ => ⟨rfl, rfl, fun _ h => .inl h⟩)

/-- Every way `x` ends, it ends in the state it started in. -/
def Stays (x : PassM α) : Prop := ∀ s, PassM.final (x s) = s

theorem Stays.bind (hx : Stays x) (hf : ∀ a, Stays (f a)) : Stays (x >>= f) := by
  intro s
  cases h : x s with
  | ok a t =>
    obtain rfl : t = s := by simpa [h] using hx s
    rw [bind_ok h]
    exact hf a t
  | error e t => rw [bind_error h]; simpa [h] using hx s

theorem stays_pure : Stays (pure a : PassM α) := fun _ => rfl

theorem stays_get : Stays (get : PassM PassState) := fun _ => rfl

theorem stays_fail (e : Err) : Stays (fail e : PassM α) := fun _ => rfl

theorem stays_nilDeref : Stays (nilDeref : PassM α) := fun _ => rfl

theorem stays_liftErr (r : Except Err α) : Stays (liftErr r) := by
  cases r <;> exact fun _ => rfl

theorem stays_reconcile (lib : Lib) (w : World) (md : AtlasMigrationData) :
    Stays (reconcile lib w md) := by
  unfold reconcile
  refine Stays.bind (stays_liftErr _) fun _ => Stays.bind stays_get fun _ =>
    Stays.bind (stays_liftErr _) fun _ => ?_
  split
  · exact stays_fail _
  · exact stays_nilDeref
  · split
    · exact stays_pure
    · split
      · exact stays_fail _
      · split
        · exact stays_fail _
        · exact stays_pure
      · exact stays_nilDeref

/-- What `reconcile` returning `st` means: the executor reported nothing pending for `md`, or
applied it with no error text, and `st` carries the fingerprint `h` and the reported time and version. -/
def Confirmed (lib : Lib) (w : World) (md : AtlasMigrationData) (h : String)
    (st : AtlasMigrationStatus) : Prop :=
  ∃ cfg status, lib.render md = .ok cfg ∧ w.cli.status ⟨md.envName, cfg⟩ = .ok (some status) ∧
    ((status.pending = [] ∧
        st = ⟨[], h, (status.applied.getLast?.map (·.executedAt)).getD 0, status.current⟩) ∨
     (status.pending ≠ [] ∧ ∃ rep, w.cli.apply ⟨md.envName, cfg⟩ = .ok (some rep) ∧
        rep.error = "" ∧ st = ⟨[], h, rep.«end», rep.target⟩))

section Reconcile

variable {lib : Lib} {w : World} {md : AtlasMigrationData} {st : AtlasMigrationStatus}

theorem reconcile_ok (h : reconcile lib w md s = .ok st t) :
    t = s ∧ ∃ hv, md.hash lib s.fs = .ok hv ∧ Confirmed lib w md hv st := by
  obtain rfl : t = s := by simpa [h] using stays_reconcile lib w md s
  refine ⟨rfl, ?_⟩
  have hfail : ∀ e, (fail e : PassM AtlasMigrationStatus) t ≠ .ok st t := fun _ h => nomatch h
  have hnil : (nilDeref : PassM AtlasMigrationStatus) t ≠ .ok st t := fun h => nomatch h
  unfold reconcile at h
  cases h1 : lib.render md with
  | error e => exact absurd (by simpa [liftErr, h1, bind, EStateM.bind] using h) (hfail e)
  | ok cfg =>
  cases h2 : md.hash lib t.fs with
  | error e =>
    exact absurd (by simpa [liftErr, h1, h2, bind, EStateM.bind, get, getThe, MonadStateOf.get,
      EStateM.get, pure, EStateM.pure] using h) (hfail e)
  | ok hv =>
  refine ⟨hv, rfl, ?_⟩
  simp only [liftErr, h1, h2, bind, EStateM.bind, pure, EStateM.pure, get, getThe,
    MonadStateOf.get, EStateM.get] at h
  rcases hs : w.cli.status ⟨md.envName, cfg⟩ with e | _ | status
  · exact absurd (by simpa [hs] using h) (hfail _)
  · exact absurd (by simpa [hs] using h) hnil
  simp only [hs] at h
  by_cases hp : status.pending.length = 0
  · simp only [hp, if_true, EStateM.pure, EStateM.Result.ok.injEq] at h
    obtain ⟨rfl, -⟩ := h
    refine ⟨cfg, status, h1, hs, .inl ⟨List.length_eq_zero.mp hp, ?_⟩⟩
    cases status.applied.getLast? <;> rfl
  simp only [hp, if_false] at h
  rcases hr : w.cli.apply ⟨md.envName, cfg⟩ with e | _ | rep
  · exact absurd (by simpa [hr] using h) (hfail _)
  · exact absurd (by simpa [hr] using h) hnil
  simp only [hr] at h
  by_cases he : rep.error ≠ ""
  · exact absurd (by simpa [he] using h) (hfail _)
  simp only [he, if_false, EStateM.pure, EStateM.Result.ok.injEq] at h
  obtain ⟨rfl, -⟩ := h
  exact ⟨cfg, status, h1, hs, .inr ⟨fun h => hp (by simp [h]), rep, hr, not_not.mp he, rfl⟩⟩

end Reconcile

section Exits

variable {lib : Lib} {w : World} {md : AtlasMigrationData} {st : AtlasMigrationStatus}
  {am : AtlasMigration} {fs : Fs} {cl : CleanUp} {hv : String} {err : Err} {m : String}

theorem pass_first (h : am.status.conditions = []) :
    pass lib w am fs = .ok ({ requeue := true }, none)
      ⟨am.setNotReady "Reconciling" "Reconciling", fs, [], []⟩ := by
  simp [pass, reconcileBody, h, bind, EStateM.bind, get, getThe, MonadStateOf.get, EStateM.get,
    setNotReady, modify, modifyGet, MonadStateOf.modifyGet, EStateM.modifyGet, pure, EStateM.pure]

theorem pass_extract_error (hc : am.status.conditions ≠ [])
    (h : extractMigrationData w am ⟨am, fs, [], []⟩ = .error (.err err) s) :
    pass lib w am fs = .ok (lib.result err) { s with
      am := s.am.setNotReady "ReadingMigrationData" err.msg, events := s.events ++ [errEvent err] } := by
  simp [pass, reconcileBody, hc, bind, EStateM.bind, get, getThe, MonadStateOf.get, EStateM.get,
    setNotReady, modify, modifyGet, MonadStateOf.modifyGet, EStateM.modifyGet, pure, EStateM.pure,
    attempt, h, recordErrEvent, emit]

theorem pass_extract_ok (hc : am.status.conditions ≠ [])
    (h : extractMigrationData w am ⟨am, fs, [], []⟩ = .ok (md, cl) s) :
    pass lib w am fs = deferring (reconcileData lib w md) cl s := by
  simp [pass, reconcileBody, hc, bind, EStateM.bind, get, getThe, MonadStateOf.get, EStateM.get,
    attempt, h]

theorem data_hash_error (h : md.hash lib s.fs = .error err) :
    reconcileData lib w md s = .ok ({}, none)
      { s with am := s.am.setNotReady "CalculatingHash" err.msg } := by
  simp [reconcileData, h, bind, EStateM.bind, get, getThe, MonadStateOf.get, EStateM.get,
    setNotReady, modify, modifyGet, MonadStateOf.modifyGet, EStateM.modifyGet, pure, EStateM.pure]

theorem data_changed (h : md.hash lib s.fs = .ok hv) (hr : s.am.isReady ∧ s.am.isHashModified hv) :
    reconcileData lib w md s = .ok ({ requeue := true }, none)
      { s with am := s.am.setNotReady "Reconciling" "Current migration data has changed" } := by
  simp [reconcileData, h, hr, bind, EStateM.bind, get, getThe, MonadStateOf.get, EStateM.get,
    setNotReady, modify, modifyGet, MonadStateOf.modifyGet, EStateM.modifyGet, pure, EStateM.pure]

theorem data_error (h : md.hash lib s.fs = .ok hv) (hr : ¬ (s.am.isReady ∧ s.am.isHashModified hv))
    (hx : reconcile lib w md s = .error (.err err) t) :
    reconcileData lib w md s = .ok (lib.result err) { t with
      am := t.am.setNotReady "Migrating" (trimSpace err.msg), events := t.events ++ [errEvent err] } := by
  simp [reconcileData, h, hr, hx, attempt, bind, EStateM.bind, get, getThe, MonadStateOf.get,
    EStateM.get, setNotReady, modify, modifyGet, MonadStateOf.modifyGet, EStateM.modifyGet, pure,
    EStateM.pure, recordErrEvent, emit]

theorem data_applied (h : md.hash lib s.fs = .ok hv) (hr : ¬ (s.am.isReady ∧ s.am.isHashModified hv))
    (hx : reconcile lib w md s = .ok st t) :
    reconcileData lib w md s = .ok ({}, none)
      { t with am := t.am.setReady st, events := t.events ++ [appliedEvent st] } := by
  simp [reconcileData, h, hr, hx, attempt, bind, EStateM.bind, get, getThe, MonadStateOf.get,
    EStateM.get, modify, modifyGet, MonadStateOf.modifyGet, EStateM.modifyGet, pure, EStateM.pure,
    emit]

theorem data_panic (h : md.hash lib s.fs = .ok hv) (hr : ¬ (s.am.isReady ∧ s.am.isHashModified hv))
    (hx : reconcile lib w md s = .error (.panic m) t) :
    reconcileData lib w md s = .error (.panic m) t := by
  simp [reconcileData, h, hr, hx, attempt, bind, EStateM.bind, get, getThe, MonadStateOf.get,
    EStateM.get]

@[simp] theorem final_deferring {body : PassM α} : PassM.final (deferring body cl s) =
    { PassM.final (body s) with fs := cl.run (PassM.final (body s)).fs } := by
  simp only [deferring]
  split <;> simp [*]

theorem deferring_ok {body : PassM α} (h : body s = .ok a t) :
    deferring body cl s = .ok a { t with fs := cl.run t.fs } := by
  simp [deferring, h]

theorem deferring_error {body : PassM α} (h : body s = .error e t) :
    deferring body cl s = .error e { t with fs := cl.run t.fs } := by
  simp [deferring, h]

/-- Every way `reconcileData` can end, from the fingerprint, the change check and the
executor's answer; `reconcile` leaves the state alone. -/
theorem reconcileData_cases (lib : Lib) (w : World) (md : AtlasMigrationData) (s : PassState) :
    (∃ err, md.hash lib s.fs = .error err ∧ reconcileData lib w md s =
        .ok ({}, none) { s with am := s.am.setNotReady "CalculatingHash" err.msg }) ∨
    (∃ hv, md.hash lib s.fs = .ok hv ∧ (s.am.isReady ∧ s.am.isHashModified hv) ∧
      reconcileData lib w md s = .ok ({ requeue := true }, none)
        { s with am := s.am.setNotReady "Reconciling" "Current migration data has changed" }) ∨
    (∃ hv, md.hash lib s.fs = .ok hv ∧ ¬ (s.am.isReady ∧ s.am.isHashModified hv) ∧
      ((∃ err, reconcile lib w md s = .error (.err err) s ∧
        reconcileData lib w md s = .ok (lib.result err) { s with
          am := s.am.setNotReady "Migrating" (trimSpace err.msg), events := s.events ++ [errEvent err] }) ∨
      (∃ st, reconcile lib w md s = .ok st s ∧ reconcileData lib w md s = .ok ({}, none)
        { s with am := s.am.setReady st, events := s.events ++ [appliedEvent st] }) ∨
      (∃ m, reconcile lib w md s = .error (.panic m) s ∧
        reconcileData lib w md s = .error (.panic m) s))) := by
  cases hh : md.hash lib s.fs with
  | error err => exact .inl ⟨err, rfl, data_hash_error hh⟩
  | ok hv =>
    by_cases hr : s.am.isReady ∧ s.am.isHashModified hv
    · exact .inr (.inl ⟨hv, rfl, hr, data_changed hh hr⟩)
    refine .inr (.inr ⟨hv, rfl, hr, ?_⟩)
    cases hx : reconcile lib w md s with
    | ok st t =>
      obtain ⟨rfl, -⟩ := reconcile_ok hx
      exact .inr (.inl ⟨st, rfl, data_applied hh hr hx⟩)
    | error e t =>
      obtain rfl : t = s := by simpa [hx] using stays_reconcile lib w md s
      cases e with
      | err err => exact .inl ⟨err, rfl, data_error hh hr hx⟩
      | panic m => exact .inr (.inr ⟨m, rfl, data_panic hh hr hx⟩)

theorem reconcileData_frame (lib : Lib) (w : World) (md : AtlasMigrationData) (s : PassState) :
    (PassM.final (reconcileData lib w md s)).fs = s.fs ∧
      (PassM.final (reconcileData lib w md s)).reads = s.reads := by
  rcases reconcileData_cases lib w md s with ⟨_, _, h⟩ | ⟨_, _, _, h⟩ |
    ⟨_, _, _, ⟨_, _, h⟩ | ⟨_, _, h⟩ | ⟨_, _, h⟩⟩ <;> simp [h]

/-- Every way a pass can end: the first observation, a failed extraction, or
the data part under the deferred cleanup. -/
theorem pass_cases (lib : Lib) (w : World) (am : AtlasMigration) (fs : Fs) :
    (am.status.conditions = [] ∧ pass lib w am fs = .ok ({ requeue := true }, none)
      ⟨am.setNotReady "Reconciling" "Reconciling", fs, [], []⟩) ∨
    (am.status.conditions ≠ [] ∧ ∃ err s, extractMigrationData w am ⟨am, fs, [], []⟩ = .error (.err err) s ∧
      pass lib w am fs = .ok (lib.result err) { s with
        am := s.am.setNotReady "ReadingMigrationData" err.msg, events := s.events ++ [errEvent err] }) ∨
    (am.status.conditions ≠ [] ∧ ∃ md cl s, extractMigrationData w am ⟨am, fs, [], []⟩ = .ok (md, cl) s ∧
      pass lib w am fs = deferring (reconcileData lib w md) cl s) := by
  by_cases hc : am.status.conditions = []
  · exact .inl ⟨hc, pass_first hc⟩
  cases hx : extractMigrationData w am ⟨am, fs, [], []⟩ with
  | ok r s => exact .inr (.inr ⟨hc, r.1, r.2, s, rfl, pass_extract_ok hc hx⟩)
  | error e s =>
    cases e with
    | err err => exact .inr (.inl ⟨hc, err, s, rfl, pass_extract_error hc hx⟩)
    | panic m => exact absurd hx ((keeps_extract _).2 m s)

theorem run_append (lib : Lib) (sys : System) (steps : List Step) (x : Step) :
    run lib sys (steps ++ [x]) = step lib (run lib sys steps) x := by
  simp [run]

theorem System.get_some {sys : System} {req : NamespacedName} {am : AtlasMigration}
    (h : sys.get req = some am) : am ∈ sys.migrations ∧ am.namespacedName = req :=
  ⟨List.mem_of_find?_eq_some h, by simpa using List.find?_some h⟩

theorem pass_am (lib : Lib) (w : World) (am : AtlasMigration) (fs : Fs) :
    ∃ st, (PassM.final (pass lib w am fs)).am = { am with status := st } := by
  rcases pass_cases lib w am fs with ⟨-, h⟩ | ⟨-, err, s, hx, h⟩ | ⟨-, md, cl, s, hx, h⟩
  · rw [h]
    exact ⟨_, rfl⟩
  · have hs : s.am = am := (keeps_extract.of_error hx).1
    rw [h, ← hs]
    exact ⟨_, rfl⟩
  · have hs : s.am = am := (keeps_extract.of_ok hx).1
    rw [h, final_deferring, ← hs]
    rcases reconcileData_cases lib w md s with ⟨_, _, hd⟩ | ⟨_, _, _, hd⟩ |
      ⟨_, _, _, ⟨_, _, hd⟩ | ⟨_, _, hd⟩ | ⟨_, _, hd⟩⟩ <;> rw [hd] <;> exact ⟨_, rfl⟩

end Exits

end AtlasOperator.Proofs
