import AtlasOperator.Proofs.Cleanup

namespace AtlasOperator.Proofs

/-- The time and version `reconcile` returns: the last applied revision's and the current
version when nothing is pending, and the apply report's end and target otherwise. -/
theorem reconcile_lastApplied {lib : Lib} {w : World} {md : AtlasMigrationData}
    {s t : PassState} {st : AtlasMigrationStatus} (h : reconcile lib w md s = .ok st t) :
    ∃ cfg status, lib.render md = .ok cfg ∧ w.cli.status ⟨md.envName, cfg⟩ = .ok (some status) ∧
      ((status.pending = [] ∧ st.lastApplied = (status.applied.getLast?.map (·.executedAt)).getD 0 ∧
          st.lastAppliedVersion = status.current) ∨
        (status.pending ≠ [] ∧ ∃ rep, w.cli.apply ⟨md.envName, cfg⟩ = .ok (some rep) ∧
          rep.error = "" ∧ st.lastApplied = rep.«end» ∧ st.lastAppliedVersion = rep.target)) := by
  obtain ⟨-, hv, -, cfg, status, hr, hs, hc⟩ := reconcile_ok h
  refine ⟨cfg, status, hr, hs, hc.imp (fun ⟨hp, he⟩ => ?_) fun ⟨hp, rep, ha, he, hst⟩ => ?_⟩
  · subst he
    exact ⟨hp, rfl, rfl⟩
  · subst hst
    exact ⟨hp, rep, ha, he, rfl, rfl⟩

/-- Inputs with no migration directory, so the fingerprint is the URL's. -/
def urlOnly : AtlasMigrationData := { envName := "kubernetes", url := "sqlite://file" }

def urlOnlyState : PassState := ⟨bothDirs, tmpOnly, [], []⟩

/-- An executor with revision 2 pending, which it applies from time 100 to 101. -/
def applyWorld : World :=
  { oneFileWorld with cli := ⟨fun _ => .ok (some ⟨"1", [⟨"1", 50⟩], ["2"]⟩),
                              fun _ => .ok (some ⟨"2", 101, ""⟩)⟩ }

/-- The same executor afterwards: revision 2 applied at time 100, nothing pending. -/
def appliedWorld : World :=
  { oneFileWorld with cli := ⟨fun _ => .ok (some ⟨"2", [⟨"1", 50⟩, ⟨"2", 100⟩], []⟩),
                              fun _ => .ok none⟩ }

theorem lastApplied_when_idle :
    reconcile okLib appliedWorld urlOnly urlOnlyState =
        .ok ⟨[], "sqlite://file", 100, "2"⟩ urlOnlyState ∧
      ∃ cfg status, okLib.render urlOnly = .ok cfg ∧
        appliedWorld.cli.status ⟨urlOnly.envName, cfg⟩ = .ok (some status) ∧
        ((status.pending = [] ∧ (100 : Int) = (status.applied.getLast?.map (·.executedAt)).getD 0 ∧
            "2" = status.current) ∨
          (status.pending ≠ [] ∧ ∃ rep, appliedWorld.cli.apply ⟨urlOnly.envName, cfg⟩ = .ok (some rep) ∧
            rep.error = "" ∧ (100 : Int) = rep.«end» ∧ "2" = rep.target)) :=
  ⟨rfl, @reconcile_lastApplied okLib appliedWorld urlOnly urlOnlyState urlOnlyState
    ⟨[], "sqlite://file", 100, "2"⟩ rfl⟩

/-- The pass that applies revision 2 records time 101; the next pass, with
nothing changed, records 100. -/
theorem lastApplied_after_apply_differs :
    reconcile okLib applyWorld urlOnly urlOnlyState = .ok ⟨[], "sqlite://file", 101, "2"⟩ urlOnlyState ∧
      reconcile okLib appliedWorld urlOnly urlOnlyState =
        .ok ⟨[], "sqlite://file", 100, "2"⟩ urlOnlyState :=
  ⟨rfl, rfl⟩

/-- The executor, asked about `md`, answers a call of `reconcile` with neither a report nor
an error: `Status`, or `Apply` with migrations pending. -/
def NilAnswer (lib : Lib) (w : World) (md : AtlasMigrationData) : Prop :=
  ∃ cfg, lib.render md = .ok cfg ∧
    (w.cli.status ⟨md.envName, cfg⟩ = .ok none ∨
      ∃ status, w.cli.status ⟨md.envName, cfg⟩ = .ok (some status) ∧ status.pending ≠ [] ∧
        w.cli.apply ⟨md.envName, cfg⟩ = .ok none)

theorem fail_apply {α : Type} (e : Err) (s : PassState) : (fail e : PassM α) s = .error (.err e) s := rfl

theorem nilDeref_apply {α : Type} (s : PassState) :
    (nilDeref : PassM α) s = .error (.panic "invalid memory address or nil pointer dereference") s := rfl

/-- `reconcile` dereferences a nil pointer exactly on a nil answer, after the
fingerprint; `status.Applied[len-1]` is read only when the list is non-empty. -/
theorem reconcile_panic_iff {lib : Lib} {w : World} {md : AtlasMigrationData} {s : PassState} :
    (∃ m t, reconcile lib w md s = .error (.panic m) t) ↔
      (∃ hv, md.hash lib s.fs = .ok hv) ∧ NilAnswer lib w md := by
  unfold reconcile NilAnswer
  cases h1 : lib.render md with
  | error e => simp [liftErr, fail_apply, bind, EStateM.bind]
  | ok cfg =>
  cases h2 : md.hash lib s.fs with
  | error e => simp [liftErr, h2, fail_apply, bind, EStateM.bind, get, getThe, MonadStateOf.get,
      EStateM.get, pure, EStateM.pure]
  | ok hv =>
  simp only [liftErr, h2, bind, EStateM.bind, pure, EStateM.pure, get, getThe,
    MonadStateOf.get, EStateM.get, Except.ok.injEq, exists_eq_left', exists_const, true_and]
  rcases w.cli.status ⟨md.envName, cfg⟩ with e | _ | status
  · simp [fail_apply]
  · simp [nilDeref_apply]
  by_cases hp : status.pending = []
  · simp [hp, EStateM.pure]
  rcases w.cli.apply ⟨md.envName, cfg⟩ with e | _ | rep
  · simp [hp, fail_apply]
  · simp [hp, nilDeref_apply]
  · by_cases he : rep.error = "" <;> simp [hp, he, fail_apply, EStateM.pure]

/-- A pass ends in a panic exactly when it gets past the extraction, the
fingerprint and the change check, and the executor gives a nil answer. -/
theorem pass_panics_iff (lib : Lib) (w : World) (am : AtlasMigration) (fs : Fs) :
    (∃ m t, pass lib w am fs = .error (.panic m) t) ↔
      am.status.conditions ≠ [] ∧ ∃ md cl s hv, extractMigrationData w am ⟨am, fs, [], []⟩ = .ok (md, cl) s ∧
        md.hash lib s.fs = .ok hv ∧ ¬ (am.isReady ∧ am.isHashModified hv) ∧ NilAnswer lib w md := by
  constructor
  · rintro ⟨m, t, hp⟩
    rcases pass_cases lib w am fs with ⟨-, h⟩ | ⟨-, _, _, -, h⟩ | ⟨hc, md, cl, s, hx, h⟩
    · rw [h] at hp; cases hp
    · rw [h] at hp; cases hp
    have ham : s.am = am := (keeps_extract.of_ok hx).1
    rw [h] at hp
    rcases reconcileData_cases lib w md s with ⟨_, _, hd⟩ | ⟨_, _, _, hd⟩ |
      ⟨hv, hh, hr, ⟨_, _, hd⟩ | ⟨_, _, hd⟩ | ⟨m', hm, -⟩⟩ <;>
      try (rw [deferring_ok hd] at hp; cases hp)
    exact ⟨hc, md, cl, s, hv, hx, hh, ham ▸ hr, (reconcile_panic_iff.mp ⟨m', s, hm⟩).2⟩
  · rintro ⟨hc, md, cl, s, hv, hx, hh, hr, hn⟩
    have ham : s.am = am := (keeps_extract.of_ok hx).1
    obtain ⟨m, t, hm⟩ := reconcile_panic_iff.mpr ⟨⟨hv, hh⟩, hn⟩
    exact ⟨m, _, by rw [pass_extract_ok hc hx, deferring_error (data_panic hh (ham ▸ hr) hm)]⟩

/-- An executor that answers `Status` with neither a report nor an error. -/
def nilStatusWorld : World := { oneFileWorld with cli := ⟨fun _ => .ok none, fun _ => .ok none⟩ }

/-- An executor with revision 1 pending that answers `Apply` with neither a
report nor an error. -/
def nilApplyWorld : World :=
  { oneFileWorld with cli := ⟨fun _ => .ok (some ⟨"", [], ["1"]⟩), fun _ => .ok none⟩ }

/-- Both nil answers make the pass on `localOne` dereference a nil report. -/
theorem pass_nil_report_panics :
    (∃ t, pass okLib nilStatusWorld localOne tmpOnly =
        .error (.panic "invalid memory address or nil pointer dereference") t) ∧
      ∃ t, pass okLib nilApplyWorld localOne tmpOnly =
        .error (.panic "invalid memory address or nil pointer dereference") t :=
  ⟨⟨_, rfl⟩, ⟨_, rfl⟩⟩

end AtlasOperator.Proofs
