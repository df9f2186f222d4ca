import AtlasOperator.Proofs.Status
import AtlasOperator.Proofs.DirURL

namespace AtlasOperator.Proofs

theorem fingerprint_eq_some {lib : Lib} {w : World} {am : AtlasMigration} {fs : Fs}
    {r : Except Err String} (h : fingerprint lib w am fs = some r) :
    ∃ md cl s, extractMigrationData w am ⟨am, fs, [], []⟩ = .ok (md, cl) s ∧ md.hash lib s.fs = r := by
  unfold fingerprint at h
  split at h
  · exact ⟨_, _, _, ‹_›, Option.some.inj h⟩
  · cases h

/-- When the fingerprint of the extracted data fails, the pass records no event
and returns an empty result with no error. -/
theorem pass_hash_error_silent {lib : Lib} {w : World} {am : AtlasMigration} {fs : Fs} {err : Err}
    (hc : am.status.conditions ≠ []) (hf : fingerprint lib w am fs = some (.error err)) :
    ∃ t, pass lib w am fs = .ok ({}, none) t ∧ t.events = [] ∧ t.am.status.ready = some .false := by
  obtain ⟨md, cl, s, hx, hh⟩ := fingerprint_eq_some hf
  have hs := keeps_extract.of_ok hx
  exact ⟨{ s with am := s.am.setNotReady "CalculatingHash" err.msg, fs := cl.run s.fs },
    by rw [pass_extract_ok hc hx, deferring_ok (data_hash_error hh)], hs.2.1, by simp⟩

def percentTmp : Fs := ⟨[], [["a%zz".toList, "tmp".toList], ["tmp".toList]], [], by simp⟩

def percentWorld : World := { oneFileWorld with temp := ⟨"/tmp/a%zz", fun n => toString n⟩ }

theorem pass_hash_error_at_percent :
    localOne.status.conditions ≠ [] ∧
      urlParse (bytesOf "file:///tmp/a%zz/migrations0") = .error (.escape (bytesOf "%zz")) ∧
      fingerprint urlParseLib percentWorld localOne percentTmp =
        some (.error ⟨"parse file:///tmp/a%zz/migrations0", false⟩) ∧
      ∃ t, pass urlParseLib percentWorld localOne percentTmp = .ok ({}, none) t ∧ t.events = [] ∧
        t.am.status.ready = some .false :=
  ⟨by decide, rfl, rfl, pass_hash_error_silent (by decide) rfl⟩

/-- The pass on `am` over `fs` made a call that returned the Go error `e`: extraction, or
`r.reconcile` after the fingerprint and the change check. -/
def FailedWith (lib : Lib) (w : World) (am : AtlasMigration) (fs : Fs) (e : Err) : Prop :=
  am.status.conditions ≠ [] ∧
    ((∃ s, extractMigrationData w am ⟨am, fs, [], []⟩ = .error (.err e) s) ∨
      ∃ md cl s hv, extractMigrationData w am ⟨am, fs, [], []⟩ = .ok (md, cl) s ∧
        md.hash lib s.fs = .ok hv ∧ ¬ (am.isReady ∧ am.isHashModified hv) ∧
        reconcile lib w md s = .error (.err e) s)

section Law

variable {lib : Lib} {w : World} {am : AtlasMigration} {fs : Fs} {e : Err}
  {md md' : AtlasMigrationData} {cl : CleanUp} {s : PassState} {hv : String} {st : AtlasMigrationStatus}

/-- The pass on the extracted `md` got past the fingerprint and the change
check to `r.reconcile`, which did not panic. -/
def Reached (lib : Lib) (w : World) (am : AtlasMigration) (md : AtlasMigrationData)
    (s : PassState) : Prop :=
  ∃ hv, md.hash lib s.fs = .ok hv ∧ ¬ (am.isReady ∧ am.isHashModified hv) ∧
    ∀ m, reconcile lib w md s ≠ .error (.panic m) s

theorem FailedWith.reached (h : FailedWith lib w am fs e)
    (hx : extractMigrationData w am ⟨am, fs, [], []⟩ = .ok (md, cl) s) : Reached lib w am md s := by
  obtain ⟨-, ⟨s', hx'⟩ | ⟨md', cl', s', hv, hx', hh, hr, hc⟩⟩ := h <;> rw [hx] at hx'
  · cases hx'
  · cases hx'
    exact ⟨hv, hh, hr, fun m hm => by rw [hc] at hm; cases hm⟩

theorem ReconcileReturned.reached (h : ReconcileReturned lib w am fs md' hv st)
    (hx : extractMigrationData w am ⟨am, fs, [], []⟩ = .ok (md, cl) s) : Reached lib w am md s := by
  obtain ⟨rfl, hh, hr, hc⟩ := h.of_extract hx
  exact ⟨hv, hh, hr, fun m hm => by rw [hc] at hm; cases hm⟩

/-- The events of a pass: one warning, with `result(e)` returned, when a call failed with `e`;
one `Applied` event when `r.reconcile` returned; none otherwise. -/
theorem pass_events (lib : Lib) (w : World) (am : AtlasMigration) (fs : Fs) :
    (∃ e, FailedWith lib w am fs e ∧ (PassM.final (pass lib w am fs)).events = [errEvent e] ∧
      pass lib w am fs = .ok (lib.result e) (PassM.final (pass lib w am fs))) ∨
    (∃ md hv st, ReconcileReturned lib w am fs md hv st ∧
      (PassM.final (pass lib w am fs)).events = [appliedEvent st] ∧
      pass lib w am fs = .ok ({}, none) (PassM.final (pass lib w am fs))) ∨
    ((∀ e, ¬ FailedWith lib w am fs e) ∧ (∀ md hv st, ¬ ReconcileReturned lib w am fs md hv st) ∧
      (PassM.final (pass lib w am fs)).events = []) := by
  rcases pass_cases lib w am fs with ⟨hc, h⟩ | ⟨hc, err, s, hx, h⟩ | ⟨hc, md, cl, s, hx, h⟩
  · rw [h]
    exact .inr (.inr ⟨fun _ hf => hf.1 hc, fun _ _ _ hr => hr.1 hc, rfl⟩)
  · rw [h]
    exact .inl ⟨err, ⟨hc, .inl ⟨s, hx⟩⟩, by simp [(keeps_extract.of_error hx).2.1], rfl⟩
  have hs := keeps_extract.of_ok hx
  have ham : s.am = am := hs.1
  have silent : ¬ Reached lib w am md s → (PassM.final (pass lib w am fs)).events = [] →
      (∀ e, ¬ FailedWith lib w am fs e) ∧ (∀ md hv st, ¬ ReconcileReturned lib w am fs md hv st) ∧
        (PassM.final (pass lib w am fs)).events = [] :=
    fun hn he => ⟨fun _ hf => hn (hf.reached hx), fun _ _ _ hr => hn (hr.reached hx), he⟩
  rcases reconcileData_cases lib w md s with ⟨err, hh, hd⟩ | ⟨hv, hh, hr, hd⟩ |
    ⟨hv, hh, hr, ⟨err, hx', hd⟩ | ⟨st, hx', hd⟩ | ⟨m, hx', hd⟩⟩
  · refine .inr (.inr (silent (fun ⟨_, hh', _⟩ => ?_) (by simp [h, deferring_ok hd, hs.2.1])))
    rw [hh] at hh'
    cases hh'
  · refine .inr (.inr (silent (fun ⟨_, hh', hr', _⟩ => ?_) (by simp [h, deferring_ok hd, hs.2.1])))
    rw [hh] at hh'
    cases hh'
    exact hr' (ham ▸ hr)
  · exact .inl ⟨err, ⟨hc, .inr ⟨md, cl, s, hv, hx, hh, ham ▸ hr, hx'⟩⟩,
      by simp [h, deferring_ok hd, hs.2.1], by rw [h, deferring_ok hd]; rfl⟩
  · exact .inr (.inl ⟨md, hv, st, ⟨hc, cl, s, hx, hh, ham ▸ hr, hx'⟩,
      by simp [h, deferring_ok hd, hs.2.1], by rw [h, deferring_ok hd]; rfl⟩)
  · exact .inr (.inr (silent (fun ⟨_, _, _, hp⟩ => hp m hx') (by simp [h, deferring_error hd, hs.2.1])))

end Law

end AtlasOperator.Proofs
