import AtlasOperator.Proofs.Store
import AtlasOperator.Proofs.ChangeCheck

namespace AtlasOperator.Proofs

/-- No condition, or exactly one `Ready` condition. -/
def ReadyOnly (cs : List Condition) : Prop := cs = [] ∨ ∃ c, cs = [c] ∧ c.type = "Ready"

theorem readyOnly_setStatusCondition {cs : List Condition} (h : ReadyOnly cs) {c : Condition}
    (hc : c.type = "Ready") : ReadyOnly (setStatusCondition cs c) := by
  rcases h with rfl | ⟨x, rfl, hx⟩
  · exact .inr ⟨c, rfl, hc⟩
  · have he : x.type = c.type := hx.trans hc.symm
    exact .inr ⟨{ x with status := c.status, reason := c.reason, message := c.message },
      by simp only [setStatusCondition, if_pos he], hx⟩

theorem readyOnly_empty_iff {st : AtlasMigrationStatus} (h : ReadyOnly st.conditions) :
    st.conditions = [] ↔ st.ready = none := by
  rcases h with h | ⟨c, h, hc⟩
  · simp [AtlasMigrationStatus.ready, h]
  · simp [AtlasMigrationStatus.ready, h, hc]

/-- What a pass does to the resource it read: it marks it not ready, marks it
ready with a status, or leaves it as read. -/
theorem pass_final_am (lib : Lib) (w : World) (am : AtlasMigration) (fs : Fs) :
    (∃ reason message, (PassM.final (pass lib w am fs)).am = am.setNotReady reason message) ∨
      (∃ st, (PassM.final (pass lib w am fs)).am = am.setReady st) ∨
      (PassM.final (pass lib w am fs)).am = am := by
  rcases pass_cases lib w am fs with ⟨-, h⟩ | ⟨-, err, s, hx, h⟩ | ⟨-, md, cl, s, hx, h⟩
  · rw [h]
    exact .inl ⟨_, _, rfl⟩
  · have hs : s.am = am := (keeps_extract.of_error hx).1
    rw [h, ← hs]
    exact .inl ⟨_, _, rfl⟩
  · have hs : s.am = am := (keeps_extract.of_ok hx).1
    rw [h, final_deferring, ← hs]
    rcases reconcileData_cases lib w md s with ⟨_, _, hd⟩ | ⟨_, _, _, hd⟩ |
      ⟨_, _, _, ⟨_, _, hd⟩ | ⟨_, _, hd⟩ | ⟨_, _, hd⟩⟩ <;> rw [hd]
    · exact .inl ⟨_, _, rfl⟩
    · exact .inl ⟨_, _, rfl⟩
    · exact .inl ⟨_, _, rfl⟩
    · exact .inr (.inl ⟨_, rfl⟩)
    · exact .inr (.inr rfl)

theorem readyOnly_pass (lib : Lib) (w : World) {am : AtlasMigration} (fs : Fs)
    (h : ReadyOnly am.status.conditions) :
    ReadyOnly (PassM.final (pass lib w am fs)).am.status.conditions := by
  rcases pass_final_am lib w am fs with ⟨_, _, he⟩ | ⟨_, he⟩ | he <;> rw [he]
  · exact readyOnly_setStatusCondition h rfl
  · exact readyOnly_setStatusCondition h rfl
  · exact h

/-- What a step leaves in the store: a resource as it was, a created one with an empty status,
an edited one with its new spec, or the one a pass read, with the status the pass ended with. -/
theorem mem_step {lib : Lib} {sys : System} {x : Step} {a : AtlasMigration}
    (ha : a ∈ (step lib sys x).migrations) :
    a ∈ sys.migrations ∨ (∃ am, x = .create am ∧ a = { am with status := {} }) ∨
      (∃ req spec y, x = .edit req spec ∧ y ∈ sys.migrations ∧ a = { y with spec := spec }) ∨
      ∃ req w am y, x = .reconcile req w true ∧ sys.get req = some am ∧ y ∈ sys.migrations ∧
        y.namespacedName = am.namespacedName ∧
        a = { y with status := (PassM.final (pass lib w am sys.fs)).am.status } := by
  cases x with
  | reconcile req w written =>
    simp only [step, Reconcile] at ha
    cases hg : sys.get req with
    | none =>
      rw [hg] at ha
      exact .inl ha
    | some am =>
      rw [hg, finish_migrations] at ha
      split at ha
      · rename_i hw
        subst hw
        obtain ⟨y, hy, rfl⟩ := List.mem_map.mp ha
        split
        · rename_i hn
          exact .inr (.inr (.inr ⟨req, w, am, y, rfl, hg, hy,
            hn.trans (namespacedName_pass_final lib w am sys.fs), rfl⟩))
        · exact .inl hy
      · exact .inl ha
  | create am =>
    simp only [step] at ha
    split at ha
    · exact .inl ha
    · rcases List.mem_append.mp ha with ha | ha
      · exact .inl ha
      · exact .inr (.inl ⟨am, rfl, List.mem_singleton.mp ha⟩)
  | edit req spec =>
    simp only [step] at ha
    obtain ⟨y, hy, rfl⟩ := List.mem_map.mp ha
    split
    · exact .inr (.inr (.inl ⟨req, spec, y, rfl, hy, rfl⟩))
    · exact .inl hy
  | delete req => exact .inl (List.mem_filter.mp ha).1

def AllReadyOnly (sys : System) : Prop := ∀ a ∈ sys.migrations, ReadyOnly a.status.conditions

theorem allReadyOnly_step (lib : Lib) {sys : System} (h : AllReadyOnly sys) (x : Step) :
    AllReadyOnly (step lib sys x) := fun a ha => by
  rcases mem_step ha with ha | ⟨_, -, rfl⟩ | ⟨_, _, y, -, hy, rfl⟩ | ⟨_, w, am, _, -, hg, -, -, rfl⟩
  · exact h a ha
  · exact .inl rfl
  · exact h y hy
  · exact readyOnly_pass lib w sys.fs (h am (System.get_some hg).1)

/-- Over any run from a state whose resources hold at most one condition, a `Ready` one, so do
all states' resources; so a condition list is empty exactly when there is no `Ready` condition. -/
theorem run_ready_only (lib : Lib) (sys : System) (steps : List Step) (h : AllReadyOnly sys) :
    ∀ a ∈ (run lib sys steps).migrations, ReadyOnly a.status.conditions ∧
      (a.status.conditions = [] ↔ a.status.ready = none) := by
  induction steps generalizing sys with
  | nil => exact fun a ha => ⟨h a ha, readyOnly_empty_iff (h a ha)⟩
  | cons x xs ih => exact ih _ (allReadyOnly_step lib h x)

theorem run_ready_only_requeuePre :
    AllReadyOnly (System.init tmpOnly) ∧
      ∀ a ∈ (run contentLib (System.init tmpOnly) requeuePre).migrations,
        ReadyOnly a.status.conditions ∧ (a.status.conditions = [] ↔ a.status.ready = none) :=
  have h : AllReadyOnly (System.init tmpOnly) := fun _ ha => nomatch ha
  ⟨h, run_ready_only contentLib _ requeuePre h⟩

end AtlasOperator.Proofs
