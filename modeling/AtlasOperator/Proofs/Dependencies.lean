import AtlasOperator.Proofs.Cleanup

namespace AtlasOperator.Proofs

section Watcher

variable {rw : ResourceWatcher} {n d : NamespacedName} {e : NamespacedName × NamespacedName}

theorem mem_requests : d ∈ rw.requests n ↔ (n, d) ∈ rw.edges := by
  simp [ResourceWatcher.requests]

theorem mem_watch_edges {a b : NamespacedName} :
    e ∈ (rw.watch a b).edges ↔ e ∈ rw.edges ∨ e = (a, b) := by
  unfold ResourceWatcher.watch
  split
  · exact ⟨.inl, fun h => h.elim id (· ▸ ‹_›)⟩
  · simp

theorem mem_watchRef_edges {ref : Option String} {am : AtlasMigration} :
    e ∈ (rw.watchRef ref am).edges ↔
      e ∈ rw.edges ∨ ∃ c, ref = some c ∧ e = (⟨am.ns, c⟩, am.namespacedName) := by
  cases ref <;> simp [ResourceWatcher.watchRef, mem_watch_edges]

end Watcher

/-- `d` is re-enqueued when the object `r` changes. -/
def Registered (sys : System) (d : NamespacedName) : Ref → Prop
  | .secret n => d ∈ sys.secretWatcher.requests n
  | .configMap n => d ∈ sys.configMapWatcher.requests n

theorem mem_specRefs {am : AtlasMigration} {r : Ref} :
    r ∈ specRefs am ↔
      (∃ c, am.spec.dir.configMapRef = some c ∧ r = .configMap ⟨am.ns, c⟩) ∨
      ∃ sel, (am.spec.cloud.tokenFrom.secretKeyRef = some sel ∨ am.spec.urlFrom.secretKeyRef = some sel ∨
        am.spec.credentials.passwordFrom.secretKeyRef = some sel) ∧ r = .secret ⟨am.ns, sel.name⟩ := by
  simp only [specRefs, List.mem_append, Option.mem_toList, Option.map_eq_some', List.mem_map,
    List.mem_filterMap, id, List.mem_cons, List.mem_singleton, List.not_mem_nil, or_false,
    Option.mem_def, or_and_right, exists_or, exists_eq_left, @eq_comm _ _ r]

theorem registered_watch {sys : System} {am : AtlasMigration} {d : NamespacedName} {r : Ref} :
    Registered (sys.watch am) d r ↔ Registered sys d r ∨ (d = am.namespacedName ∧ r ∈ specRefs am) := by
  rw [mem_specRefs]
  cases r with
  | secret n =>
    simp only [Registered, System.watch, mem_requests, mem_watchRef_edges, Option.map_eq_some',
      Prod.mk.injEq, Ref.secret.injEq, reduceCtorEq, and_false, exists_false, false_or,
      exists_exists_and_eq_and, or_and_right, exists_or, or_assoc]
    simp only [← and_assoc, exists_and_right, ← or_and_right, @and_comm (d = am.namespacedName)]
  | configMap n =>
    simp only [Registered, System.watch, mem_requests, mem_watchRef_edges, Prod.mk.injEq,
      Ref.configMap.injEq, reduceCtorEq, and_false, exists_false, or_false]
    simp only [← and_assoc, exists_and_right, @and_comm (d = am.namespacedName)]

/-- A pass reads only objects its resource's spec references. -/
theorem pass_reads (lib : Lib) (w : World) (am : AtlasMigration) (fs : Fs) :
    ∀ r ∈ (PassM.final (pass lib w am fs)).reads, r ∈ specRefs am := by
  rcases pass_cases lib w am fs with ⟨-, h⟩ | ⟨-, err, s, hx, h⟩ | ⟨-, md, cl, s, hx, h⟩
  · simp [h]
  · rw [h]
    exact fun r hr => ((keeps_extract.of_error hx).2.2 r hr).resolve_left (List.not_mem_nil r)
  · rw [h, final_deferring]
    intro r hr
    rw [(reconcileData_frame lib w md s).2] at hr
    exact ((keeps_extract.of_ok hx).2.2 r hr).resolve_left (List.not_mem_nil r)

theorem registered_finish {sys : System} {s : PassState} {written : Bool} {d : NamespacedName}
    {r : Ref} : Registered (sys.finish s written) d r ↔
      Registered sys d r ∨ (d = s.am.namespacedName ∧ r ∈ specRefs s.am) := by
  unfold System.finish
  cases written <;> exact registered_watch

theorem registered_reconcile {lib : Lib} {w : World} {written : Bool} {req d : NamespacedName}
    {sys : System} {r : Ref} :
    Registered (Reconcile lib w written req sys) d r ↔
      Registered sys d r ∨ ∃ am, sys.get req = some am ∧ d = req ∧ r ∈ specRefs am := by
  unfold Reconcile
  cases hg : sys.get req with
  | none => simp
  | some am =>
    obtain ⟨st, hp⟩ := pass_am lib w am sys.fs
    have hn : am.namespacedName = req := (System.get_some hg).2
    simp only [registered_finish, hp, Option.some.injEq, exists_eq_left']
    exact or_congr_right (and_congr_left fun _ => by rw [← hn]; rfl)

theorem registered_step {lib : Lib} {sys : System} {x : Step} {d : NamespacedName} {r : Ref} :
    Registered (step lib sys x) d r ↔
      Registered sys d r ∨ ∃ w written am, x = .reconcile d w written ∧ sys.get d = some am ∧
        r ∈ specRefs am := by
  cases x with
  | reconcile req w written =>
    simp only [step, registered_reconcile, Step.reconcile.injEq]
    constructor
    · rintro (h | ⟨am, hg, rfl, hr⟩)
      exacts [.inl h, .inr ⟨w, written, am, ⟨rfl, rfl, rfl⟩, hg, hr⟩]
    · rintro (h | ⟨w', written', am, ⟨rfl, rfl, rfl⟩, hg, hr⟩)
      exacts [.inl h, .inr ⟨am, hg, rfl, hr⟩]
  | create am =>
    simp only [step]
    split <;> simp [Registered]
  | edit req spec => simp [step, Registered]
  | delete req => simp [step, Registered]

theorem registered_run_of_registered {lib : Lib} {d : NamespacedName} {r : Ref} :
    ∀ (rest : List Step) (sys : System), Registered sys d r → Registered (run lib sys rest) d r
  | [], _, h => h
  | x :: rest, sys, h => registered_run_of_registered rest (step lib sys x) (registered_step.mpr (.inl h))

/-- Every object a pass reads is registered, in the watcher of its kind and the resource's
namespace, with the resource the pass was on, and stays registered whatever happens next. -/
theorem reconcile_watches_reads (lib : Lib) (w : World) (written : Bool) (req : NamespacedName)
    (sys : System) (am : AtlasMigration) (hg : sys.get req = some am) :
    ∀ r ∈ (PassM.final (pass lib w am sys.fs)).reads, ∀ rest : List Step,
      Registered (run lib (Reconcile lib w written req sys) rest) am.namespacedName r :=
  fun r hr rest => registered_run_of_registered rest _ (registered_reconcile.mpr
    (.inr ⟨am, hg, (System.get_some hg).2, pass_reads lib w am sys.fs r hr⟩))

theorem reconcile_watches_configMap :
    (⟨[bothDirs], ⟨[]⟩, ⟨[]⟩, tmpOnly⟩ : System).get bothDirs.namespacedName = some bothDirs ∧
      ∀ r ∈ (PassM.final (pass okLib oneFileWorld bothDirs tmpOnly)).reads, ∀ rest : List Step,
        Registered (run okLib (Reconcile okLib oneFileWorld true bothDirs.namespacedName
          ⟨[bothDirs], ⟨[]⟩, ⟨[]⟩, tmpOnly⟩) rest) bothDirs.namespacedName r :=
  ⟨rfl, reconcile_watches_reads okLib oneFileWorld true bothDirs.namespacedName
    ⟨[bothDirs], ⟨[]⟩, ⟨[]⟩, tmpOnly⟩ bothDirs rfl⟩

/-- Over any run, a resource is registered with an object exactly when some
`Reconcile` of the run found it with a spec referencing that object. -/
theorem registered_run (lib : Lib) (fs₀ : Fs) (d : NamespacedName) (r : Ref) :
    ∀ steps : List Step, Registered (run lib (System.init fs₀) steps) d r ↔
      ∃ i w written am, steps[i]? = some (.reconcile d w written) ∧
        (run lib (System.init fs₀) (steps.take i)).get d = some am ∧ r ∈ specRefs am := by
  intro steps
  induction steps using List.reverseRecOn with
  | nil => cases r <;> simp [run, System.init, Registered, ResourceWatcher.requests]
  | append_singleton steps x ih =>
    rw [run_append, registered_step, ih]
    constructor
    · rintro (⟨i, w, written, am, hi, hg, hr⟩ | ⟨w, written, am, rfl, hg, hr⟩)
      · have hlt : i < steps.length := (List.getElem?_eq_some_iff.mp hi).1
        exact ⟨i, w, written, am, by rw [List.getElem?_append_left hlt, hi],
          by rwa [List.take_append_of_le_length hlt.le], hr⟩
      · exact ⟨steps.length, w, written, am, by simp, by simpa using hg, hr⟩
    · rintro ⟨i, w, written, am, hi, hg, hr⟩
      rcases Nat.lt_or_ge i steps.length with hlt | hge
      · rw [List.getElem?_append_left hlt] at hi
        rw [List.take_append_of_le_length hlt.le] at hg
        exact .inl ⟨i, w, written, am, hi, hg, hr⟩
      · obtain rfl : i = steps.length := by
          have := (List.getElem?_eq_some_iff.mp hi).1
          simp only [List.length_append, List.length_singleton] at this
          omega
        simp only [List.getElem?_concat_length, Option.some.injEq, List.take_left'] at hi hg
        exact .inr ⟨w, written, am, hi, by simpa using hg, hr⟩

def urlFromS1 : AtlasMigration :=
  { name := "m", ns := "default", spec := { urlFrom := ⟨some ⟨"s1", "url"⟩⟩ } }

/-- The resource is created, reconciled, edited to take its URL from `s2`, and
reconciled again. -/
def renameSteps : List Step :=
  [.create urlFromS1, .reconcile ⟨"default", "m"⟩ oneFileWorld true,
   .edit ⟨"default", "m"⟩ { urlFrom := ⟨some ⟨"s2", "url"⟩⟩ },
   .reconcile ⟨"default", "m"⟩ oneFileWorld true]

/-- After the last pass, whose spec references only `s2`, a change to `s1`
still re-enqueues the resource. -/
theorem stale_secret_enqueues :
    ((run okLib (System.init tmpOnly) renameSteps).get ⟨"default", "m"⟩).map specRefs =
        some [.secret ⟨"default", "s2"⟩] ∧
      ⟨"default", "m"⟩ ∈ (run okLib (System.init tmpOnly) renameSteps).secretWatcher.requests
        ⟨"default", "s1"⟩ := by
  decide

end AtlasOperator.Proofs
