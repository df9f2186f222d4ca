import AtlasOperator.Proofs.Materialize
import AtlasOperator.Proofs.Store

namespace AtlasOperator

/-- Every directory sits in a directory or in the root, as in a real file
system; `Fs.parents` says it of the files. -/
def Fs.Closed (fs : Fs) : Prop := ∀ d ∈ fs.dirs, d.tail = [] ∨ d.tail ∈ fs.dirs

instance : DecidablePred Fs.Closed := fun fs => inferInstanceAs (Decidable (∀ d ∈ fs.dirs, _))

/-- Everything that exists in `fs` exists in `fs'`, seen from the same working
directory. -/
def Fs.Retains (fs fs' : Fs) : Prop :=
  fs'.cwd = fs.cwd ∧ ∀ q, fs.present q = true → fs'.present q = true

theorem Fs.Retains.refl (fs : Fs) : fs.Retains fs := ⟨rfl, fun _ h => h⟩

theorem Fs.Retains.trans {fs fs' fs'' : Fs} (h₁ : fs.Retains fs') (h₂ : fs'.Retains fs'') :
    fs.Retains fs'' :=
  ⟨h₂.1.trans h₁.1, fun q h => h₂.2 q (h₁.2 q h)⟩

namespace Proofs

section Tree

variable {fs fs' : Fs} {q r : FsPath} {p data : String}

theorem isDir_iff : fs.isDir q = true ↔ q = [] ∨ q ∈ fs.dirs := by simp [Fs.isDir]

theorem present_iff : fs.present q = true ↔ fs.isDir q = true ∨ q ∈ fs.files.map Prod.fst := by
  simp [Fs.present]

theorem isDir_of_suffix (hc : fs.Closed) : ∀ {q}, fs.isDir q = true → r <:+ q → fs.isDir r = true
  | [], _, hs => by rw [List.suffix_nil.mp hs]; exact isDir_iff.mpr (.inl rfl)
  | a :: q, hq, hs => by
    rcases List.suffix_cons_iff.mp hs with rfl | hs
    · exact hq
    · have hd : a :: q ∈ fs.dirs := (isDir_iff.mp hq).resolve_left (List.cons_ne_nil a q)
      exact isDir_of_suffix hc (isDir_iff.mpr (hc _ hd)) hs

/-- In a closed file system every ancestor of a present path is present:
nothing lies below a path where nothing exists. -/
theorem present_of_suffix (hc : fs.Closed) (hq : fs.present q = true) (hs : r <:+ q) :
    fs.present r = true := by
  rcases present_iff.mp hq with hd | hf
  · exact present_iff.mpr (.inl (isDir_of_suffix hc hd hs))
  obtain ⟨f, hm, rfl⟩ := List.mem_map.mp hf
  by_cases he : r = f.1
  · exact he ▸ hq
  have hr : r <:+ f.1.tail := by
    obtain ⟨_ | ⟨a, t⟩, v⟩ := f
    · exact absurd (List.suffix_nil.mp hs) he
    · exact (List.suffix_cons_iff.mp hs).resolve_left he
  exact present_iff.mpr (.inl (isDir_of_suffix hc (isDir_iff.mpr (fs.parents f hm)) hr))

theorem isDir_mono (hd : fs.dirs ⊆ fs'.dirs) (hq : fs.isDir q = true) : fs'.isDir q = true :=
  isDir_iff.mpr ((isDir_iff.mp hq).imp_right fun h => hd h)

theorem present_mono (hd : fs.dirs ⊆ fs'.dirs)
    (hf : fs.files.map Prod.fst ⊆ fs'.files.map Prod.fst) (hq : fs.present q = true) :
    fs'.present q = true :=
  present_iff.mpr ((present_iff.mp hq).imp (isDir_mono hd) fun h => hf h)

theorem mkdir_parent (h : fs.mkdir p = .ok fs') : fs.isDir (resolve fs.cwd p.toList).tail = true := by
  dsimp only [Fs.mkdir] at h
  split at h
  · cases h
  · split at h
    · assumption
    · cases h

theorem mkdir_closed (hc : fs.Closed) (h : fs.mkdir p = .ok fs') : fs'.Closed := by
  obtain ⟨-, hd, -⟩ := mkdir_ok h
  have hsub : fs.dirs ⊆ fs'.dirs := hd ▸ List.subset_cons_self _ _
  intro d hm
  rw [hd] at hm
  rcases List.mem_cons.mp hm with rfl | hm
  · exact isDir_iff.mp (isDir_mono hsub (mkdir_parent h))
  · exact isDir_iff.mp (isDir_mono hsub (isDir_iff.mpr (hc d hm)))

theorem mkdir_retains (h : fs.mkdir p = .ok fs') : fs.Retains fs' := by
  obtain ⟨hc, hd, hf, -⟩ := mkdir_ok h
  exact ⟨hc, fun _ => present_mono (hd ▸ List.subset_cons_self _ _) (hf ▸ List.Subset.refl _)⟩

theorem writeFile_retains (h : fs.writeFile p data = .ok fs') : fs.Retains fs' := by
  obtain ⟨hc, hd, hf⟩ := writeFile_ok h
  refine ⟨hc, fun _ => present_mono (hd ▸ List.Subset.refl _) fun x hx => ?_⟩
  rw [hf, List.map_cons, List.mem_cons]
  by_cases he : x = resolve fs.cwd p.toList
  · exact .inl he
  · obtain ⟨f, hm, rfl⟩ := List.mem_map.mp hx
    exact .inr (List.mem_map_of_mem _ (List.mem_filter.mpr ⟨hm, by simpa using he⟩))

theorem mem_removeAll_files {f : FsPath × String} :
    f ∈ (fs.removeAll p).files ↔ f ∈ fs.files ∧ ¬ resolve fs.cwd p.toList <:+ f.1 := by
  simp [Fs.removeAll, ← List.isSuffixOf_iff_suffix]

theorem removeAll_closed (hc : fs.Closed) : (fs.removeAll p).Closed := by
  intro d hm
  obtain ⟨hm, hn⟩ := mem_removeAll_dirs.mp hm
  exact (hc d hm).imp_right fun ht =>
    mem_removeAll_dirs.mpr ⟨ht, fun hs => hn (hs.trans (List.tail_suffix d))⟩

theorem removeAll_present (hq : fs.present q = true) (hs : ¬ resolve fs.cwd p.toList <:+ q) :
    (fs.removeAll p).present q = true := by
  rcases present_iff.mp hq with hd | hf
  · exact present_iff.mpr (.inl (isDir_iff.mpr
      ((isDir_iff.mp hd).imp_right fun h => mem_removeAll_dirs.mpr ⟨h, hs⟩)))
  · obtain ⟨f, hm, rfl⟩ := List.mem_map.mp hf
    exact present_iff.mpr (.inr (List.mem_map_of_mem _ (mem_removeAll_files.mpr ⟨hm, hs⟩)))

theorem absent_of_retains (hr : fs.Retains fs') {l : List Char}
    (hp : fs'.present (resolve fs'.cwd l) = false) : fs.present (resolve fs.cwd l) = false := by
  rw [← hr.1]
  cases hq : fs.present (resolve fs'.cwd l)
  · rfl
  · rw [hr.2 _ hq] at hp
    cases hp

end Tree

/-- What a pass that started at `fs₀` has kept of it in `fs`: everything that existed still
exists, the files of `K` hold their contents, and every directory sits in a directory. -/
structure Intact (fs₀ : Fs) (K : List (FsPath × String)) (fs : Fs) : Prop where
  closed : fs.Closed
  retains : fs₀.Retains fs
  files : K ⊆ fs.files

/-- A cleanup function that removes nothing that existed at `fs₀`. -/
def Fresh (fs₀ : Fs) : CleanUp → Prop
  | .none => True
  | .removeAll dir => fs₀.present (resolve fs₀.cwd dir.toList) = false

section Intact

variable {fs₀ fs fs' : Fs} {K : List (FsPath × String)} {p data : String}

theorem Intact.refl (hc : fs.Closed) (hK : K ⊆ fs.files) : Intact fs K fs := ⟨hc, .refl fs, hK⟩

theorem Intact.trans (h₁ : Intact fs₀ K fs) (h₂ : Intact fs K fs') : Intact fs₀ K fs' :=
  ⟨h₂.closed, h₁.retains.trans h₂.retains, h₂.files⟩

theorem Intact.mkdir (hs : Intact fs₀ K fs) (h : fs.mkdir p = .ok fs') : Intact fs₀ K fs' :=
  ⟨mkdir_closed hs.closed h, hs.retains.trans (mkdir_retains h), (mkdir_ok h).2.2.1 ▸ hs.files⟩

theorem Intact.writeFile (hs : Intact fs₀ K fs) (h : fs.writeFile p data = .ok fs')
    (hk : resolve fs.cwd p.toList ∉ K.map Prod.fst) : Intact fs₀ K fs' := by
  obtain ⟨-, hd, hf⟩ := writeFile_ok h
  refine ⟨fun d hm => ?_, hs.retains.trans (writeFile_retains h), fun f hm => ?_⟩
  · rw [hd] at hm ⊢
    exact hs.closed d hm
  · rw [hf]
    have hne : f.1 ≠ resolve fs.cwd p.toList := fun he => hk (he ▸ List.mem_map_of_mem Prod.fst hm)
    exact List.mem_cons_of_mem _ (List.mem_filter.mpr ⟨hs.files hm, by simpa using hne⟩)

theorem Intact.removeAll (hs : Intact fs₀ K fs) (h0 : fs₀.Closed) (hK : K ⊆ fs₀.files)
    (hp : fs₀.present (resolve fs₀.cwd p.toList) = false) : Intact fs₀ K (fs.removeAll p) := by
  have hn : ∀ q, fs₀.present q = true → ¬ resolve fs.cwd p.toList <:+ q := fun q hq hsub => by
    rw [hs.retains.1] at hsub
    rw [present_of_suffix h0 hq hsub] at hp
    cases hp
  exact ⟨removeAll_closed hs.closed,
    ⟨hs.retains.1, fun q hq => removeAll_present (hs.retains.2 q hq) (hn q hq)⟩,
    fun f hm => mem_removeAll_files.mpr
      ⟨hs.files hm, hn f.1 (present_iff.mpr (.inr (List.mem_map_of_mem _ (hK hm))))⟩⟩

theorem Intact.cleanUp (hs : Intact fs₀ K fs) (h0 : fs₀.Closed) (hK : K ⊆ fs₀.files)
    {cl : CleanUp} (hcl : Fresh fs₀ cl) : Intact fs₀ K (cl.run fs) := by
  cases cl with
  | none => exact hs
  | removeAll dir => exact hs.removeAll h0 hK hcl

end Intact

/-- From a state whose file system satisfies `I`, `x` keeps `I` however it
ends, a Go error included, and what it returns satisfies `Q`. -/
def KeepsFs {α : Type} (I : Fs → Prop) (Q : α → Prop) (x : PassM α) : Prop :=
  ∀ s, I s.fs → I (PassM.final (x s)).fs ∧ ∀ a t, x s = .ok a t → Q a

section KeepsFs

variable {α β : Type} {I : Fs → Prop} {Q : α → Prop} {R : β → Prop} {x : PassM α}
  {f : α → PassM β}

theorem KeepsFs.bind (hx : KeepsFs I Q x) (hf : ∀ a, Q a → KeepsFs I R (f a)) :
    KeepsFs I R (x >>= f) := by
  intro s hs
  have hx' := hx s hs
  cases h : x s with
  | ok a u =>
    rw [h] at hx'
    rw [bind_ok h]
    exact hf a (hx'.2 a u rfl) u hx'.1
  | error e u =>
    rw [h] at hx'
    rw [bind_error h]
    exact ⟨hx'.1, fun _ _ h => nomatch h⟩

theorem keepsFs_pure {a : α} (h : Q a) : KeepsFs I Q (pure a) :=
  fun _ hs => ⟨hs, fun _ _ he => (pure_eq_ok he).1 ▸ h⟩

theorem keepsFs_fail (e : Err) : KeepsFs I Q (fail e : PassM α) :=
  fun _ hs => ⟨hs, fun _ _ he => nomatch he⟩

theorem keepsFs_recordRead (r : Ref) : KeepsFs I (fun _ => True) (recordRead r) :=
  fun _ hs => ⟨hs, fun _ _ _ => trivial⟩

theorem keepsFs_of_sameFs (hx : Keeps SameFs x) : KeepsFs I (fun _ => True) x :=
  fun s hs => ⟨by rw [(hx s).1]; exact hs, fun _ _ _ => trivial⟩

end KeepsFs

/-- The maps a pass on `am` can write out: its local directory, or a config
map of the cluster. -/
def MapOf (w : World) (am : AtlasMigration) (m : GoMap) : Prop :=
  am.spec.dir.«local» = some m ∨ ∃ n, w.configMap n = .ok m

section Extract

variable {I : Fs → Prop} {C : CleanUp → Prop} {w : World} {am : AtlasMigration}

theorem keepsFs_createTmpDirFromCfgMap {ns c : String}
    (hc : ∀ m, w.configMap ⟨ns, c⟩ = .ok m → KeepsFs I (fun r => C r.2) (createTmpDirFromMap w m)) :
    KeepsFs I (fun r => C r.2) (createTmpDirFromCfgMap w ns c) :=
  (keepsFs_recordRead _).bind fun _ _ => by
    split
    · exact keepsFs_fail _
    · exact hc _ ‹_›

variable (hM : ∀ m, MapOf w am m → KeepsFs I (fun r => C r.2) (createTmpDirFromMap w m))
include hM

theorem keepsFs_extractConfigMapDir (hn : C .none) :
    KeepsFs I (fun r => C r.2) (extractConfigMapDir w am) := by
  unfold extractConfigMapDir
  split
  · exact (keepsFs_createTmpDirFromCfgMap fun m h => hM m (.inr ⟨_, h⟩)).bind
      fun ⟨_, _⟩ hcl => keepsFs_pure hcl
  · exact keepsFs_pure hn

theorem keepsFs_extractLocalDir {mig : Option Migration} {cl : CleanUp} (hcl : C cl) :
    KeepsFs I (fun r => C r.2) (extractLocalDir w am mig cl) := by
  unfold extractLocalDir
  split
  · rename_i m hl
    split
    · exact keepsFs_fail _
    · exact (hM m (.inl hl)).bind fun ⟨_, _⟩ hcl => keepsFs_pure hcl
  · exact keepsFs_pure hcl

theorem keepsFs_extractMigrationData (hn : C .none) :
    KeepsFs I (fun r => C r.2) (extractMigrationData w am) :=
  (keepsFs_of_sameFs sameFs_extractURL).bind fun _ _ =>
    (keepsFs_extractConfigMapDir hM hn).bind fun ⟨_, _⟩ hcl =>
      (keepsFs_extractLocalDir hM hcl).bind fun ⟨_, _⟩ hcl =>
        (keepsFs_of_sameFs sameFs_extractCloud).bind fun _ _ => keepsFs_pure hcl

/-- A pass keeps `I` when the cleanup functions `C` allows keep it: the data part leaves the
file system alone, and the deferred cleanup runs on what the extraction left. -/
theorem pass_keepsFs (lib : Lib) {fs : Fs} (hI : I fs) (hn : C .none)
    (hC : ∀ fs cl, I fs → C cl → I (cl.run fs)) : I (PassM.final (pass lib w am fs)).fs := by
  have hx := keepsFs_extractMigrationData hM hn ⟨am, fs, [], []⟩ hI
  rcases pass_cases lib w am fs with ⟨-, h⟩ | ⟨-, err, s, he, h⟩ | ⟨-, md, cl, s, he, h⟩
  · rw [h]
    exact hI
  · rw [he] at hx
    rw [h]
    exact hx.1
  · rw [he] at hx
    rw [h, final_deferring, (reconcileData_frame lib w md s).1]
    exact hC _ _ hx.1 (hx.2 _ _ rfl)

end Extract

/-- The local directory of a spec, if any, has plain file names for keys. -/
def PlainLocal (spec : AtlasMigrationSpec) : Prop := ∀ m ∈ spec.dir.«local», PlainKeys m

instance : DecidablePred PlainLocal := fun spec => Option.decidableForallMem spec.dir.«local»

/-- Every config map the cluster answers with has plain file names for keys,
as the API server requires of config map keys. -/
def PlainConfigMaps (w : World) : Prop := ∀ n m, w.configMap n = .ok m → PlainKeys m

theorem plainKeys_of_mapOf {w : World} {am : AtlasMigration} {m : GoMap} (hl : PlainLocal am.spec)
    (hc : PlainConfigMaps w) (hm : MapOf w am m) : PlainKeys m :=
  hm.elim (hl m) fun ⟨n, h⟩ => hc n m h

section Writes

variable {fs₀ : Fs} {K : List (FsPath × String)} {w : World} {p : String}

theorem mkdirTempLoop_mkdir {fs fs' : Fs} {t : TempNames} {pre : String} :
    ∀ {n k : Nat}, mkdirTempLoop fs t pre n k = .ok (p, fs') → fs.mkdir p = .ok fs'
  | _, 0, h => by simp [mkdirTempLoop] at h
  | n, k + 1, h => by
    dsimp only [mkdirTempLoop] at h
    split at h
    · cases h
      assumption
    · split at h
      · exact mkdirTempLoop_mkdir h
      · split at h <;> cases h

theorem tempDir_intact (t : TempNames) :
    KeepsFs (Intact fs₀ K) (fun p => Fresh fs₀ (.removeAll p) ∧ p ≠ "") (onFs (tempDir · t)) := by
  intro s hs
  simp only [onFs]
  split
  · rename_i p fs₁ ht
    obtain ⟨-, -, -, hp, hne⟩ := tempDir_ok ht
    refine ⟨hs.mkdir (mkdirTempLoop_mkdir ht), fun _ _ h => ?_⟩
    cases h
    exact ⟨absent_of_retains hs.retains hp, hne⟩
  · exact ⟨hs, fun _ _ h => nomatch h⟩

variable (h0 : fs₀.Closed) (hK : K ⊆ fs₀.files)
include h0 hK

theorem join_not_mem_files (hp : Fresh fs₀ (.removeAll p)) (hne : p ≠ "") {k : String}
    (hk : plainElem k.toList) : resolve fs₀.cwd (filepathJoin p k).toList ∉ K.map Prod.fst := by
  rw [resolve_join_plain fs₀.cwd hne hk]
  intro hm
  obtain ⟨f, hf, he⟩ := List.mem_map.mp hm
  have hq : fs₀.present (k.toList :: resolve fs₀.cwd p.toList) = true :=
    present_iff.mpr (.inr (he ▸ List.mem_map_of_mem _ (hK hf)))
  exact Bool.eq_false_iff.mp hp (present_of_suffix h0 hq (List.suffix_cons _ _))

theorem writeEntries_intact (hp : Fresh fs₀ (.removeAll p)) :
    ∀ es : List (String × String),
      (∀ e ∈ es, resolve fs₀.cwd (filepathJoin p e.1).toList ∉ K.map Prod.fst) →
      KeepsFs (Intact fs₀ K) (fun _ => True) (writeEntries p es)
  | [], _ => keepsFs_pure trivial
  | (k, v) :: rest, hw => fun s hs => by
    simp only [writeEntries]
    split
    · rename_i fs₁ hf
      exact writeEntries_intact hp rest (fun e he => hw e (List.mem_cons_of_mem _ he)) _
        (hs.writeFile hf (by rw [hs.retains.1]; exact hw (k, v) (List.mem_cons_self _ _)))
    · exact ⟨hs.removeAll h0 hK hp, fun _ _ h => nomatch h⟩

/-- `createTmpDirFromMap` keeps `fs₀` and `K` intact however it ends, and its cleanup removes
nothing of `fs₀`, when `K` is empty or the map's keys are plain file names. -/
theorem createTmpDirFromMap_intact {m : GoMap} (hm : K = [] ∨ PlainKeys m) :
    KeepsFs (Intact fs₀ K) (fun r => Fresh fs₀ r.2) (createTmpDirFromMap w m) :=
  (tempDir_intact w.temp).bind fun p ⟨hp, hne⟩ =>
    (writeEntries_intact h0 hK hp _ fun e he => hm.elim (fun h => by simp [h])
      fun h => join_not_mem_files h0 hK hp hne (h e ((w.iter.perm m).subset he))).bind
      fun _ _ => keepsFs_pure hp

end Writes

/-- A pass keeps the file system it starts on intact: the only directory it
removes is the one its extraction made, by the deferred cleanup function. -/
theorem pass_intact (lib : Lib) (w : World) (am : AtlasMigration) {fs : Fs}
    {K : List (FsPath × String)} (h0 : fs.Closed) (hK : K ⊆ fs.files)
    (hm : K = [] ∨ PlainLocal am.spec ∧ PlainConfigMaps w) :
    Intact fs K (PassM.final (pass lib w am fs)).fs :=
  pass_keepsFs (fun _ hmo => createTmpDirFromMap_intact h0 hK
      (hm.imp_right fun ⟨hl, hc⟩ => plainKeys_of_mapOf hl hc hmo))
    lib (.refl h0 hK) trivial fun _ _ hs hcl => hs.cleanUp h0 hK hcl

/-- The maps a step brings in have plain file names for keys: the config maps
of a pass's cluster, the local directory of a created or edited spec. -/
def PlainStep : Step → Prop
  | .reconcile _ w _ => PlainConfigMaps w
  | .create am => PlainLocal am.spec
  | .edit _ spec => PlainLocal spec
  | .delete _ => True

/-- Every stored spec's local directory has plain file names for keys. -/
def PlainStore (sys : System) : Prop := ∀ a ∈ sys.specs, PlainLocal a.2

theorem plainStore_step {lib : Lib} {sys : System} {x : Step} (hs : PlainStore sys)
    (hx : PlainStep x) : PlainStore (step lib sys x) := by
  intro a ha
  rw [specs_step] at ha
  cases x with
  | reconcile => exact hs a ha
  | create am =>
    simp only [SpecStore.step] at ha
    split at ha
    · exact hs a ha
    · rcases List.mem_append.mp ha with ha | ha
      · exact hs a ha
      · rw [List.mem_singleton.mp ha]
        exact hx
  | edit req spec =>
    simp only [SpecStore.step] at ha
    obtain ⟨b, hb, rfl⟩ := List.mem_map.mp ha
    split
    · exact hx
    · exact hs b hb
  | delete req => exact hs a (List.mem_filter.mp ha).1

theorem step_fs (lib : Lib) (sys : System) (x : Step) :
    (step lib sys x).fs = sys.fs ∨ ∃ req w written am, x = .reconcile req w written ∧
      sys.get req = some am ∧ (step lib sys x).fs = (PassM.final (pass lib w am sys.fs)).fs := by
  cases x with
  | reconcile req w written =>
    simp only [step, Reconcile]
    split
    · exact .inl rfl
    · exact .inr ⟨req, w, written, _, rfl, ‹_›, finish_fs ..⟩
  | create am =>
    simp only [step]
    split <;> exact .inl rfl
  | edit | delete => exact .inl rfl

theorem step_intact (lib : Lib) {sys : System} {K : List (FsPath × String)} (x : Step)
    (h0 : sys.fs.Closed) (hK : K ⊆ sys.fs.files) (hm : K = [] ∨ PlainStore sys ∧ PlainStep x) :
    Intact sys.fs K (step lib sys x).fs := by
  rcases step_fs lib sys x with h | ⟨req, w, written, am, rfl, hg, h⟩ <;> rw [h]
  · exact .refl h0 hK
  · exact pass_intact lib w am h0 hK (hm.imp_right fun ⟨hs, hw⟩ =>
      ⟨hs _ (List.mem_map_of_mem _ (System.get_some hg).1), hw⟩)

theorem run_intact (lib : Lib) {K : List (FsPath × String)} :
    ∀ (sys : System) (steps : List Step), sys.fs.Closed → K ⊆ sys.fs.files →
      (K = [] ∨ PlainStore sys ∧ ∀ x ∈ steps, PlainStep x) → Intact sys.fs K (run lib sys steps).fs
  | _, [], h0, hK, _ => .refl h0 hK
  | sys, x :: xs, h0, hK, hm =>
    have h₁ := step_intact lib x h0 hK
      (hm.imp_right fun ⟨hs, hx⟩ => ⟨hs, hx x (List.mem_cons_self _ _)⟩)
    h₁.trans (run_intact lib (step lib sys x) xs h₁.closed h₁.files
      (hm.imp_right fun ⟨hs, hx⟩ => ⟨plainStore_step hs (hx x (List.mem_cons_self _ _)),
        fun y hy => hx y (List.mem_cons_of_mem _ hy)⟩))

/-- Over any run from a file system whose directories sit in directories, nothing that exists
at the start is ever removed, and the directories keep sitting in directories. -/
theorem run_keeps_present (lib : Lib) (sys : System) (steps : List Step) (h0 : sys.fs.Closed) :
    (run lib sys steps).fs.Closed ∧
      ∀ q, sys.fs.present q = true → (run lib sys steps).fs.present q = true :=
  have h := run_intact lib sys steps h0 (List.nil_subset _) (.inl rfl)
  ⟨h.closed, h.retains.2⟩

def tmpWithFile : Fs := ⟨[], [["tmp".toList]], [(["notes.txt".toList, "tmp".toList], "keep")], by decide⟩

theorem run_keeps_present_bothDirs :
    (System.init tmpWithFile).fs.Closed ∧ (run okLib (System.init tmpWithFile) bothDirsSteps).fs.Closed ∧
      ∀ q, (System.init tmpWithFile).fs.present q = true →
        (run okLib (System.init tmpWithFile) bothDirsSteps).fs.present q = true :=
  ⟨by decide, run_keeps_present okLib (System.init tmpWithFile) bothDirsSteps (by decide)⟩

/-- Over any run from such a file system in which every local directory and config map has
plain file names for keys, every file that exists at the start keeps its content. -/
theorem run_keeps_files (lib : Lib) (sys : System) (steps : List Step) (h0 : sys.fs.Closed)
    (hs : PlainStore sys) (hx : ∀ x ∈ steps, PlainStep x) :
    sys.fs.files ⊆ (run lib sys steps).fs.files :=
  (run_intact lib sys steps h0 (List.Subset.refl _) (.inr ⟨hs, hx⟩)).files

theorem run_keeps_files_bothDirs :
    (System.init tmpWithFile).fs.Closed ∧ PlainStore (System.init tmpWithFile) ∧
      (∀ x ∈ bothDirsSteps, PlainStep x) ∧
      (System.init tmpWithFile).fs.files ⊆ (run okLib (System.init tmpWithFile) bothDirsSteps).fs.files := by
  have hs : PlainStore (System.init tmpWithFile) := fun _ h => nomatch h
  have hx : ∀ x ∈ bothDirsSteps, PlainStep x := by
    intro x hx
    simp only [bothDirsSteps, List.mem_cons, List.mem_singleton, List.not_mem_nil, or_false] at hx
    rcases hx with rfl | rfl | rfl
    · exact (by decide : PlainLocal bothDirs.spec)
    all_goals
      intro n m h
      cases h
      decide
  exact ⟨by decide, hs, hx, run_keeps_files okLib _ _ (by decide) hs hx⟩

end Proofs

end AtlasOperator
