import AtlasOperator.Proofs.Files

namespace AtlasOperator.Proofs

def SameFs (s t : PassState) : Prop := t.fs = s.fs

instance : IsRefl PassState SameFs := ⟨fun _ => rfl⟩

instance : IsTrans PassState SameFs := ⟨fun _ _ _ h₁ h₂ => h₂.trans h₁⟩

theorem shrinks_of_sameFs {s t : PassState} (h : SameFs s t) : Shrinks s t :=
  ⟨by rw [h], by rw [h]; exact List.Subset.refl _⟩

theorem shrinks_reads (s : PassState) (r : Ref) : Shrinks s { s with reads := s.reads ++ [r] } :=
  ⟨rfl, List.Subset.refl _⟩

/-- The specs under which `extractMigrationData` can fail after materializing
a directory. -/
def CanFailAfterDir (am : AtlasMigration) : Prop :=
  (am.spec.dir.configMapRef.isSome ∧ am.spec.dir.«local».isSome) ∨
    ((am.spec.dir.configMapRef.isSome ∨ am.spec.dir.«local».isSome) ∧
      am.spec.cloud.tokenFrom.secretKeyRef.isSome)

section Extract

variable {w : World} {am : AtlasMigration} {s t : PassState} {e : Exit}
  {mig mig' : Option Migration} {cl cl' : CleanUp}

theorem sameFs_extractURL : Keeps SameFs (extractURL w am) :=
  keeps_extractURL (fun _ _ _ => rfl)

theorem sameFs_extractCloud : Keeps SameFs (extractCloud w am) :=
  keeps_extractCloud (fun _ _ _ => rfl)

theorem extractCloud_error (h : extractCloud w am s = .error e t) :
    am.spec.cloud.tokenFrom.secretKeyRef.isSome := by
  cases hk : am.spec.cloud.tokenFrom.secretKeyRef
  · simp [extractCloud, hk, pure, EStateM.pure] at h
  · rfl

theorem createTmpDirFromCfgMap_ok {ns c d : String}
    (h : createTmpDirFromCfgMap w ns c s = .ok (d, cl) t) : Shrinks s { t with fs := cl.run t.fs } := by
  obtain ⟨_, s₁, h₁, h₂⟩ := bind_eq_ok h
  cases h₁
  cases hc : w.configMap ⟨ns, c⟩ <;> simp only [hc] at h₂
  · cases h₂
  · exact IsTrans.trans _ _ _ (shrinks_reads s _) (createTmpDirFromMap_ok h₂)

theorem createTmpDirFromCfgMap_error {ns c : String}
    (h : createTmpDirFromCfgMap w ns c s = .error e t) : Shrinks s t := by
  rcases bind_eq_error h with h₁ | ⟨_, s₁, h₁, h₂⟩
  · cases h₁
  cases h₁
  cases hc : w.configMap ⟨ns, c⟩ <;> simp only [hc] at h₂
  · cases h₂; exact shrinks_reads s _
  · exact IsTrans.trans _ _ _ (shrinks_reads s _) (createTmpDirFromMap_error h₂)

theorem extractConfigMapDir_ok (h : extractConfigMapDir w am s = .ok (mig, cl) t) :
    (am.spec.dir.configMapRef = none ∧ mig = none ∧ cl = .none ∧ t = s) ∨
      (am.spec.dir.configMapRef.isSome ∧ mig.isSome ∧ Shrinks s { t with fs := cl.run t.fs }) := by
  cases hc : am.spec.dir.configMapRef <;> simp only [extractConfigMapDir, hc] at h
  · obtain ⟨he, rfl⟩ := pure_eq_ok h
    cases he
    exact .inl ⟨rfl, rfl, rfl, rfl⟩
  · obtain ⟨⟨d, cl₁⟩, s₁, h₁, h₂⟩ := bind_eq_ok h
    obtain ⟨he, rfl⟩ := pure_eq_ok h₂
    cases he
    exact .inr ⟨rfl, rfl, createTmpDirFromCfgMap_ok h₁⟩

theorem extractConfigMapDir_error (h : extractConfigMapDir w am s = .error e t) : Shrinks s t := by
  cases hc : am.spec.dir.configMapRef <;> simp only [extractConfigMapDir, hc] at h
  · cases h
  · rcases bind_eq_error h with h₁ | ⟨_, _, -, h₂⟩
    · exact createTmpDirFromCfgMap_error h₁
    · cases h₂

theorem extractLocalDir_ok (h : extractLocalDir w am mig cl s = .ok (mig', cl') t) :
    (am.spec.dir.«local» = none ∧ mig' = mig ∧ cl' = cl ∧ t = s) ∨
      (am.spec.dir.«local».isSome ∧ mig = none ∧ Shrinks s { t with fs := cl'.run t.fs }) := by
  cases hl : am.spec.dir.«local» <;> simp only [extractLocalDir, hl] at h
  · obtain ⟨he, rfl⟩ := pure_eq_ok h
    cases he
    exact .inl ⟨rfl, rfl, rfl, rfl⟩
  · cases mig <;> simp only [Option.isSome_none, Option.isSome_some, if_true, if_false] at h
    · obtain ⟨⟨d, cl₁⟩, s₁, h₁, h₂⟩ := bind_eq_ok h
      obtain ⟨he, rfl⟩ := pure_eq_ok h₂
      cases he
      exact .inr ⟨rfl, rfl, createTmpDirFromMap_ok h₁⟩
    · cases h

theorem extractLocalDir_error (h : extractLocalDir w am mig cl s = .error e t) :
    (am.spec.dir.«local».isSome ∧ mig.isSome ∧ t = s) ∨ (mig = none ∧ Shrinks s t) := by
  cases hl : am.spec.dir.«local» <;> simp only [extractLocalDir, hl] at h
  · cases h
  · cases mig <;> simp only [Option.isSome_none, Option.isSome_some, if_true, if_false] at h
    · rcases bind_eq_error h with h₁ | ⟨_, _, -, h₂⟩
      · exact .inr ⟨rfl, createTmpDirFromMap_error h₁⟩
      · cases h₂
    · cases h
      exact .inl ⟨rfl, rfl, rfl⟩

/-- When `extractMigrationData` succeeds, the cleanup function it returns
removes every directory it made. -/
theorem extract_ok_shrinks {md : AtlasMigrationData}
    (h : extractMigrationData w am s = .ok (md, cl) t) : Shrinks s { t with fs := cl.run t.fs } := by
  obtain ⟨_, s₁, h₁, h₂⟩ := bind_eq_ok h
  obtain ⟨⟨mig, cl₁⟩, s₂, h₃, h₄⟩ := bind_eq_ok h₂
  obtain ⟨⟨mig₂, cl₂⟩, s₃, h₅, h₆⟩ := bind_eq_ok h₄
  obtain ⟨_, s₄, h₇, h₈⟩ := bind_eq_ok h₆
  obtain ⟨he, rfl⟩ := pure_eq_ok h₈
  cases (Prod.mk.inj he).2
  have e₁ : SameFs s s₁ := sameFs_extractURL.of_ok h₁
  have e₄ : SameFs s₃ t := sameFs_extractCloud.of_ok h₇
  have hfs : { t with fs := cl.run t.fs } = { t with fs := cl.run s₃.fs } := by rw [e₄]
  rw [hfs]
  rcases extractConfigMapDir_ok h₃ with ⟨-, rfl, rfl, rfl⟩ | ⟨-, hm, hs₂⟩ <;>
    rcases extractLocalDir_ok h₅ with ⟨-, rfl, rfl, rfl⟩ | ⟨-, hm', hs₃⟩
  · exact shrinks_of_sameFs e₁
  · exact IsTrans.trans _ _ _ (shrinks_of_sameFs e₁) hs₃
  · exact IsTrans.trans _ _ _ (shrinks_of_sameFs e₁) hs₂
  · simp [hm'] at hm

/-- When `extractMigrationData` fails, a directory it made is left only for a
spec under which it can fail after making one. -/
theorem extract_error_shrinks (h : extractMigrationData w am s = .error e t) :
    Shrinks s t ∨ CanFailAfterDir am := by
  rcases bind_eq_error h with h₁ | ⟨_, s₁, h₁, h₂⟩
  · exact .inl (shrinks_of_sameFs (sameFs_extractURL.of_error h₁))
  have e₁ : SameFs s s₁ := sameFs_extractURL.of_ok h₁
  rcases bind_eq_error h₂ with h₃ | ⟨⟨mig, cl₁⟩, s₂, h₃, h₄⟩
  · exact .inl (IsTrans.trans _ _ _ (shrinks_of_sameFs e₁) (extractConfigMapDir_error h₃))
  rcases bind_eq_error h₄ with h₅ | ⟨⟨mig₂, cl₂⟩, s₃, h₅, h₆⟩
  · rcases extractConfigMapDir_ok h₃ with ⟨-, rfl, -, rfl⟩ | ⟨hc, hm, -⟩ <;>
      rcases extractLocalDir_error h₅ with ⟨hl, hm', rfl⟩ | ⟨hm', hs⟩
    · simp at hm'
    · exact .inl (IsTrans.trans _ _ _ (shrinks_of_sameFs e₁) hs)
    · exact .inr (.inl ⟨hc, hl⟩)
    · simp [hm'] at hm
  rcases bind_eq_error h₆ with h₇ | ⟨_, _, -, h₈⟩
  · have ht := extractCloud_error h₇
    have e₃ : SameFs s₃ t := sameFs_extractCloud.of_error h₇
    rcases extractConfigMapDir_ok h₃ with ⟨hc, rfl, rfl, rfl⟩ | ⟨hc, -, -⟩
    · rcases extractLocalDir_ok h₅ with ⟨-, -, -, rfl⟩ | ⟨hl, -, -⟩
      · exact .inl (shrinks_of_sameFs (IsTrans.trans _ _ _ e₁ e₃))
      · exact .inr (.inr ⟨.inr hl, ht⟩)
    · exact .inr (.inr ⟨.inl hc, ht⟩)
  · cases h₈

end Extract

def tmpOnly : Fs := ⟨[], [["tmp".toList]], [], by simp⟩

def oneFile : GoMap := ⟨[("1.sql", "create table t(id int);")], by decide⟩

/-- A world whose config map holds `oneFile` and whose `os.MkdirTemp` draws
the numbers in order. -/
def oneFileWorld : World where
  secretValue := fun _ _ => .error ⟨"secrets \"token\" not found", true⟩
  configMap := fun _ => .ok oneFile
  cli := ⟨fun _ => .ok (some ⟨"", [], []⟩), fun _ => .ok none⟩
  iter := .listed
  temp := ⟨"/tmp", fun n => toString n⟩

def okLib : Lib where
  sum := id
  urlPath := fun u => .ok (u.drop 7)
  checksum := fun l => .ok (toString l.length)
  render := fun _ => .ok "file:///tmp/atlas.hcl"
  isSQLErr := fun _ => true
  result := fun e => ({}, some e)

/-- A resource, already observed, that names a config map and a local directory. -/
def bothDirs : AtlasMigration :=
  { name := "m", ns := "default",
    spec := { url := "sqlite://file", dir := { configMapRef := some "cm", «local» := some oneFile } },
    status := { conditions := [⟨"Ready", .false, "Reconciling", "Reconciling"⟩] } }

/-- An observed resource with a local directory. -/
def localOne : AtlasMigration :=
  { name := "m", ns := "default",
    spec := { url := "sqlite://file", dir := { «local» := some oneFile } },
    status := { conditions := [⟨"Ready", .false, "Reconciling", "Reconciling"⟩] } }

theorem new_dir_of_pass {lib : Lib} {w : World} {am : AtlasMigration} {fs : Fs} {q : FsPath}
    (hq : q ∈ (PassM.final (pass lib w am fs)).fs.dirs) (hn : q ∉ fs.dirs) :
    CanFailAfterDir am ∧ ∃ err s, extractMigrationData w am ⟨am, fs, [], []⟩ = .error (.err err) s := by
  rcases pass_cases lib w am fs with ⟨-, h⟩ | ⟨-, err, s, hx, h⟩ | ⟨-, md, cl, s, hx, h⟩
  · rw [h] at hq
    exact absurd hq hn
  · rw [h] at hq
    rcases extract_error_shrinks hx with hs | hc
    · exact absurd (hs.2 hq) hn
    · exact ⟨hc, err, s, hx⟩
  · rw [h, final_deferring, (reconcileData_frame lib w md s).1] at hq
    exact absurd ((extract_ok_shrinks hx).2 hq) hn

/-- A directory that exists after a pass and not before was left by an `extractMigrationData`
that failed after making it, on a spec under which it can. -/
theorem pass_new_dir_cause (lib : Lib) (w : World) (am : AtlasMigration) (fs : Fs) {q : FsPath}
    (hq : q ∈ (PassM.final (pass lib w am fs)).fs.dirs) (hn : q ∉ fs.dirs) :
    CanFailAfterDir am ∧ ∃ err s, extractMigrationData w am ⟨am, fs, [], []⟩ = .error (.err err) s :=
  new_dir_of_pass hq hn

theorem pass_new_dir_cause_bothDirs :
    ["migrations0".toList, "tmp".toList] ∈ (PassM.final (pass okLib oneFileWorld bothDirs tmpOnly)).fs.dirs ∧
      ["migrations0".toList, "tmp".toList] ∉ tmpOnly.dirs ∧ CanFailAfterDir bothDirs ∧
      ∃ err s, extractMigrationData oneFileWorld bothDirs ⟨bothDirs, tmpOnly, [], []⟩ = .error (.err err) s :=
  ⟨by decide, by decide, @pass_new_dir_cause okLib oneFileWorld bothDirs tmpOnly
    ["migrations0".toList, "tmp".toList] (by decide) (by decide)⟩

/-- The pass on `bothDirs` materializes the config map into `/tmp/migrations0`,
fails on the local directory, and leaves `/tmp/migrations0` behind. -/
theorem pass_leaves_tmp_dir :
    tmpOnly.isDir ["migrations0".toList, "tmp".toList] = false ∧
      (PassM.final (pass okLib oneFileWorld bothDirs tmpOnly)).fs.isDir
        ["migrations0".toList, "tmp".toList] = true := by
  decide

@[simp] theorem finish_fs (sys : System) (s : PassState) (written : Bool) :
    (sys.finish s written).fs = s.fs := by
  cases written <;> rfl

/-- `bothDirs` is created, read once with an empty status, and then read again. -/
def bothDirsSteps : List Step :=
  [.create bothDirs, .reconcile bothDirs.namespacedName oneFileWorld true,
   .reconcile bothDirs.namespacedName oneFileWorld true]

end AtlasOperator.Proofs
