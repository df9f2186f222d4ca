import AtlasOperator.Proofs.DirURL
import AtlasOperator.Proofs.Order
import AtlasOperator.Proofs.Confine
import AtlasOperator.Proofs.ChangeCheck

namespace AtlasOperator.Proofs

section Returns

variable {α β : Type} {x : PassM α} {f : α → PassM β}

/-- What `x` returns does not depend on the state it runs from. -/
def Returns (x : PassM α) : Prop := ∀ s t a u, x s = .ok a u → ∃ u', x t = .ok a u'

theorem Returns.bind (hx : Returns x) (hf : ∀ a, Returns (f a)) : Returns (x >>= f) := by
  intro s t b u h
  obtain ⟨a, v, h₁, h₂⟩ := bind_eq_ok h
  obtain ⟨v', h₁'⟩ := hx s t a v h₁
  obtain ⟨u', h₂'⟩ := hf a v v' b u h₂
  exact ⟨u', by rw [bind_ok h₁', h₂']⟩

theorem Returns.eq (hx : Returns x) {s t u v : PassState} {a b : α}
    (h₁ : x s = .ok a u) (h₂ : x t = .ok b v) : a = b := by
  obtain ⟨u', h⟩ := hx s t a u h₁
  rw [h] at h₂
  injection h₂

theorem returns_pure (a : α) : Returns (pure a : PassM α) :=
  fun _ t _ _ h => (pure_eq_ok h).1 ▸ ⟨t, rfl⟩

theorem returns_fail (e : Err) : Returns (fail e : PassM α) := fun _ _ _ _ h => nomatch h

theorem returns_recordRead (r : Ref) : Returns (recordRead r) := fun _ _ _ _ _ => ⟨_, rfl⟩

variable {w : World} {am : AtlasMigration}

theorem returns_getSecretValue (ns : String) (sel : SecretKeySelector) :
    Returns (getSecretValue w ns sel) := by
  refine (returns_recordRead _).bind fun _ => ?_
  split
  exacts [returns_pure _, returns_fail _]

theorem returns_extractURL : Returns (extractURL w am) := by
  unfold extractURL hydrateCredentials
  split_ifs
  · exact returns_pure _
  · split
    · exact returns_getSecretValue _ _
    · refine Returns.bind ?_ fun _ => returns_pure _
      split
      · exact (returns_getSecretValue _ _).bind fun _ => returns_pure _
      · exact returns_pure _
  · split
    · exact returns_getSecretValue _ _
    · exact returns_pure _

theorem returns_extractCloud : Returns (extractCloud w am) := by
  unfold extractCloud
  split
  · exact (returns_getSecretValue _ _).bind fun _ => returns_pure _
  · exact returns_pure _

end Returns

/-- The map a successful `extractMigrationData` writes out: the config map it
references, or else its local directory. -/
def migrationMap (w : World) (am : AtlasMigration) : Option GoMap :=
  match am.spec.dir.configMapRef with
  | some c => (w.configMap ⟨am.ns, c⟩).toOption
  | none => am.spec.dir.«local»

/-- The name `os.MkdirTemp` tries at its attempt `i`. -/
def tempName (t : TempNames) (i : Nat) : String := joinPath t.dir "migrations" ++ t.random i

/-- `url.Parse` gives back the path of the URL of every directory `os.MkdirTemp`
may make from `t`. -/
def ReadsBack (lib : Lib) (t : TempNames) : Prop :=
  ∀ i, lib.urlPath ("file://" ++ tempName t i) = .ok (tempName t i)

/-- A map's entries in the order `migrate.LocalDir` lists its files: by name. -/
def byName (m : GoMap) : List (String × String) :=
  m.entries.insertionSort (fun a b => stringLe a.1 b.1 = true)

section Extract

variable {w : World} {am : AtlasMigration} {m : GoMap} {s t : PassState}

theorem extractConfigMapDir_call {mig : Option Migration} {cl : CleanUp}
    (h : extractConfigMapDir w am s = .ok (mig, cl) t) :
    (am.spec.dir.configMapRef = none ∧ mig = none ∧ t = s) ∨
      ∃ c m d, am.spec.dir.configMapRef = some c ∧ w.configMap ⟨am.ns, c⟩ = .ok m ∧
        mig = some ⟨d⟩ ∧ ∃ s₁, createTmpDirFromMap w m s₁ = .ok (d, cl) t := by
  cases hc : am.spec.dir.configMapRef with
  | none =>
    simp only [extractConfigMapDir, hc] at h
    obtain ⟨he, rfl⟩ := pure_eq_ok h
    cases he
    exact .inl ⟨rfl, rfl, rfl⟩
  | some c =>
    simp only [extractConfigMapDir, hc] at h
    obtain ⟨⟨d, cl₁⟩, s₁, h₁, h₂⟩ := bind_eq_ok h
    obtain ⟨he, rfl⟩ := pure_eq_ok h₂
    cases he
    obtain ⟨_, s₂, -, h₄⟩ := bind_eq_ok h₁
    cases hm : w.configMap ⟨am.ns, c⟩ with
    | error e =>
      simp only [hm] at h₄
      cases h₄
    | ok m =>
      simp only [hm] at h₄
      exact .inr ⟨c, m, d, rfl, hm, rfl, s₂, h₄⟩

theorem extractLocalDir_call {mig mig' : Option Migration} {cl cl' : CleanUp}
    (h : extractLocalDir w am mig cl s = .ok (mig', cl') t) :
    (am.spec.dir.«local» = none ∧ mig' = mig ∧ t = s) ∨
      ∃ m d, am.spec.dir.«local» = some m ∧ mig = none ∧ mig' = some ⟨d⟩ ∧
        createTmpDirFromMap w m s = .ok (d, cl') t := by
  cases hl : am.spec.dir.«local» <;> simp only [extractLocalDir, hl] at h
  · obtain ⟨he, rfl⟩ := pure_eq_ok h
    cases he
    exact .inl ⟨rfl, rfl, rfl⟩
  · cases mig <;> simp only [Option.isSome_none, Option.isSome_some, if_true, if_false] at h
    · obtain ⟨⟨d, cl₁⟩, s₁, h₁, h₂⟩ := bind_eq_ok h
      obtain ⟨he, rfl⟩ := pure_eq_ok h₂
      cases he
      exact .inr ⟨_, d, rfl, rfl, rfl, h₁⟩
    · cases h

/-- A successful extraction is made of its parts: `extractURL`'s URL, `extractCloud`'s settings
and `migrationMap` written out by one `createTmpDirFromMap`. -/
theorem extract_ok_parts {md : AtlasMigrationData} {cl : CleanUp}
    (h : extractMigrationData w am s = .ok (md, cl) t) :
    (∃ s u, extractURL w am s = .ok md.url u) ∧ (∃ s u, extractCloud w am s = .ok md.cloud u) ∧
      ((migrationMap w am = none ∧ md.migration = none) ∨
        ∃ m d cl' s₁ s₂, migrationMap w am = some m ∧ md.migration = some ⟨d⟩ ∧
          createTmpDirFromMap w m s₁ = .ok (d, cl') s₂ ∧ t.fs = s₂.fs) := by
  obtain ⟨_, s₁, h₁, h₂⟩ := bind_eq_ok h
  obtain ⟨⟨mig, cl₁⟩, s₂, h₃, h₄⟩ := bind_eq_ok h₂
  obtain ⟨⟨mig₂, cl₂⟩, s₃, h₅, h₆⟩ := bind_eq_ok h₄
  obtain ⟨_, s₄, h₇, h₈⟩ := bind_eq_ok h₆
  obtain ⟨he, rfl⟩ := pure_eq_ok h₈
  cases he
  have e₄ : SameFs s₃ t := sameFs_extractCloud.of_ok h₇
  refine ⟨⟨_, _, h₁⟩, ⟨_, _, h₇⟩, ?_⟩
  simp only [migrationMap]
  rcases extractConfigMapDir_call h₃ with ⟨hr, rfl, -⟩ | ⟨c, m, d, hr, hm, rfl, s₁, hx⟩ <;>
    rcases extractLocalDir_call h₅ with ⟨hl, rfl, rfl⟩ | ⟨m', d', hl, hn, rfl, hx'⟩
  · exact .inl ⟨by rw [hr, hl], rfl⟩
  · exact .inr ⟨m', d', _, _, _, by rw [hr, hl], rfl, hx', e₄⟩
  · exact .inr ⟨m, d, _, s₁, _, by simp [hr, hm, Except.toOption], rfl, hx, e₄⟩
  · cases hn

theorem mapOf_of_migrationMap (h : migrationMap w am = some m) : MapOf w am m := by
  unfold migrationMap at h
  split at h
  · cases hc : w.configMap ⟨am.ns, _⟩ <;> rw [hc] at h <;> cases h
    exact .inr ⟨_, hc⟩
  · exact .inl h

theorem createTmpDirFromMap_listing {d : String} {cl : CleanUp} (hk : PlainKeys m)
    (h : createTmpDirFromMap w m s = .ok (d, cl) t) :
    ∃ i, d = "file://" ++ tempName w.temp i ∧
      t.fs.localDir (tempName w.temp i) = .ok (byName m) := by
  obtain ⟨p, rfl, -, hc, -, hmem, hperm⟩ := createTmpDirFromMap_plain hk h
  obtain ⟨p', _, ht, hd, -⟩ := createTmpDirFromMap_eq_ok h
  obtain rfl : p = p' := String.ext (List.append_cancel_left (congrArg String.data hd))
  obtain ⟨-, -, -, -, i, rfl⟩ := mkdirTempLoop_ok ht
  have hdir : t.fs.isDir (resolve t.fs.cwd (tempName w.temp i).toList) = true := by
    rw [hc]
    exact isDir_iff.mpr (.inr hmem)
  refine ⟨i, rfl, ?_⟩
  simp only [Fs.localDir, hdir, if_true, Fs.listing, byName]
  rw [hc]
  exact congrArg _ (insertionSort_eq_of_perm Prod.fst hperm ((hperm.map Prod.fst).nodup_iff.mpr m.nodup))

end Extract

section Hash

variable {lib : Lib}

theorem dirSum_tempName {t : TempNames} {fs : Fs} {i : Nat} {l : List (String × String)}
    (hr : ReadsBack lib t) (h : fs.localDir (tempName t i) = .ok l) :
    AtlasMigrationData.dirSum lib fs ⟨"file://" ++ tempName t i⟩ = lib.checksum l := by
  simp only [AtlasMigrationData.dirSum, hr i, h, bind, Except.bind]

theorem localPart_eq (fs : Fs) (md : AtlasMigrationData) (ws : List String) :
    AtlasMigrationData.writes.localPart lib fs md ws =
      ((md.migration.map (AtlasMigrationData.dirSum lib fs)).map (·.map (ws ++ [·]))).getD (.ok ws) := by
  unfold AtlasMigrationData.writes.localPart
  cases md.migration <;> rfl

theorem hash_congr {md₁ md₂ : AtlasMigrationData} {fs₁ fs₂ : Fs}
    (hu : md₁.url = md₂.url) (hc : md₁.cloud = md₂.cloud)
    (hm : md₁.migration.map (AtlasMigrationData.dirSum lib fs₁) =
      md₂.migration.map (AtlasMigrationData.dirSum lib fs₂)) :
    md₁.hash lib fs₁ = md₂.hash lib fs₂ := by
  have hl : ∀ ws, AtlasMigrationData.writes.localPart lib fs₁ md₁ ws =
      AtlasMigrationData.writes.localPart lib fs₂ md₂ ws := fun ws => by
    rw [localPart_eq, localPart_eq, hm]
  simp only [AtlasMigrationData.hash, AtlasMigrationData.hashInput, AtlasMigrationData.writes, hu, hc,
    hl]

end Hash

section Stable

variable {lib : Lib} {w : World} {am : AtlasMigration}

/-- What a pass's fingerprint is made of when extraction succeeds: the URL and cloud settings
the cluster gives, and the checksum of the migration map's entries by name. -/
theorem fingerprint_view {fs : Fs} (hl : PlainLocal am.spec) (hc : PlainConfigMaps w)
    (hr : ReadsBack lib w.temp) (h : (fingerprint lib w am fs).isSome) :
    ∃ (md : AtlasMigrationData) (fs' : Fs), fingerprint lib w am fs = some (md.hash lib fs') ∧
      (∃ s u, extractURL w am s = .ok md.url u) ∧ (∃ s u, extractCloud w am s = .ok md.cloud u) ∧
      md.migration.map (AtlasMigrationData.dirSum lib fs') =
        (migrationMap w am).map fun m => lib.checksum (byName m) := by
  unfold fingerprint at h ⊢
  cases he : extractMigrationData w am ⟨am, fs, [], []⟩ with
  | error => simp [he] at h
  | ok r u =>
    obtain ⟨hu, hcl, hm⟩ := extract_ok_parts he
    refine ⟨r.1, u.fs, rfl, hu, hcl, ?_⟩
    rcases hm with ⟨hn, hm⟩ | ⟨m, d, cl', s₁, s₂, hn, hm, hx, hfs⟩
    · rw [hm, hn]
      rfl
    · obtain ⟨i, rfl, hls⟩ :=
        createTmpDirFromMap_listing (plainKeys_of_mapOf hl hc (mapOf_of_migrationMap hn)) hx
      rw [hm, hn, hfs]
      exact congrArg some (dirSum_tempName hr hls)

/-- Two fingerprints that are both computed agree when their extractions read
the same: the same URL, cloud settings and migration map. -/
theorem fingerprint_congr {w₁ w₂ : World} {am₁ am₂ : AtlasMigration} {fs₁ fs₂ : Fs}
    (hl₁ : PlainLocal am₁.spec) (hc₁ : PlainConfigMaps w₁) (hr₁ : ReadsBack lib w₁.temp)
    (hl₂ : PlainLocal am₂.spec) (hc₂ : PlainConfigMaps w₂) (hr₂ : ReadsBack lib w₂.temp)
    (hu : extractURL w₁ am₁ = extractURL w₂ am₂) (hcl : extractCloud w₁ am₁ = extractCloud w₂ am₂)
    (hm : migrationMap w₁ am₁ = migrationMap w₂ am₂)
    (h₁ : (fingerprint lib w₁ am₁ fs₁).isSome) (h₂ : (fingerprint lib w₂ am₂ fs₂).isSome) :
    fingerprint lib w₁ am₁ fs₁ = fingerprint lib w₂ am₂ fs₂ := by
  obtain ⟨md₁, fs₁', e₁, ⟨_, _, hu₁⟩, ⟨_, _, hcl₁⟩, hm₁⟩ := fingerprint_view hl₁ hc₁ hr₁ h₁
  obtain ⟨md₂, fs₂', e₂, ⟨_, _, hu₂⟩, ⟨_, _, hcl₂⟩, hm₂⟩ := fingerprint_view hl₂ hc₂ hr₂ h₂
  rw [hu] at hu₁
  rw [hcl] at hcl₁
  rw [hm] at hm₁
  rw [e₁, e₂]
  exact congrArg some (hash_congr (returns_extractURL.eq hu₁ hu₂) (returns_extractCloud.eq hcl₁ hcl₂)
    (hm₁.trans hm₂.symm))

theorem extractURL_world (w : World) (t : TempNames) (it : Iteration) (c : MigrateCLI)
    (am : AtlasMigration) (st : AtlasMigrationStatus) :
    extractURL { w with temp := t, iter := it, cli := c } { am with status := st } = extractURL w am :=
  (extractURL_iter { w with temp := t, cli := c } it _).trans rfl

end Stable

/-- Two passes on the same resource and cluster data that reach the fingerprint compute the
same one, whatever their file systems, temporary directories and iteration orders. -/
theorem fingerprint_stable (lib : Lib) (w : World) (am : AtlasMigration) (t₁ t₂ : TempNames)
    (it₁ it₂ : Iteration) (fs₁ fs₂ : Fs) (hl : PlainLocal am.spec) (hc : PlainConfigMaps w)
    (hr₁ : ReadsBack lib t₁) (hr₂ : ReadsBack lib t₂)
    (h₁ : (fingerprint lib { w with temp := t₁, iter := it₁ } am fs₁).isSome)
    (h₂ : (fingerprint lib { w with temp := t₂, iter := it₂ } am fs₂).isSome) :
    fingerprint lib { w with temp := t₁, iter := it₁ } am fs₁ =
      fingerprint lib { w with temp := t₂, iter := it₂ } am fs₂ :=
  fingerprint_congr hl hc hr₁ hl hc hr₂
    ((extractURL_world w t₁ it₁ w.cli am am.status).trans (extractURL_world w t₂ it₂ w.cli am am.status).symm)
    rfl rfl h₁ h₂

section Requeue

variable {lib : Lib} {w : World} {am : AtlasMigration} {fs : Fs}

/-- A pass that leaves its resource `Ready` leaves its fingerprint as `ObservedHash`, after
`r.reconcile` returned and also after a panic, which the change check let through. -/
theorem ready_observedHash (h : (PassM.final (pass lib w am fs)).am.isReady = true) :
    fingerprint lib w am fs = some (.ok (PassM.final (pass lib w am fs)).am.status.observedHash) := by
  rw [isReady_iff] at h
  rcases pass_cases lib w am fs with ⟨-, hp⟩ | ⟨-, err, s, -, hp⟩ | ⟨-, md, cl, s, hx, hp⟩
  · simp [hp] at h
  · simp [hp] at h
  have hs : s.am = am := (keeps_extract.of_ok hx).1
  have hf : fingerprint lib w am fs = some (md.hash lib s.fs) := by
    unfold fingerprint
    rw [hx]
  rw [hf]
  rw [hp, final_deferring] at h ⊢
  rcases reconcileData_cases lib w md s with ⟨err, hh, hd⟩ | ⟨hv, hh, hr, hd⟩ |
    ⟨hv, hh, hr, ⟨err, hx', hd⟩ | ⟨st, hx', hd⟩ | ⟨m, hx', hd⟩⟩ <;> rw [hd] at h ⊢ <;>
    simp only [final_ok, final_error, ready_setNotReady] at h ⊢
  · cases h
  · cases h
  · cases h
  · -- `r.reconcile` returned `st`, which carries the fingerprint
    obtain ⟨-, hv', hh', cfg, status, -, -, hc⟩ := reconcile_ok hx'
    rw [hh']
    rcases hc with ⟨-, rfl⟩ | ⟨-, -, -, -, rfl⟩ <;> rfl
  · -- the panic left the resource as read, and the change check let it through
    rw [hh, hs] at *
    have hm : am.isHashModified hv = false := by simpa [(isReady_iff am).mpr h] using hr
    simpa [AtlasMigration.isHashModified] using hm

/-- After a pass that leaves a resource `Ready`, the next pass on the same cluster data does not
stop at the change check, whatever its file system, temporary directory and iteration order. -/
theorem no_requeue_after_ready (lib : Lib) (w : World) (am : AtlasMigration) (t₁ t₂ : TempNames)
    (it₁ it₂ : Iteration) (fs₁ fs₂ : Fs) (hl : PlainLocal am.spec) (hc : PlainConfigMaps w)
    (hr₁ : ReadsBack lib t₁) (hr₂ : ReadsBack lib t₂)
    (h : (PassM.final (pass lib { w with temp := t₁, iter := it₁ } am fs₁)).am.isReady = true) :
    ¬ Requeued lib { w with temp := t₂, iter := it₂ }
      (PassM.final (pass lib { w with temp := t₁, iter := it₁ } am fs₁)).am fs₂ := by
  have e₁ := ready_observedHash h
  obtain ⟨st, hst⟩ := pass_am lib { w with temp := t₁, iter := it₁ } am fs₁
  rw [hst] at e₁ ⊢
  rintro ⟨-, md, cl, s, hv, hx, hh, -, hm⟩
  have e₂ : fingerprint lib { w with temp := t₂, iter := it₂ } { am with status := st } fs₂ =
      some (.ok hv) := by
    unfold fingerprint
    rw [hx]
    exact congrArg some hh
  have he : fingerprint lib { w with temp := t₁, iter := it₁ } am fs₁ =
      fingerprint lib { w with temp := t₂, iter := it₂ } { am with status := st } fs₂ :=
    fingerprint_congr hl hc hr₁ hl hc hr₂
    ((extractURL_world w t₁ it₁ w.cli am am.status).trans (extractURL_world w t₂ it₂ w.cli am st).symm)
    rfl rfl (by rw [e₁]; rfl) (by rw [e₂]; rfl)
  rw [e₁, e₂] at he
  cases he
  simp [AtlasMigration.isHashModified] at hm

end Requeue

theorem readsBack_decimal (dir : String) (hd : joinPath dir "migrations" = "/tmp/migrations")
    (f : Nat → Nat) : ReadsBack urlParseLib ⟨dir, fun n => toString (f n)⟩ := by
  intro i
  have hp : tempName ⟨dir, fun n => toString (f n)⟩ i = "/tmp/migrations" ++ toString (f i) := by
    rw [tempName, hd]
  rw [hp]
  obtain ⟨hs, hpl⟩ :=
    append_plain (a := "/tmp/migrations") (by decide) (by decide) (toString_plain (f i))
  have ha : ∀ c ∈ ("/tmp/migrations" ++ toString (f i)).toList, c.toNat < 128 := by
    intro c hc
    rcases List.mem_append.mp hc with h | h
    · exact (show ∀ c ∈ "/tmp/migrations".toList, c.toNat < 128 by decide) c h
    · obtain ⟨k, hk, rfl⟩ := digit_of_mem_toString h
      exact (show ∀ k < 10, (Nat.digitChar k).toNat < 128 by decide) k hk
  have hb : (bytesOf ("/tmp/migrations" ++ toString (f i))).map Char.ofNat =
      ("/tmp/migrations" ++ toString (f i)).toList := by
    have hascii : bytesOf ("/tmp/migrations" ++ toString (f i)) = _ := bytesOf_ascii ha
    rw [hascii, List.map_map]
    exact List.map_id'' Char.ofNat_toNat _
  simp only [urlParseLib, urlParse_file hs hpl, hb]
  rfl

/-- `os.TempDir()` given with a trailing `/`, and other names drawn. -/
def otherTemp : TempNames := ⟨"/tmp/", fun n => toString (2 * n + 1)⟩

theorem plainConfigMaps_oneFileWorld : PlainConfigMaps oneFileWorld := fun _ _ h => by
  cases h
  decide

theorem readsBack_oneFileWorld : ReadsBack urlParseLib oneFileWorld.temp :=
  readsBack_decimal "/tmp" (by decide) id

theorem readsBack_otherTemp : ReadsBack urlParseLib otherTemp := readsBack_decimal "/tmp/" (by decide) _

theorem fingerprint_stable_twoFiles :
    PlainLocal twoFilesDir.spec ∧ PlainConfigMaps oneFileWorld ∧
      ReadsBack urlParseLib oneFileWorld.temp ∧ ReadsBack urlParseLib otherTemp ∧
      (fingerprint urlParseLib { oneFileWorld with temp := oneFileWorld.temp, iter := .listed }
        twoFilesDir tmpOnly).isSome ∧
      (fingerprint urlParseLib { oneFileWorld with temp := otherTemp, iter := .reversed }
        twoFilesDir tmpWithFile).isSome ∧
      fingerprint urlParseLib { oneFileWorld with temp := oneFileWorld.temp, iter := .listed }
          twoFilesDir tmpOnly =
        fingerprint urlParseLib { oneFileWorld with temp := otherTemp, iter := .reversed }
          twoFilesDir tmpWithFile := by
  have hl : PlainLocal twoFilesDir.spec := by decide
  have h₁ : (fingerprint urlParseLib { oneFileWorld with temp := oneFileWorld.temp, iter := .listed }
      twoFilesDir tmpOnly).isSome := rfl
  have h₂ : (fingerprint urlParseLib { oneFileWorld with temp := otherTemp, iter := .reversed }
      twoFilesDir tmpWithFile).isSome := rfl
  exact ⟨hl, plainConfigMaps_oneFileWorld, readsBack_oneFileWorld, readsBack_otherTemp, h₁, h₂,
    fingerprint_stable urlParseLib oneFileWorld twoFilesDir _ _ _ _ _ _ hl plainConfigMaps_oneFileWorld
      readsBack_oneFileWorld readsBack_otherTemp h₁ h₂⟩

theorem no_requeue_after_ready_twoFiles :
    PlainLocal twoFilesDir.spec ∧ PlainConfigMaps oneFileWorld ∧
      ReadsBack urlParseLib oneFileWorld.temp ∧ ReadsBack urlParseLib otherTemp ∧
      (PassM.final (pass urlParseLib { oneFileWorld with temp := oneFileWorld.temp, iter := .listed }
        twoFilesDir tmpOnly)).am.isReady = true ∧
      ¬ Requeued urlParseLib { oneFileWorld with temp := otherTemp, iter := .reversed }
        (PassM.final (pass urlParseLib { oneFileWorld with temp := oneFileWorld.temp, iter := .listed }
          twoFilesDir tmpOnly)).am tmpWithFile := by
  have hl : PlainLocal twoFilesDir.spec := by decide
  have h : (PassM.final (pass urlParseLib { oneFileWorld with temp := oneFileWorld.temp, iter := .listed }
      twoFilesDir tmpOnly)).am.isReady = true := rfl
  exact ⟨hl, plainConfigMaps_oneFileWorld, readsBack_oneFileWorld, readsBack_otherTemp, h,
    no_requeue_after_ready urlParseLib oneFileWorld twoFilesDir _ _ _ _ _ _ hl plainConfigMaps_oneFileWorld
      readsBack_oneFileWorld readsBack_otherTemp h⟩

end AtlasOperator.Proofs
