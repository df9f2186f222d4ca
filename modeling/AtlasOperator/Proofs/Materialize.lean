import AtlasOperator.Proofs.Cleanup

namespace AtlasOperator.Proofs

section Children

variable {fs fs' : Fs} {q : FsPath} {p data : String}

theorem children_filter (k : String) (files : List (FsPath × String)) :
    (files.filter (·.1 ≠ k.toList :: q)).filterMap (Fs.childOf q) =
      (files.filterMap (Fs.childOf q)).filter (·.1 ≠ k) := by
  rw [List.filterMap_filter, List.filter_filterMap]
  congr 1
  funext f
  obtain ⟨_ | ⟨n, d⟩, v⟩ := f
  · simp [Fs.childOf]
  · by_cases hd : d = q
    · subst hd
      by_cases hn : n = k.data <;> simp [Fs.childOf, hn, String.ext_iff, Option.filter]
    · simp [Fs.childOf, hd]

theorem children_writeFile {k : String} (h : fs.writeFile p data = .ok fs')
    (hq : resolve fs.cwd p.toList = k.toList :: q) :
    fs'.children q = (k, data) :: (fs.children q).filter (·.1 ≠ k) := by
  rw [Fs.children, (writeFile_ok h).2.2, hq, List.filterMap_cons, children_filter]
  simp [Fs.childOf, Fs.children]

theorem children_fresh (hq : fs.isDir q = false) : fs.children q = [] := by
  refine List.filterMap_eq_nil_iff.mpr fun f hf => ?_
  obtain ⟨_ | ⟨n, d⟩, v⟩ := f
  · rfl
  · simp only [Fs.childOf]
    split
    · subst d
      rcases fs.parents _ hf with h | h <;> simp_all [Fs.isDir]
    · rfl

end Children

theorem writeEntries_children {p : String} (hp : p ≠ "") :
    ∀ (es : List (String × String)) (s t : PassState), (es.map Prod.fst).Nodup →
      (∀ e ∈ es, plainElem e.1.toList) → writeEntries p es s = .ok () t →
      t.fs.cwd = s.fs.cwd ∧ t.fs.dirs = s.fs.dirs ∧
        t.fs.children (resolve s.fs.cwd p.toList) =
          es.reverse ++ (s.fs.children (resolve s.fs.cwd p.toList)).filter (·.1 ∉ es.map Prod.fst)
  | [], s, t, _, _, h => by cases h; simp
  | (k, v) :: rest, s, t, hn, hk, h => by
    simp only [writeEntries] at h
    split at h
    · rename_i fs₁ hw
      obtain ⟨hc₁, hd₁, -⟩ := writeFile_ok hw
      have hq := resolve_join_plain s.fs.cwd hp (hk (k, v) (List.mem_cons_self _ _))
      have hnk : k ∉ rest.map Prod.fst := (List.nodup_cons.mp hn).1
      obtain ⟨hc, hd, ih⟩ := writeEntries_children hp rest { s with fs := fs₁ } t
        (List.nodup_cons.mp hn).2 (fun e he => hk e (List.mem_cons_of_mem _ he)) h
      simp only [hc₁] at hc hd ih
      refine ⟨hc, hd.trans hd₁, ?_⟩
      rw [ih, children_writeFile hw hq, List.filter_cons_of_pos (by exact decide_eq_true hnk),
        List.reverse_cons, List.append_assoc, List.singleton_append, List.filter_filter]
      congr 2
      refine List.filter_congr fun f _ => ?_
      rw [Bool.eq_iff_iff]
      simp only [Bool.and_eq_true, decide_eq_true_eq, List.map_cons, List.mem_cons, not_or, ne_eq,
        and_comm]
    · cases h

/-- `p` names a directory of `fs'` that did not exist in `fs`, holding exactly
the entries of `m`, one file each. -/
def Materialized (fs fs' : Fs) (p : String) (m : GoMap) : Prop :=
  fs'.cwd = fs.cwd ∧ fs.isDir (resolve fs.cwd p.toList) = false ∧
    resolve fs.cwd p.toList ∈ fs'.dirs ∧ (fs'.children (resolve fs.cwd p.toList)).Perm m.entries

/-- Every key of `m` is a plain file name. -/
def PlainKeys (m : GoMap) : Prop := ∀ e ∈ m.entries, plainElem e.1.toList

instance : DecidablePred PlainKeys :=
  fun m => inferInstanceAs (Decidable (∀ e ∈ m.entries, plainElem e.1.toList))

variable {w : World} {m : GoMap} {s t : PassState}

/-- With plain file names for keys, `createTmpDirFromMap` returns the URL of a fresh directory
holding one file per entry, and the function that removes it. -/
theorem createTmpDirFromMap_plain {d : String} {cl : CleanUp} (hk : PlainKeys m)
    (h : createTmpDirFromMap w m s = .ok (d, cl) t) :
    ∃ p, d = "file://" ++ p ∧ cl = .removeAll p ∧ Materialized s.fs t.fs p m := by
  obtain ⟨p, s₁, h₁, h₂⟩ := bind_eq_ok h
  obtain ⟨fs₁, ht, rfl⟩ := onFs_eq_ok h₁
  obtain ⟨hc, hd, hf, hpres, hp⟩ := tempDir_ok ht
  obtain ⟨_, u, hx, hpu⟩ := bind_eq_ok h₂
  obtain ⟨hdc, rfl⟩ := pure_eq_ok hpu
  cases hdc
  have hperm := w.iter.perm m
  obtain ⟨hcu, hdu, hch⟩ := writeEntries_children hp (w.iter.visit m) _ _
    ((hperm.map Prod.fst).nodup_iff.mpr m.nodup) (fun e he => hk e (hperm.subset he)) hx
  have hq : s.fs.isDir (resolve s.fs.cwd p.toList) = false := by
    simp only [Fs.present, decide_eq_false_iff_not, not_or] at hpres
    simpa using hpres.1
  have h₀ : fs₁.children (resolve s.fs.cwd p.toList) = [] := by
    rw [Fs.children, hf]
    exact children_fresh hq
  simp only [hc, h₀, List.filter_nil, List.append_nil] at hcu hdu hch
  exact ⟨p, rfl, rfl, hcu, hq, by simp [hdu, hd], hch ▸ (List.reverse_perm _).trans hperm⟩

theorem writeEntries_inside {p : String} (hp : p ≠ "") :
    ∀ (es : List (String × String)) (s : PassState), (∀ e ∈ es, plainElem e.1.toList) →
      (PassM.final (writeEntries p es s)).fs.cwd = s.fs.cwd ∧
      ∀ f, ¬ resolve s.fs.cwd p.toList <:+ f.1 →
        (f ∈ (PassM.final (writeEntries p es s)).fs.files ↔ f ∈ s.fs.files)
  | [], s, _ => ⟨rfl, fun _ _ => Iff.rfl⟩
  | (k, v) :: rest, s, hk => by
    simp only [writeEntries]
    split
    · rename_i fs₁ hw
      obtain ⟨hc₁, -, hf₁⟩ := writeFile_ok hw
      have hq := resolve_join_plain s.fs.cwd hp (hk (k, v) (List.mem_cons_self _ _))
      obtain ⟨hc, ih⟩ := writeEntries_inside hp rest { s with fs := fs₁ }
        (fun e he => hk e (List.mem_cons_of_mem _ he))
      simp only [hc₁] at hc ih
      refine ⟨hc, fun f hf => (ih f hf).trans ?_⟩
      have hne : f.1 ≠ k.toList :: resolve s.fs.cwd p.toList :=
        fun he => hf (he ▸ List.suffix_cons _ _)
      rw [hf₁, hq, List.mem_cons, List.mem_filter]
      constructor
      · rintro (rfl | ⟨h, -⟩)
        exacts [absurd rfl hne, h]
      · exact fun h => .inr ⟨h, by simpa using hne⟩
    · refine ⟨rfl, fun f hf => ?_⟩
      simp [Fs.removeAll, ← List.isSuffixOf_iff_suffix] at hf ⊢
      exact fun _ => hf

/-- With plain file names for keys, `createTmpDirFromMap` creates, changes or
removes no file outside the fresh directory, whether it succeeds or fails. -/
theorem createTmpDirFromMap_inside {p : String} {fs₁ : Fs} (hk : PlainKeys m)
    (ht : tempDir s.fs w.temp = .ok (p, fs₁)) :
    ∀ f, ¬ resolve s.fs.cwd p.toList <:+ f.1 →
      (f ∈ (PassM.final (createTmpDirFromMap w m s)).fs.files ↔ f ∈ s.fs.files) := by
  obtain ⟨hc, -, hf, -, hp⟩ := tempDir_ok ht
  have h₁ : onFs (tempDir · w.temp) s = .ok p { s with fs := fs₁ } := by simp [onFs, ht]
  have hfin : PassM.final (createTmpDirFromMap w m s) =
      PassM.final (writeEntries p (w.iter.visit m) { s with fs := fs₁ }) := by
    rw [createTmpDirFromMap, bind_ok h₁]
    cases hw : writeEntries p (w.iter.visit m) { s with fs := fs₁ }
    · rw [bind_ok hw]; rfl
    · rw [bind_error hw, final_error, final_error]
  obtain ⟨-, hin⟩ := writeEntries_inside hp (w.iter.visit m) { s with fs := fs₁ }
    (fun e he => hk e ((w.iter.perm m).subset he))
  rw [hfin]
  simpa only [hc, hf] using hin

theorem createTmpDirFromMap_inside_oneFile :
    ∃ p fs₁, tempDir tmpOnly oneFileWorld.temp = .ok (p, fs₁) ∧ PlainKeys oneFile ∧
      ∀ f, ¬ resolve tmpOnly.cwd p.toList <:+ f.1 →
        (f ∈ (PassM.final (createTmpDirFromMap oneFileWorld oneFile ⟨localOne, tmpOnly, [], []⟩)).fs.files ↔
          f ∈ tmpOnly.files) := by
  obtain ⟨⟨p, fs₁⟩, h⟩ : ∃ r, tempDir tmpOnly oneFileWorld.temp = .ok r := ⟨_, rfl⟩
  exact ⟨p, fs₁, h, by decide, @createTmpDirFromMap_inside oneFileWorld oneFile
    ⟨localOne, tmpOnly, [], []⟩ p fs₁ (by decide) h⟩

theorem materialized_congr {fs₁ fs₂ fs₁' fs₂' : Fs} {p : String} (h : Materialized fs₁ fs₁' p m)
    (h₁ : fs₂ = fs₁) (h₂ : fs₂' = fs₁') : Materialized fs₂ fs₂' p m :=
  h₁ ▸ h₂ ▸ h

section Extract

variable {am : AtlasMigration} {mig mig' : Option Migration} {cl cl' : CleanUp}

theorem extractConfigMapDir_data (h : extractConfigMapDir w am s = .ok (mig, cl) t) :
    (am.spec.dir.configMapRef = none ∧ mig = none ∧ cl = .none ∧ t = s) ∨
      ∃ c m d, am.spec.dir.configMapRef = some c ∧ w.configMap ⟨am.ns, c⟩ = .ok m ∧
        mig = some ⟨d⟩ ∧ (PlainKeys m → ∃ p, d = "file://" ++ p ∧ Materialized s.fs t.fs p m) := by
  cases hc : am.spec.dir.configMapRef with
  | none =>
    simp only [extractConfigMapDir, hc] at h
    obtain ⟨he, rfl⟩ := pure_eq_ok h
    cases he
    exact .inl ⟨rfl, rfl, rfl, rfl⟩
  | some c =>
    simp only [extractConfigMapDir, hc] at h
    obtain ⟨⟨d, cl₁⟩, s₁, h₁, h₂⟩ := bind_eq_ok h
    obtain ⟨he, rfl⟩ := pure_eq_ok h₂
    cases he
    obtain ⟨_, s₂, h₃, h₄⟩ := bind_eq_ok h₁
    cases h₃
    cases hm : w.configMap ⟨am.ns, c⟩ with
    | error e =>
      simp only [hm] at h₄
      cases h₄
    | ok m =>
      simp only [hm] at h₄
      exact .inr ⟨c, m, d, rfl, hm, rfl, fun hk => (createTmpDirFromMap_plain hk h₄).imp
        fun _ ⟨hd, _, hmat⟩ => ⟨hd, hmat⟩⟩

theorem extractLocalDir_data (h : extractLocalDir w am mig cl s = .ok (mig', cl') t) :
    (am.spec.dir.«local» = none ∧ mig' = mig ∧ cl' = cl ∧ t = s) ∨
      ∃ m d, am.spec.dir.«local» = some m ∧ mig = none ∧ mig' = some ⟨d⟩ ∧
        (PlainKeys m → ∃ p, d = "file://" ++ p ∧ Materialized s.fs t.fs p m) := by
  cases hl : am.spec.dir.«local» <;> simp only [extractLocalDir, hl] at h
  · obtain ⟨he, rfl⟩ := pure_eq_ok h
    cases he
    exact .inl ⟨rfl, rfl, rfl, rfl⟩
  · cases mig <;> simp only [Option.isSome_none, Option.isSome_some, if_true, if_false] at h
    · obtain ⟨⟨d, cl₁⟩, s₁, h₁, h₂⟩ := bind_eq_ok h
      obtain ⟨he, rfl⟩ := pure_eq_ok h₂
      cases he
      exact .inr ⟨_, d, rfl, rfl, rfl, fun hk => (createTmpDirFromMap_plain hk h₁).imp
        fun _ ⟨hd, _, hmat⟩ => ⟨hd, hmat⟩⟩
    · cases h

theorem extractCloud_remoteDir {cloud : Option Cloud} (h : extractCloud w am s = .ok cloud t) :
    cloud.map (·.remoteDir) = am.spec.cloud.tokenFrom.secretKeyRef.map fun _ =>
      if am.spec.dir.remote.name ≠ "" then some ⟨am.spec.dir.remote.name, am.spec.dir.remote.tag⟩
      else none := by
  cases hk : am.spec.cloud.tokenFrom.secretKeyRef <;> simp only [extractCloud, hk] at h
  · obtain ⟨rfl, -⟩ := pure_eq_ok h
    rfl
  · obtain ⟨_, _, -, h₂⟩ := bind_eq_ok h
    obtain ⟨rfl, -⟩ := pure_eq_ok h₂
    rfl

/-- What a successful `extractMigrationData` carries: never both a config map and a local
directory; a cloud exactly when a token secret is referenced; a migration directory exactly when
one of the two is set, fresh and holding one file per entry for plain file names. -/
theorem extract_ok_sources {md : AtlasMigrationData} {s₀ : PassState}
    (h : extractMigrationData w am s₀ = .ok (md, cl) s) :
    ¬ (am.spec.dir.configMapRef.isSome ∧ am.spec.dir.«local».isSome) ∧
      md.cloud.map (·.remoteDir) = am.spec.cloud.tokenFrom.secretKeyRef.map (fun _ =>
        if am.spec.dir.remote.name ≠ "" then some ⟨am.spec.dir.remote.name, am.spec.dir.remote.tag⟩
        else none) ∧
      (md.migration = none ↔ am.spec.dir.configMapRef = none ∧ am.spec.dir.«local» = none) ∧
      ∀ m, (am.spec.dir.«local» = some m ∨
          ∃ c, am.spec.dir.configMapRef = some c ∧ w.configMap ⟨am.ns, c⟩ = .ok m) → PlainKeys m →
        ∃ p, md.migration = some ⟨"file://" ++ p⟩ ∧ Materialized s₀.fs s.fs p m := by
  obtain ⟨_, s₁, h₁, h₂⟩ := bind_eq_ok h
  obtain ⟨⟨mig, cl₁⟩, s₂, h₃, h₄⟩ := bind_eq_ok h₂
  obtain ⟨⟨mig₂, cl₂⟩, s₃, h₅, h₆⟩ := bind_eq_ok h₄
  obtain ⟨cloud, s₄, h₇, h₈⟩ := bind_eq_ok h₆
  obtain ⟨he, rfl⟩ := pure_eq_ok h₈
  cases he
  have e₁ : s₁.fs = s₀.fs := sameFs_extractURL.of_ok h₁
  have e₄ : s.fs = s₃.fs := sameFs_extractCloud.of_ok h₇
  have hcl := extractCloud_remoteDir h₇
  rcases extractConfigMapDir_data h₃ with ⟨hc, rfl, -, rfl⟩ | ⟨c, m, d, hc, hm, rfl, hmat⟩ <;>
    rcases extractLocalDir_data h₅ with ⟨hl, rfl, -, rfl⟩ | ⟨m', d', hl, hnone, rfl, hmat'⟩
  · refine ⟨by simp [hc], hcl, by simp [hc, hl], fun m hm => ?_⟩
    simp [hc, hl] at hm
  · refine ⟨by simp [hc], hcl, by simp [hc, hl], fun m hsrc hk => ?_⟩
    obtain rfl : m' = m := by simpa [hc, hl] using hsrc
    obtain ⟨p, rfl, hp⟩ := hmat' hk
    exact ⟨p, rfl, materialized_congr hp e₁.symm e₄⟩
  · refine ⟨by simp [hl], hcl, by simp [hc, hl], fun m' hsrc hk => ?_⟩
    obtain rfl : m = m' := by simpa [hc, hl, hm] using hsrc
    obtain ⟨p, rfl, hp⟩ := hmat hk
    exact ⟨p, rfl, materialized_congr hp e₁.symm e₄⟩
  · cases hnone

theorem extract_ok_sources_localOne :
    ∃ md cl s, extractMigrationData oneFileWorld localOne ⟨localOne, tmpOnly, [], []⟩ = .ok (md, cl) s ∧
      ¬ (localOne.spec.dir.configMapRef.isSome ∧ localOne.spec.dir.«local».isSome) ∧
      md.cloud.map (·.remoteDir) = localOne.spec.cloud.tokenFrom.secretKeyRef.map (fun _ =>
        if localOne.spec.dir.remote.name ≠ "" then
          some ⟨localOne.spec.dir.remote.name, localOne.spec.dir.remote.tag⟩ else none) ∧
      (md.migration = none ↔
        localOne.spec.dir.configMapRef = none ∧ localOne.spec.dir.«local» = none) ∧
      ∀ m, (localOne.spec.dir.«local» = some m ∨ ∃ c, localOne.spec.dir.configMapRef = some c ∧
          oneFileWorld.configMap ⟨localOne.ns, c⟩ = .ok m) → PlainKeys m →
        ∃ p, md.migration = some ⟨"file://" ++ p⟩ ∧ Materialized tmpOnly s.fs p m := by
  obtain ⟨⟨md, cl⟩, s, h⟩ : ∃ r s, extractMigrationData oneFileWorld localOne
      ⟨localOne, tmpOnly, [], []⟩ = .ok r s := ⟨_, _, rfl⟩
  exact ⟨md, cl, s, h, extract_ok_sources h⟩

/-- A resource with a local directory and a remote directory, and no cloud token. -/
def localAndRemote : AtlasMigration :=
  { localOne with spec := { localOne.spec with dir := { localOne.spec.dir with remote := ⟨"dir", "1"⟩ } } }

/-- Extraction succeeds on `localAndRemote` with the local directory and no
trace of the remote one. -/
theorem remote_dropped_beside_local :
    ∃ md cl s, extractMigrationData oneFileWorld localAndRemote ⟨localAndRemote, tmpOnly, [], []⟩ =
      .ok (md, cl) s ∧ md.cloud = none ∧ md.migration.isSome :=
  ⟨_, _, _, rfl, rfl, rfl⟩

end Extract

def escapingMap : GoMap := ⟨[("../x.sql", "drop table users;")], by decide⟩

/-- A resource with `escapingMap` for its local directory. -/
def escapingKey : AtlasMigration :=
  { localOne with spec := { localOne.spec with dir := { «local» := some escapingMap } } }

/-- The pass on `escapingKey` writes `/tmp/x.sql`, beside its temporary
directory, and leaves it there. -/
theorem pass_writes_outside_tmp_dir :
    ["x.sql".toList, "tmp".toList] ∉ tmpOnly.files.map Prod.fst ∧
      ["x.sql".toList, "tmp".toList] ∈
        (PassM.final (pass okLib oneFileWorld escapingKey tmpOnly)).fs.files.map Prod.fst := by
  decide

end AtlasOperator.Proofs
