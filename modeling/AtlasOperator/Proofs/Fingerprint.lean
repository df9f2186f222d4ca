import Mathlib.Data.String.Basic
import AtlasOperator.Proofs.Cleanup

namespace AtlasOperator.Proofs

theorem join_cancel {pre suf : List String} {x y : String}
    (h : String.join (pre ++ x :: suf) = String.join (pre ++ y :: suf)) : x = y := by
  have h := congrArg String.data h
  simp only [String.data_join, List.map_append, List.map_cons, List.flatten_append,
    List.flatten_cons, List.append_cancel_left_eq, List.append_cancel_right_eq] at h
  exact String.ext h

/-- What `hash` writes after the URL: the cloud's token, URL and project, then
its remote directory's name and tag. -/
def cloudWrites : Option Cloud → List String
  | none => []
  | some c => c.token :: c.url :: c.project :: (c.remoteDir.map fun r => [r.name, r.tag]).getD []

/-- The local directory's checksum, which `hash` writes last when there is no
remote directory. -/
def checksumWrite (lib : Lib) (fs : Fs) (amd : AtlasMigrationData) : Except Err (List String) :=
  match amd.cloud.bind (·.remoteDir), amd.migration with
  | none, some m => (AtlasMigrationData.dirSum lib fs m).map ([·])
  | _, _ => .ok []

theorem writes_eq (lib : Lib) (fs : Fs) (amd : AtlasMigrationData) :
    amd.writes lib fs = (checksumWrite lib fs amd).map (amd.url :: cloudWrites amd.cloud ++ ·) := by
  obtain ⟨_, _, mig, cloud, _⟩ := amd
  cases mig with
  | none => rcases cloud with _ | ⟨_, _, _, _ | _⟩ <;> rfl
  | some m =>
    rcases cloud with _ | ⟨_, _, _, _ | _⟩ <;>
      simp only [AtlasMigrationData.writes, AtlasMigrationData.writes.localPart, checksumWrite,
        Option.none_bind, Option.some_bind] <;>
      cases AtlasMigrationData.dirSum lib fs m <;> rfl

theorem hashInput_eq (lib : Lib) (fs : Fs) (amd : AtlasMigrationData) :
    amd.hashInput lib fs =
      (checksumWrite lib fs amd).map fun tl => String.join (amd.url :: cloudWrites amd.cloud ++ tl) := by
  rw [AtlasMigrationData.hashInput, writes_eq]
  cases checksumWrite lib fs amd <;> rfl

/-- `b` is `a` with one field that `hash` writes changed, the cloud and its
remote directory present in both or in neither. -/
inductive OneFieldApart (lib : Lib) (fs : Fs) : AtlasMigrationData → AtlasMigrationData → Prop
  | url (a : AtlasMigrationData) (u : String) : u ≠ a.url → OneFieldApart lib fs a { a with url := u }
  | token (a : AtlasMigrationData) (c : Cloud) (t : String) : a.cloud = some c → t ≠ c.token →
      OneFieldApart lib fs a { a with cloud := some { c with token := t } }
  | cloudURL (a : AtlasMigrationData) (c : Cloud) (u : String) : a.cloud = some c → u ≠ c.url →
      OneFieldApart lib fs a { a with cloud := some { c with url := u } }
  | project (a : AtlasMigrationData) (c : Cloud) (p : String) : a.cloud = some c → p ≠ c.project →
      OneFieldApart lib fs a { a with cloud := some { c with project := p } }
  | remoteName (a : AtlasMigrationData) (c : Cloud) (r : RemoteDir) (n : String) : a.cloud = some c →
      c.remoteDir = some r → n ≠ r.name →
      OneFieldApart lib fs a { a with cloud := some { c with remoteDir := some { r with name := n } } }
  | remoteTag (a : AtlasMigrationData) (c : Cloud) (r : RemoteDir) (t : String) : a.cloud = some c →
      c.remoteDir = some r → t ≠ r.tag →
      OneFieldApart lib fs a { a with cloud := some { c with remoteDir := some { r with tag := t } } }
  | checksum (a : AtlasMigrationData) (m m' : Migration) :
      (∀ c, a.cloud = some c → c.remoteDir = none) → a.migration = some m →
      AtlasMigrationData.dirSum lib fs m ≠ AtlasMigrationData.dirSum lib fs m' →
      OneFieldApart lib fs a { a with migration := some m' }

section OneField

variable {lib : Lib} {fs : Fs} {a b : AtlasMigrationData}

theorem map_join_ne (pre : List String) {T : Except Err (List String)} {suf : List String}
    {x y z : String} (hxy : x ≠ y) (h : T.map (fun tl => String.join (pre ++ x :: suf ++ tl)) = .ok z) :
    T.map (fun tl => String.join (pre ++ y :: suf ++ tl)) ≠ .ok z := by
  cases T with
  | error => cases h
  | ok tl =>
    simp only [Except.map, ne_eq, Except.ok.injEq] at h ⊢
    rintro rfl
    have h' : String.join (pre ++ x :: (suf ++ tl)) = String.join (pre ++ y :: (suf ++ tl)) := by
      simpa using h
    exact hxy (join_cancel h')

theorem map_singleton {β : Type} (T : Except Err String) (f : List String → β) :
    (T.map ([·])).map f = T.map fun s => f [s] := by
  cases T <;> rfl

theorem except_map_inj {α β : Type} {f : α → β} (hf : Function.Injective f) {T T' : Except Err α}
    {z : β} (h : T.map f = .ok z) (h' : T'.map f = .ok z) : T = T' := by
  cases T <;> cases T' <;> simp only [Except.map, Except.ok.injEq, reduceCtorEq] at h h'
  exact congrArg _ (hf (h.trans h'.symm))

theorem checksumWrite_cloud {c : Cloud} (c' : Cloud) (hc : a.cloud = some c)
    (hr : c'.remoteDir.isSome = c.remoteDir.isSome) :
    checksumWrite lib fs { a with cloud := some c' } = checksumWrite lib fs a := by
  simp only [checksumWrite, hc, Option.some_bind]
  cases h₁ : c'.remoteDir <;> cases h₂ : c.remoteDir <;> simp [h₁, h₂] at hr ⊢

theorem checksumWrite_local {m : Migration} (hr : ∀ c, a.cloud = some c → c.remoteDir = none)
    (hm : a.migration = some m) :
    checksumWrite lib fs a = (AtlasMigrationData.dirSum lib fs m).map ([·]) := by
  cases hc : a.cloud with
  | none => simp only [checksumWrite, hc, hm, Option.none_bind]
  | some c => simp only [checksumWrite, hc, hm, Option.some_bind, hr c hc]

theorem hashInput_ne_one_field (h : OneFieldApart lib fs a b) {x : String}
    (ha : a.hashInput lib fs = .ok x) : b.hashInput lib fs ≠ .ok x := by
  rw [hashInput_eq] at ha ⊢
  cases h with
  | url u hu => exact map_join_ne [] hu.symm ha
  | token c t hc ht =>
    rw [hc] at ha
    rw [checksumWrite_cloud { c with token := t } hc rfl]
    exact map_join_ne [a.url] ht.symm ha
  | cloudURL c v hc hv =>
    rw [hc] at ha
    rw [checksumWrite_cloud { c with url := v } hc rfl]
    exact map_join_ne [a.url, c.token] hv.symm ha
  | project c p hc hp =>
    rw [hc] at ha
    rw [checksumWrite_cloud { c with project := p } hc rfl]
    exact map_join_ne [a.url, c.token, c.url] hp.symm ha
  | remoteName c r n hc hr hn =>
    rw [hc, cloudWrites, hr] at ha
    rw [checksumWrite_cloud _ hc (by rw [hr]; rfl)]
    exact map_join_ne [a.url, c.token, c.url, c.project] hn.symm ha
  | remoteTag c r t hc hr ht =>
    rw [hc, cloudWrites, hr] at ha
    rw [checksumWrite_cloud _ hc (by rw [hr]; rfl)]
    exact map_join_ne [a.url, c.token, c.url, c.project, r.name] ht.symm ha
  | checksum m m' hr hm hd =>
    rw [checksumWrite_local hr hm, map_singleton] at ha
    rw [checksumWrite_local (a := { a with migration := some m' }) hr rfl, map_singleton]
    exact fun hb => hd (except_map_inj (fun _ _ h => join_cancel h) ha hb)

/-- Two inputs one field apart write different bytes, so their fingerprints,
the sums of those bytes, are equal only through a collision of the sum. -/
theorem hashInput_ne_of_one_field (h : OneFieldApart lib fs a b) {x y : String}
    (ha : a.hashInput lib fs = .ok x) (hb : b.hashInput lib fs = .ok y) :
    x ≠ y ∧ a.hash lib fs = .ok (lib.sum x) ∧ b.hash lib fs = .ok (lib.sum y) := by
  refine ⟨fun hxy => hashInput_ne_one_field h ha (hxy ▸ hb), ?_, ?_⟩
  · rw [AtlasMigrationData.hash, ha]; rfl
  · rw [AtlasMigrationData.hash, hb]; rfl

end OneField

/-- A cloud resource with a remote directory. -/
def remoteData (url token : String) : AtlasMigrationData :=
  { url := url, cloud := some ⟨"https://atlasgo.cloud", token, "app", some ⟨"migrations", "1"⟩⟩ }

theorem hashInput_ne_token :
    OneFieldApart okLib tmpOnly (remoteData "postgres://a" "bc") (remoteData "postgres://a" "bd") ∧
      "postgres://abchttps://atlasgo.cloudappmigrations1" ≠ "postgres://abdhttps://atlasgo.cloudappmigrations1" ∧
      (remoteData "postgres://a" "bc").hash okLib tmpOnly =
        .ok (okLib.sum "postgres://abchttps://atlasgo.cloudappmigrations1") ∧
      (remoteData "postgres://a" "bd").hash okLib tmpOnly =
        .ok (okLib.sum "postgres://abdhttps://atlasgo.cloudappmigrations1") :=
  have h : OneFieldApart okLib tmpOnly (remoteData "postgres://a" "bc") (remoteData "postgres://a" "bd") :=
    .token _ ⟨"https://atlasgo.cloud", "bc", "app", some ⟨"migrations", "1"⟩⟩ "bd" rfl (by decide)
  ⟨h, hashInput_ne_of_one_field h rfl rfl⟩

/-- Text moved from the token to the URL, and an empty cloud in place of none, leave the
bytes, and so the fingerprint, unchanged. -/
theorem hash_not_injective :
    (remoteData "postgres://a" "bc" ≠ remoteData "postgres://ab" "c" ∧
      ∀ lib fs, (remoteData "postgres://a" "bc").hash lib fs =
        (remoteData "postgres://ab" "c").hash lib fs) ∧
    (({ url := "postgres://a" } : AtlasMigrationData) ≠
        { url := "postgres://a", cloud := some ⟨"", "", "", none⟩ } ∧
      ∀ lib fs, ({ url := "postgres://a" } : AtlasMigrationData).hash lib fs =
        ({ url := "postgres://a", cloud := some ⟨"", "", "", none⟩ } : AtlasMigrationData).hash lib fs) :=
  ⟨⟨by decide, fun lib _ => congrArg (Except.map lib.sum) rfl⟩,
    ⟨by decide, fun lib _ => congrArg (Except.map lib.sum) rfl⟩⟩

/-- The fingerprint `Reconcile` computes at line 147 from what
`extractMigrationData` returns for `am`; `none` when extraction fails. -/
def fingerprint (lib : Lib) (w : World) (am : AtlasMigration) (fs : Fs) : Option (Except Err String) :=
  match extractMigrationData w am ⟨am, fs, [], []⟩ with
  | .ok (md, _) s => some (md.hash lib s.fs)
  | .error _ _ => none

/-- Library calls whose checksum is the files' contents in name order. -/
def contentLib : Lib :=
  { okLib with checksum := fun l => .ok (String.join (l.map Prod.snd)) }

def aliasedKeys : GoMap := ⟨[("1.sql", "create table a(id int);"), ("./1.sql", "create table b(id int);")],
  by decide⟩

/-- An observed resource whose migrations are `aliasedKeys`. -/
def aliasedDir : AtlasMigration :=
  { name := "m", ns := "default",
    spec := { url := "sqlite://file", dir := { «local» := some aliasedKeys } },
    status := { conditions := [⟨"Ready", .false, "Reconciling", "Reconciling"⟩] } }

/-- Visiting the local map in the two orders gives two fingerprints: the file
`1.sql` keeps the content of the key written last. -/
theorem fingerprint_depends_on_order :
    fingerprint contentLib oneFileWorld aliasedDir tmpOnly ≠
      fingerprint contentLib { oneFileWorld with iter := .reversed } aliasedDir tmpOnly := by
  rw [show fingerprint contentLib oneFileWorld aliasedDir tmpOnly =
      some (.ok "sqlite://filecreate table b(id int);") from rfl,
    show fingerprint contentLib { oneFileWorld with iter := .reversed } aliasedDir tmpOnly =
      some (.ok "sqlite://filecreate table a(id int);") from rfl]
  simp

end AtlasOperator.Proofs
