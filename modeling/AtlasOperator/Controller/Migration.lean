import AtlasOperator.Controller.Data

namespace AtlasOperator

structure StatusParams where
  env : String
  configURL : String
deriving DecidableEq, Repr

structure ApplyParams where
  env : String
  configURL : String
deriving DecidableEq, Repr

/-- An applied revision as `atlas.StatusReport` lists it; `executedAt` is `ExecutedAt.Unix()`. -/
structure Revision where
  version : String
  executedAt : Int
deriving DecidableEq, Repr

/-- `atlas.StatusReport`. -/
structure StatusReport where
  current : String
  applied : List Revision
  pending : List String
deriving DecidableEq, Repr

/-- `atlas.ApplyReport`; `«end»` is `End.Unix()`. -/
structure ApplyReport where
  target : String
  «end» : Int
  error : String
deriving DecidableEq, Repr

/-- The `MigrateCLI` the reconciler was given: its answers to `Status` and
`Apply`, a nil report being `none`. -/
structure MigrateCLI where
  status : StatusParams → Except Err (Option StatusReport)
  apply : ApplyParams → Except Err (Option ApplyReport)

/-- Everything outside the controller a pass meets: secrets and config maps as the
client returns them, the executor, the map iteration order and `os.MkdirTemp`'s names. -/
structure World where
  secretValue : String → SecretKeySelector → Except Err String
  configMap : NamespacedName → Except Err GoMap
  cli : MigrateCLI
  iter : Iteration
  temp : TempNames

/-- An object a pass reads through the client. -/
inductive Ref
  | secret (n : NamespacedName)
  | configMap (n : NamespacedName)
deriving DecidableEq, Repr

/-- `corev1.EventTypeNormal` and `corev1.EventTypeWarning`. -/
inductive EventType
  | normal | warning
deriving DecidableEq, Repr

structure Event where
  type : EventType
  reason : String
  message : String
deriving DecidableEq, Repr

/-- The local variables of `Reconcile` that outlive its calls. -/
structure PassState where
  am : AtlasMigration
  fs : Fs
  events : List Event
  reads : List Ref

/-- How a computation leaves early: a Go error, caught where the code tests
`err != nil`, or the panic of a nil dereference, which nothing catches. -/
inductive Exit
  | err (e : Err)
  | panic (msg : String)
deriving DecidableEq, Repr

abbrev PassM := EStateM Exit PassState

def PassM.final {α : Type} : EStateM.Result Exit PassState α → PassState
  | .ok _ s => s
  | .error _ s => s

/-- `return ..., err`. -/
def fail {α : Type} (e : Err) : PassM α := throw (.err e)

/-- A nil pointer dereference. -/
def nilDeref {α : Type} : PassM α := throw (.panic "invalid memory address or nil pointer dereference")

/-- The error result of a call, as the caller's `if err != nil` sees it; a panic goes on. -/
def attempt {α : Type} (x : PassM α) : PassM (Except Err α) := fun s =>
  match x s with
  | .ok a s => .ok (.ok a) s
  | .error (.err e) s => .ok (.error e) s
  | .error (.panic m) s => .error (.panic m) s

def recordRead (r : Ref) : PassM Unit := modify fun s => { s with reads := s.reads ++ [r] }

/-- `r.recorder.Event`. -/
def emit (e : Event) : PassM Unit := modify fun s => { s with events := s.events ++ [e] }

/-- `am.SetNotReady(reason, message)` on the pass's resource. -/
def setNotReady (reason message : String) : PassM Unit :=
  modify fun s => { s with am := s.am.setNotReady reason message }

/-- A file-system call: its error is returned, its effect kept. -/
def onFs {α : Type} (f : Fs → Except Err (α × Fs)) : PassM α := fun s =>
  match f s.fs with
  | .ok (a, fs) => .ok a { s with fs := fs }
  | .error e => .error (.err e) s

/-- The cleanup function a directory comes with: nothing, or `os.RemoveAll(dir)`. -/
inductive CleanUp
  | none
  | removeAll (dir : String)
deriving DecidableEq, Repr

/-- Calling the cleanup function; its error is ignored. -/
def CleanUp.run : CleanUp → Fs → Fs
  | .none, fs => fs
  | .removeAll dir, fs => fs.removeAll dir

/-- `defer cleanUp()`: it runs on every way out of `body`, a panic included. -/
def deferring {α : Type} (body : PassM α) (cl : CleanUp) : PassM α := fun s =>
  match body s with
  | .ok a s => .ok a { s with fs := cl.run s.fs }
  | .error e s => .error e { s with fs := cl.run s.fs }

/-- Modelled from the spec: `getSecretValue`, not in the source tree. The key's value
of the secret `sel.name`, or its error, classified as the spec says. -/
def getSecretValue (w : World) (ns : String) (sel : SecretKeySelector) : PassM String := do
  recordRead (.secret ⟨ns, sel.name⟩)
  match w.secretValue ns sel with
  | .ok v => pure v
  | .error e => fail e

/-- Modelled from the spec: `hydrateCredentials`, not in the source tree. A
password given by a secret reference is read with `getSecretValue`. -/
def hydrateCredentials (w : World) (creds : Credentials) (ns : String) : PassM Credentials :=
  match creds.passwordFrom.secretKeyRef with
  | some ref => do
    let p ← getSecretValue w ns ref
    pure { creds with password := p }
  | none => pure creds

/-- The loop of `createTmpDirFromMap`: each entry becomes the file
`filepath.Join(tmpDir, key)`; the first failed write removes the directory. -/
def writeEntries (tmpDir : String) : List (String × String) → PassM Unit
  | [] => pure ()
  | (key, value) :: rest => fun s =>
    match s.fs.writeFile (filepathJoin tmpDir key) value with
    | .ok fs => writeEntries tmpDir rest { s with fs := fs }
    | .error e => .error (.err e) { s with fs := s.fs.removeAll tmpDir }

def createTmpDirFromMap (w : World) (m : GoMap) : PassM (String × CleanUp) := do
  let tmpDir ← onFs (tempDir · w.temp)
  writeEntries tmpDir (w.iter.visit m)
  pure ("file://" ++ tmpDir, .removeAll tmpDir)

def createTmpDirFromCfgMap (w : World) (ns cfgName : String) : PassM (String × CleanUp) := do
  recordRead (.configMap ⟨ns, cfgName⟩)
  match w.configMap ⟨ns, cfgName⟩ with
  | .error e => fail (transient e)
  | .ok data => createTmpDirFromMap w data

/-- The database URL of `extractMigrationData`: the first of `URL`, `URLFrom`
and `Credentials` that is set. -/
def extractURL (w : World) (am : AtlasMigration) : PassM String :=
  if am.spec.url ≠ "" then pure am.spec.url
  else match am.spec.urlFrom.secretKeyRef with
    | some ref => getSecretValue w am.ns ref
    | none =>
      if am.spec.credentials.host ≠ "" then do
        let creds ← hydrateCredentials w am.spec.credentials am.ns
        pure (creds.URL w.iter).string
      else pure ""

/-- The config map block of `extractMigrationData`. -/
def extractConfigMapDir (w : World) (am : AtlasMigration) : PassM (Option Migration × CleanUp) :=
  match am.spec.dir.configMapRef with
  | some c => do
    let (d, cl) ← createTmpDirFromCfgMap w am.ns c
    pure (some ⟨d⟩, cl)
  | none => pure (none, .none)

/-- The local directory block of `extractMigrationData`; after a config map it fails. -/
def extractLocalDir (w : World) (am : AtlasMigration) (migration : Option Migration)
    (cleanUpDir : CleanUp) : PassM (Option Migration × CleanUp) :=
  match am.spec.dir.«local» with
  | some m =>
    if migration.isSome then fail ⟨"cannot define both configmap and local directory", false⟩
    else do
      let (d, cl) ← createTmpDirFromMap w m
      pure (some ⟨d⟩, cl)
  | none => pure (migration, cleanUpDir)

/-- The cloud settings of `extractMigrationData`, present when a token secret is referenced. -/
def extractCloud (w : World) (am : AtlasMigration) : PassM (Option Cloud) :=
  match am.spec.cloud.tokenFrom.secretKeyRef with
  | some ref => do
    let remoteDir : Option RemoteDir :=
      if am.spec.dir.remote.name ≠ "" then some ⟨am.spec.dir.remote.name, am.spec.dir.remote.tag⟩
      else none
    let token ← getSecretValue w am.ns ref
    pure (some ⟨am.spec.cloud.url, token, am.spec.cloud.project, remoteDir⟩)
  | none => pure none

def extractMigrationData (w : World) (am : AtlasMigration) : PassM (AtlasMigrationData × CleanUp) := do
  let url ← extractURL w am
  let (migration, cleanUpDir) ← extractConfigMapDir w am
  let (migration, cleanUpDir) ← extractLocalDir w am migration cleanUpDir
  let cloud ← extractCloud w am
  let envName := if am.spec.envName = "" then "kubernetes" else am.spec.envName
  pure (⟨envName, url, migration, cloud, am.spec.revisionsSchema⟩, cleanUpDir)

def liftErr {α : Type} : Except Err α → PassM α
  | .ok a => pure a
  | .error e => fail e

/-- `reconcile`: ask the executor for pending migrations and apply them. -/
def reconcile (lib : Lib) (w : World) (md : AtlasMigrationData) : PassM AtlasMigrationStatus := do
  let atlasHCL ← liftErr (lib.render md)
  let hash ← liftErr (md.hash lib (← get).fs)
  match w.cli.status ⟨md.envName, atlasHCL⟩ with
  | .error e => fail (transient e)
  | .ok none => nilDeref
  | .ok (some status) =>
    if status.pending.length = 0 then
      let lastApplied := match status.applied.getLast? with
        | some r => r.executedAt
        | none => 0
      pure { observedHash := hash, lastApplied := lastApplied,
             lastAppliedVersion := status.current }
    else
      match w.cli.apply ⟨md.envName, atlasHCL⟩ with
      | .error e => fail (transient e)
      | .ok (some report) =>
        if report.error ≠ "" then
          let err : Err := ⟨report.error, false⟩
          fail (if lib.isSQLErr err then err else transient err)
        else pure { observedHash := hash, lastApplied := report.«end»,
                    lastAppliedVersion := report.target }
      | .ok none => nilDeref

/-- The warning `recordErrEvent` records for `e`. -/
def errEvent (e : Err) : Event :=
  ⟨.warning, if e.transient then "TransientErr" else "Error", trimSpace e.msg⟩

def recordErrEvent (e : Err) : PassM Unit := emit (errEvent e)

def appliedEvent (st : AtlasMigrationStatus) : Event :=
  ⟨.normal, "Applied", s!"Version {st.lastAppliedVersion} applied"⟩

/-- `Reconcile` after `defer cleanUp()`: fingerprint, change detection and the
executor. -/
def reconcileData (lib : Lib) (w : World) (md : AtlasMigrationData) :
    PassM (CtrlResult × Option Err) := do
  match md.hash lib (← get).fs with
  | .error e => do
    setNotReady "CalculatingHash" e.msg
    pure ({}, none)
  | .ok hash =>
    if (← get).am.isReady ∧ (← get).am.isHashModified hash then do
      setNotReady "Reconciling" "Current migration data has changed"
      pure ({ requeue := true }, none)
    else
      match ← attempt (reconcile lib w md) with
      | .error e => do
        setNotReady "Migrating" (trimSpace e.msg)
        recordErrEvent e
        pure (lib.result e)
      | .ok status => do
        emit (appliedEvent status)
        modify fun s => { s with am := s.am.setReady status }
        pure ({}, none)

/-- `Reconcile` between `r.Get` and its deferred status update. -/
def reconcileBody (lib : Lib) (w : World) : PassM (CtrlResult × Option Err) := do
  if (← get).am.status.conditions.length = 0 then do
    setNotReady "Reconciling" "Reconciling"
    pure ({ requeue := true }, none)
  else
    match ← attempt (extractMigrationData w (← get).am) with
    | .error e => do
      setNotReady "ReadingMigrationData" e.msg
      recordErrEvent e
      pure (lib.result e)
    | .ok (md, cleanUp) => deferring (reconcileData lib w md) cleanUp

/-- A pass on the resource `am` as read, over the file system `fs`. -/
def pass (lib : Lib) (w : World) (am : AtlasMigration) (fs : Fs) :
    EStateM.Result Exit PassState (CtrlResult × Option Err) :=
  reconcileBody lib w ⟨am, fs, [], []⟩

end AtlasOperator
