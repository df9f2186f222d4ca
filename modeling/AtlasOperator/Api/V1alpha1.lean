import AtlasOperator.Lib.Url

namespace AtlasOperator

/-- `types.NamespacedName`. -/
structure NamespacedName where
  ns : String
  name : String
deriving DecidableEq, Repr

/-- `corev1.SecretKeySelector`: a key of a secret in the resource's namespace. -/
structure SecretKeySelector where
  name : String
  key : String
deriving DecidableEq, Repr

structure URLFrom where
  secretKeyRef : Option SecretKeySelector := none
deriving DecidableEq, Repr

structure PasswordFrom where
  secretKeyRef : Option SecretKeySelector := none
deriving DecidableEq, Repr

structure TokenFrom where
  secretKeyRef : Option SecretKeySelector := none
deriving DecidableEq, Repr

/-- `Credentials`: the database connection given field by field. -/
structure Credentials where
  scheme : String := ""
  user : String := ""
  password : String := ""
  passwordFrom : PasswordFrom := {}
  host : String := ""
  port : Int := 0
  database : String := ""
  parameters : GoMap := .empty
deriving DecidableEq

/-- `(*Credentials).URL`; the loop over `c.Parameters` visits them in the
order `it` gives. -/
def Credentials.URL (it : Iteration) (c : Credentials) : AtlasOperator.URL :=
  let u : AtlasOperator.URL := { scheme := c.scheme, path := c.database }
  let u := if c.user ≠ "" ∨ c.password ≠ "" then
      { u with user := some ⟨c.user, c.password, true⟩ } else u
  let u := if c.parameters.entries.length > 0 then
      { u with rawQuery :=
          ((it.visit c.parameters).foldl (fun qs p => Values.set qs p.1 p.2) []).encode }
    else u
  let host := if c.port > 0 then c.host ++ ":" ++ toString c.port else c.host
  { u with host := host }

structure Remote where
  name : String := ""
  tag : String := ""
deriving DecidableEq, Repr

structure Dir where
  configMapRef : Option String := none
  «local» : Option GoMap := none
  remote : Remote := {}
deriving DecidableEq

/-- `Cloud`: the Atlas Cloud settings. -/
structure CloudSpec where
  url : String := ""
  project : String := ""
  tokenFrom : TokenFrom := {}
deriving DecidableEq, Repr

structure AtlasMigrationSpec where
  url : String := ""
  urlFrom : URLFrom := {}
  credentials : Credentials := {}
  envName : String := ""
  cloud : CloudSpec := {}
  dir : Dir := {}
  revisionsSchema : String := ""
deriving DecidableEq

/-- `metav1.ConditionStatus`. -/
inductive ConditionStatus
  | true | false | unknown
deriving DecidableEq, Repr

/-- `metav1.Condition`, without the transition time and generation no code here reads. -/
structure Condition where
  type : String
  status : ConditionStatus
  reason : String
  message : String
deriving DecidableEq, Repr

/-- `meta.SetStatusCondition`: the first condition of the same type is updated
in place, or the new one appended. -/
def setStatusCondition : List Condition → Condition → List Condition
  | [], c => [c]
  | x :: xs, c =>
    if x.type = c.type then { x with status := c.status, reason := c.reason, message := c.message } :: xs
    else x :: setStatusCondition xs c

/-- `meta.IsStatusConditionTrue`. -/
def isStatusConditionTrue (cs : List Condition) (t : String) : Bool :=
  (cs.find? (·.type = t)).any (·.status = .true)

structure AtlasMigrationStatus where
  conditions : List Condition := []
  observedHash : String := ""
  lastApplied : Int := 0
  lastAppliedVersion : String := ""
deriving DecidableEq, Repr

/-- `AtlasMigration` of `atlasmigration_types.go`, which is not in the source tree:
modelled from the controller's uses and the spec. -/
structure AtlasMigration where
  name : String
  ns : String
  spec : AtlasMigrationSpec := {}
  status : AtlasMigrationStatus := {}
deriving DecidableEq

namespace AtlasMigration

/-- `(*AtlasMigration).NamespacedName`. -/
def namespacedName (am : AtlasMigration) : NamespacedName := ⟨am.ns, am.name⟩

/-- Modelled from the spec: `SetNotReady`. The `Ready` condition turns false with the
given reason and message; nothing else of the status changes. -/
def setNotReady (am : AtlasMigration) (reason message : String) : AtlasMigration :=
  { am with status := { am.status with
      conditions := setStatusCondition am.status.conditions ⟨"Ready", .false, reason, message⟩ } }

/-- Modelled from the spec: `SetReady`. The observed status takes the pass's
fingerprint, time and version, and the `Ready` condition turns true. -/
def setReady (am : AtlasMigration) (st : AtlasMigrationStatus) : AtlasMigration :=
  { am with status := { am.status with
      observedHash := st.observedHash, lastApplied := st.lastApplied,
      lastAppliedVersion := st.lastAppliedVersion,
      conditions := setStatusCondition am.status.conditions ⟨"Ready", .true, "Applied", ""⟩ } }

/-- Modelled from the spec: `IsReady` of `atlasmigration_types.go`. -/
def isReady (am : AtlasMigration) : Bool := isStatusConditionTrue am.status.conditions "Ready"

/-- Modelled from the spec: `IsHashModified` of `atlasmigration_types.go`. -/
def isHashModified (am : AtlasMigration) (hash : String) : Bool := hash ≠ am.status.observedHash

end AtlasMigration

end AtlasOperator
