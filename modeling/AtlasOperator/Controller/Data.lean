import AtlasOperator.Api.V1alpha1
import AtlasOperator.Lib.Fs

namespace AtlasOperator

structure Migration where
  dir : String
deriving DecidableEq, Repr

structure RemoteDir where
  name : String
  tag : String
deriving DecidableEq, Repr

structure Cloud where
  url : String
  token : String
  project : String
  remoteDir : Option RemoteDir
deriving DecidableEq, Repr

/-- `atlasMigrationData`: what the template renders and the fingerprint covers. -/
structure AtlasMigrationData where
  envName : String := ""
  url : String := ""
  migration : Option Migration := none
  cloud : Option Cloud := none
  revisionsSchema : String := ""
deriving DecidableEq, Repr

/-- `ctrl.Result`. -/
structure CtrlResult where
  requeue : Bool := false
  requeueAfter : Nat := 0
deriving DecidableEq, Repr

/-- Library calls outside the repository: `sum` (hex SHA-256 of the bytes written),
`urlPath` (`url.Parse`, `.Path`), `checksum`, `render` (`atlas.TempFile`), `isSQLErr`, `result`. -/
structure Lib where
  sum : String → String
  urlPath : String → Except Err String
  checksum : List (String × String) → Except Err String
  render : AtlasMigrationData → Except Err String
  isSQLErr : Err → Bool
  result : Err → CtrlResult × Option Err

namespace AtlasMigrationData

/-- The local directory's part of the fingerprint: its checksum, read from the
path of the directory's URL. -/
def dirSum (lib : Lib) (fs : Fs) (m : Migration) : Except Err String := do
  let u ← lib.urlPath m.dir
  let d ← fs.localDir u
  lib.checksum d

/-- The arguments of `hash`'s calls to `h.Write`: the URL, the cloud's token, URL and
project, then the remote directory's name and tag or the local directory's checksum. -/
def writes (lib : Lib) (fs : Fs) (amd : AtlasMigrationData) : Except Err (List String) :=
  match amd.cloud with
  | some c =>
    match c.remoteDir with
    | some r => .ok [amd.url, c.token, c.url, c.project, r.name, r.tag]
    | none => localPart [amd.url, c.token, c.url, c.project]
  | none => localPart [amd.url]
where
  localPart (ws : List String) : Except Err (List String) :=
    match amd.migration with
    | none => .ok ws
    | some m => (dirSum lib fs m).map (ws ++ [·])

/-- The bytes the accumulator has seen when `hash` sums it. -/
def hashInput (lib : Lib) (fs : Fs) (amd : AtlasMigrationData) : Except Err String :=
  (amd.writes lib fs).map String.join

/-- `atlasMigrationData.hash`. -/
def hash (lib : Lib) (fs : Fs) (amd : AtlasMigrationData) : Except Err String :=
  (amd.hashInput lib fs).map lib.sum

end AtlasMigrationData

end AtlasOperator
