import AtlasOperator.Controller.Migration

namespace AtlasOperator

/-- Modelled from the spec (`controllers/watch` is not in the source tree). `Watch` only adds
edges, as the spec's `WatchIndex` says per edge: the one per-call `Watch` that keeps all of a
pass's `r.watch` calls, though the spec's dependency watcher (section 4.2) asks for removals. -/
structure ResourceWatcher where
  edges : List (NamespacedName × NamespacedName)
deriving DecidableEq, Repr

namespace ResourceWatcher

/-- Modelled from the spec: `(*ResourceWatcher).Watch(watched, dependent)`. -/
def watch (rw : ResourceWatcher) (watched dependent : NamespacedName) : ResourceWatcher :=
  if (watched, dependent) ∈ rw.edges then rw else ⟨rw.edges ++ [(watched, dependent)]⟩

/-- Modelled from the spec: the requests the watcher's event handler enqueues
when the object `obj` changes. -/
def requests (rw : ResourceWatcher) (obj : NamespacedName) : List NamespacedName :=
  (rw.edges.filter (·.1 = obj)).map (·.2)

/-- One `if ...; s != nil { w.Watch(...) }` block of `r.watch`. -/
def watchRef (rw : ResourceWatcher) (ref : Option String) (am : AtlasMigration) : ResourceWatcher :=
  match ref with
  | some n => rw.watch ⟨am.ns, n⟩ am.namespacedName
  | none => rw

end ResourceWatcher

/-- The reconciler's state and the API server's resources. -/
structure System where
  migrations : List AtlasMigration
  secretWatcher : ResourceWatcher
  configMapWatcher : ResourceWatcher
  fs : Fs

namespace System

/-- `r.Get(ctx, req.NamespacedName, &am)`. -/
def get (sys : System) (req : NamespacedName) : Option AtlasMigration :=
  sys.migrations.find? (·.namespacedName = req)

/-- `r.Status().Update(ctx, &am)`: the stored resource takes `am`'s status. -/
def updateStatus (sys : System) (am : AtlasMigration) : System :=
  { sys with migrations := sys.migrations.map fun x =>
      if x.namespacedName = am.namespacedName then { x with status := am.status } else x }

/-- `r.watch(am)`. -/
def watch (sys : System) (am : AtlasMigration) : System :=
  { sys with
    configMapWatcher := sys.configMapWatcher.watchRef am.spec.dir.configMapRef am,
    secretWatcher :=
      ((sys.secretWatcher.watchRef (am.spec.cloud.tokenFrom.secretKeyRef.map (·.name)) am).watchRef
        (am.spec.urlFrom.secretKeyRef.map (·.name)) am).watchRef
        (am.spec.credentials.passwordFrom.secretKeyRef.map (·.name)) am }

/-- The deferred function of `Reconcile`: the status update, which fails when
`written` is false, then the watches; with the pass's effect on the file system. -/
def finish (sys : System) (s : PassState) (written : Bool) : System :=
  let sys := { sys with fs := s.fs }
  (if written then sys.updateStatus s.am else sys).watch s.am

end System

/-- `Reconcile` for the request `req`: nothing when the resource is gone,
otherwise a pass and its deferred function. -/
def Reconcile (lib : Lib) (w : World) (written : Bool) (req : NamespacedName) (sys : System) : System :=
  match sys.get req with
  | none => sys
  | some am => sys.finish (PassM.final (pass lib w am sys.fs)) written

/-- What happens to the system between two moments. -/
inductive Step
  | reconcile (req : NamespacedName) (w : World) (written : Bool)
  | create (am : AtlasMigration)
  | edit (req : NamespacedName) (spec : AtlasMigrationSpec)
  | delete (req : NamespacedName)

/-- One step: a pass, or a user's change to the resources. A created resource
starts with an empty status; an edit changes the spec only. -/
def step (lib : Lib) (sys : System) : Step → System
  | .reconcile req w written => Reconcile lib w written req sys
  | .create am =>
    if (sys.get am.namespacedName).isSome then sys
    else { sys with migrations := sys.migrations ++ [{ am with status := {} }] }
  | .edit req spec =>
    { sys with migrations := sys.migrations.map fun x =>
        if x.namespacedName = req then { x with spec := spec } else x }
  | .delete req => { sys with migrations := sys.migrations.filter (·.namespacedName ≠ req) }

def run (lib : Lib) (sys : System) (steps : List Step) : System := steps.foldl (step lib) sys

def System.init (fs : Fs) : System := ⟨[], ⟨[]⟩, ⟨[]⟩, fs⟩

end AtlasOperator
