import AtlasOperator.Lib.Go
import AtlasOperator.Lib.Path
import AtlasOperator.Lib.Url
import AtlasOperator.Lib.Fs
import AtlasOperator.Api.V1alpha1
import AtlasOperator.Controller.Data
import AtlasOperator.Controller.Migration
import AtlasOperator.Controller.System
import AtlasOperator.Proofs.Pass
import AtlasOperator.Proofs.Files
import AtlasOperator.Proofs.Cleanup
import AtlasOperator.Proofs.Status
import AtlasOperator.Proofs.Fingerprint
import AtlasOperator.Proofs.Dependencies
import AtlasOperator.Proofs.Executor
import AtlasOperator.Proofs.Materialize
import AtlasOperator.Proofs.Order
import AtlasOperator.Proofs.ChangeCheck
import AtlasOperator.Proofs.Store
import AtlasOperator.Lib.UrlParse
import AtlasOperator.Proofs.Escaping
import AtlasOperator.Proofs.ParseString
import AtlasOperator.Proofs.CredentialsURL
import AtlasOperator.Proofs.DirURL
import AtlasOperator.Proofs.Events
import AtlasOperator.Proofs.NoLoss
import AtlasOperator.Proofs.Confine
import AtlasOperator.Proofs.Stable
import AtlasOperator.Proofs.FileURL
import AtlasOperator.Proofs.Conditions
import AtlasOperator.Proofs.Converge
