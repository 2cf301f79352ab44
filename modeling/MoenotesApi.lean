import MoenotesApi.Client.Install
import MoenotesApi.Client.Pacing
import MoenotesApi.Client.Binding
import MoenotesApi.Client.Override
import MoenotesApi.Cache.Freshness
import MoenotesApi.Cache.Purge
import MoenotesApi.Managed.Writers
import MoenotesApi.Managed.Quarantine
import MoenotesApi.Managed.Budget
import MoenotesApi.Managed.InitialLoad
import MoenotesApi.Managed.Readiness
import MoenotesApi.Managed.Releases
import MoenotesApi.Pool.Cooldown
import MoenotesApi.Operator.Readback
import MoenotesApi.Operator.Identity
import MoenotesApi.Library.SortedMap
import MoenotesApi.Client.Resource
import MoenotesApi.Server.Disclosure
import MoenotesApi.Cache.Eviction
import MoenotesApi.Client.Signature
import MoenotesApi.Server.Backends
import MoenotesApi.Operator.Reimport
import MoenotesApi.Library.FormEscapes
import MoenotesApi.Library.Framing
import MoenotesApi.Operator.Scope
import MoenotesApi.Server.OpenApi
import MoenotesApi.Server.PathRoutes
import MoenotesApi.Server.QueryGrammar
import MoenotesApi.Operator.AccountPin
import MoenotesApi.Gateway.Admission
import MoenotesApi.Gateway.Answers
import MoenotesApi.Server.Aliases
import MoenotesApi.Deployment.Settling
import MoenotesApi.Server.Assembly
import MoenotesApi.Operator.RegisterOnce
import MoenotesApi.Sdk.Body
import MoenotesApi.Sdk.Challenge
