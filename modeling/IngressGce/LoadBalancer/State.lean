import IngressGce.Cloud.Errors
import IngressGce.Cloud.Resource
import IngressGce.Program.Stateful

/-! # State of one load balancer and of the calls it makes

A hop is one run of a method of an `L7`: the object itself, the cloud, and the
trace of what the method did. A plan fixes every answer the cloud is free to
give during the hop. Each call of the source is a site, and a hop passes each
site at most once, so that a plan can fail any selection of its calls.
-/
namespace IngressGce

structure TLSCerts where
  key : Str
  cert : Str
  deriving DecidableEq, Repr, Inhabited

structure L7RuntimeInfo where
  name : Str
  tls : Option TLSCerts
  tlsName : Str
  allowHTTP : Bool
  staticIPName : Str
  deriving DecidableEq, Repr, Inhabited

structure BackendService where
  selfLink : Str
  deriving DecidableEq, Repr

structure L7 where
  name : Str
  runtimeInfo : L7RuntimeInfo
  um : Option UrlMap
  tp : Option TargetHttpProxy
  tps : Option TargetHttpsProxy
  fw : Option ForwardingRule
  fws : Option ForwardingRule
  ip : Option Address
  sslCert : Option SslCertificate
  oldSSLCert : Option SslCertificate
  glbcDefaultBackend : Option BackendService
  deriving Inhabited

/-- A function stops by returning an error or by a run-time panic. -/
inductive Failure
  | returned (e : GoError)
  | panicked
  deriving DecidableEq, Repr

/-- The callers of `getEffectiveIP`. -/
inductive IPCaller
  | http
  | staticIP
  | https
  deriving DecidableEq, Repr

inductive CleanupStage
  | fw
  | fws
  | ip
  | tps
  | sslCert
  | tp
  | um
  deriving DecidableEq, Repr

inductive Site
  | urlMapGet
  | urlMapCreate
  | urlMapReadBack
  | proxyGet
  | proxyCreate
  | proxyReadBack
  | proxySetUrlMap
  | preSharedGet
  | certProxyGet
  | certGet
  | certDelete
  | certInsert
  | certReadBack
  | httpsProxyGet
  | httpsProxyCreate
  | httpsProxyReadBack
  | httpsProxySetUrlMap
  | httpsProxySetCert
  | effectiveIP (caller : IPCaller)
  | ruleGet (protocol : NamerProtocol)
  | ruleDelete (protocol : NamerProtocol)
  | ruleCreate (protocol : NamerProtocol)
  | ruleReadBack (protocol : NamerProtocol)
  | ruleSetProxy (protocol : NamerProtocol)
  | staticIPGet
  | staticIPReserve
  | staticIPReadBack
  | oldCertDelete
  | cleanup (stage : CleanupStage)
  deriving DecidableEq, Repr

structure Plan where
  fault : Site → Option Fault
  ephemeral : NamerProtocol → Str

namespace Plan

def faultless : Plan := { fault := fun _ => none, ephemeral := fun _ => [] }

/-- The call at one site fails with an internal error and without effect. -/
def failingAt (site : Site) : Plan where
  fault s := if s = site then some { error := .api 500, applied := false, not_notFound := rfl } else none
  ephemeral _ := []

end Plan

/-- Calls are recorded with the cloud they were made on. -/
inductive Event
  | call (lb : Str) (site : Site) (kind : Kind) (name : Str) (before : Cloud)
  | checkForwardingRule (lb : Str) (protocol : NamerProtocol) (ip : Str)

structure Hop where
  l7 : L7
  cloud : Cloud
  log : List Event

abbrev L7M (α : Type) := Prog Hop Failure α

end IngressGce
