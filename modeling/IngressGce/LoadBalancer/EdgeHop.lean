import IngressGce.LoadBalancer.Calls

/-! # The edge hop of a load balancer

`edgeHop` makes the chain from forwarding rules over target proxies to the url
map exist, and `cleanup` takes it down. The order of calls is that of the
source. A `get` whose error the source discards answers nothing on an error, and
a `create` is the insertion with the read that follows it.
-/
namespace IngressGce
open Prog
variable (G : SelfLinks) (plan : Plan)

def httpDefaultPortRange : Str := "80-80".toList
def httpsDefaultPortRange : Str := "443-443".toList

section Interface

def getUrlMap (name : Str) : L7M (Option UrlMap) := lookup G plan .urlMapGet .urlMap name
def createUrlMap (name : Str) (body : UrlMapBody) : L7M UrlMap :=
  create G plan .urlMapCreate .urlMapReadBack .urlMap name [] body

def getTargetHttpProxy (name : Str) : L7M (Option TargetHttpProxy) :=
  lookup G plan .proxyGet .targetHttpProxy name
def createTargetHttpProxy (name : Str) (body : TargetHttpProxyBody) : L7M TargetHttpProxy :=
  create G plan .proxyCreate .proxyReadBack .targetHttpProxy name [] body
def setUrlMapForTargetHttpProxy (proxy : TargetHttpProxy) (urlMap : UrlMap) : L7M Unit :=
  change plan .proxySetUrlMap .targetHttpProxy proxy.name (fun b => { b with urlMap := urlMap.selfLink })

def getTargetHttpsProxy (site : Site) (name : Str) : L7M (Option TargetHttpsProxy) :=
  lookup G plan site .targetHttpsProxy name
def createTargetHttpsProxy (name : Str) (body : TargetHttpsProxyBody) : L7M TargetHttpsProxy :=
  create G plan .httpsProxyCreate .httpsProxyReadBack .targetHttpsProxy name [] body
def setUrlMapForTargetHttpsProxy (proxy : TargetHttpsProxy) (urlMap : UrlMap) : L7M Unit :=
  change plan .httpsProxySetUrlMap .targetHttpsProxy proxy.name
    (fun b => { b with urlMap := urlMap.selfLink })
def setSslCertificateForTargetHttpsProxy (proxy : TargetHttpsProxy) (cert : SslCertificate) : L7M Unit :=
  change plan .httpsProxySetCert .targetHttpsProxy proxy.name
    (fun b => { b with sslCertificates := [cert.selfLink] })

def getGlobalForwardingRule (protocol : NamerProtocol) (name : Str) : L7M (Option ForwardingRule) :=
  lookup G plan (.ruleGet protocol) .forwardingRule name
def createGlobalForwardingRule (protocol : NamerProtocol) (name : Str) (body : ForwardingRuleBody) :
    L7M ForwardingRule :=
  create G plan (.ruleCreate protocol) (.ruleReadBack protocol) .forwardingRule name
    (plan.ephemeral protocol) body
def setProxyForGlobalForwardingRule (protocol : NamerProtocol) (name proxyLink : Str) : L7M Unit :=
  change plan (.ruleSetProxy protocol) .forwardingRule name (fun b => { b with target := proxyLink })
def deleteGlobalForwardingRule (site : Site) (name : Str) : L7M Unit :=
  delete plan site .forwardingRule name

def getGlobalAddress (site : Site) (name : Str) : L7M (Option Address) := lookup G plan site .address name
def reserveGlobalAddress (name : Str) (body : AddressBody) : L7M Unit :=
  insert plan .staticIPReserve .address name [] body

def getSslCertificate (site : Site) (name : Str) : L7M SslCertificate :=
  read G plan site .sslCertificate name
def deleteSslCertificate (site : Site) (name : Str) : L7M Unit := delete plan site .sslCertificate name

def createSslCertificate (name : Str) (body : SslCertificateBody) : L7M SslCertificate :=
  create G plan .certInsert .certReadBack .sslCertificate name [] body

end Interface

def this : L7M L7 := do
  let h ← state
  pure h.l7

def setL7 (f : L7 → L7) : L7M Unit := update (fun h => { h with l7 := f h.l7 })

@[simp] theorem ensures_this (h : Hop) (Q : Except Failure L7 → Hop → Prop) :
    Ensures this h Q ↔ Q (.ok h.l7) h := Iff.rfl
@[simp] theorem ensures_setL7 (f : L7 → L7) (h : Hop) (Q : Except Failure Unit → Hop → Prop) :
    Ensures (setL7 f) h Q ↔ Q (.ok ()) { h with l7 := f h.l7 } := Iff.rfl

def checkUrlMap : L7M Unit := do
  let l ← this
  match l.glbcDefaultBackend with
  | none => returnError (.text "cannot create urlmap without default backend".toList)
  | some backend =>
    let urlMapName := Namer.urlMap l.name
    let urlMap ← getUrlMap G plan urlMapName
    match urlMap with
    | some urlMap => setL7 (fun l => { l with um := some urlMap })
    | none =>
      let urlMap ← createUrlMap G plan urlMapName { defaultService := backend.selfLink }
      setL7 (fun l => { l with um := some urlMap })

def checkProxy : L7M Unit := do
  let l ← this
  match l.um with
  | none => returnError (.text "cannot create proxy without urlmap".toList)
  | some um =>
    let proxyName := Namer.targetProxy l.name .http
    let proxy ← getTargetHttpProxy G plan proxyName
    match proxy with
    | none =>
      let proxy ← createTargetHttpProxy G plan proxyName { urlMap := um.selfLink }
      setL7 (fun l => { l with tp := some proxy })
    | some proxy =>
      onlyIf (!compareLinks proxy.body.urlMap um.selfLink) (setUrlMapForTargetHttpProxy plan proxy um)
      setL7 (fun l => { l with tp := some proxy })

def deleteOldSSLCert : L7M Unit := do
  let l ← this
  match l.oldSSLCert, l.sslCert with
  | some old, some cert =>
    if old.name = cert.name ∨ Namer.isSSLCert old.name = false then pure ()
    else
      ignoreHTTPNotFound (deleteSslCertificate plan .oldCertDelete old.name)
      setL7 (fun l => { l with oldSSLCert := none })
  | _, _ => pure ()

/-- Answers whether a pre-shared certificate is to be used; when one is, an
error of its lookup is the error of the caller. -/
def usePreSharedCert : L7M Bool := do
  let l ← this
  if l.runtimeInfo.tlsName = [] then pure false
  else
    let cert ← getSslCertificate G plan .preSharedGet l.runtimeInfo.tlsName
    setL7 (fun l => { l with sslCert := some cert })
    pure true

def getSslCertLinkInUse : L7M Str := do
  let l ← this
  let proxy ← getTargetHttpsProxy G plan .certProxyGet (Namer.targetProxy l.name .https)
  match proxy with
  | some proxy => pure (proxy.body.sslCertificates.headD [])
  | none => pure []

/-- The name of the certificate in use: the recorded one, or else the one the
target proxy links to. -/
def expectedCertName : L7M Str := do
  let l ← this
  match l.sslCert with
  | some cert => pure cert.name
  | none =>
    let link ← getSslCertLinkInUse G plan
    pure (getResourceNameFromLink link)

def populateSSLCert : L7M Unit := do
  let name ← expectedCertName G plan
  if name = [] then pure ()
  else
    let cert ← rescue
      (do
        let cert ← getSslCertificate G plan .certGet name
        pure (some cert))
      (fun e => do
        setL7 (fun l => { l with sslCert := none })
        match e with
        | .returned e => if isHTTPErrorCode e statusNotFound then pure none else returnError e
        | .panicked => fail .panicked)
    setL7 (fun l => { l with sslCert := cert })

/-- The name of the certificate flip-flops between two names. -/
def nextCertificateName (l : L7) : Str :=
  if l.sslCert.map Object.name = some (Namer.sslCert l.name true) then Namer.sslCert l.name false
  else Namer.sslCert l.name true

def unableToDelete (name : Str) : Failure → L7M Unit
  | .returned e => returnError (.wrapped ("unable to delete ssl certificate with name \"".toList ++ name ++
      "\", expected it to be unused. err: ".toList) e)
  | .panicked => fail .panicked

/-- The last part of `checkSSLCert`, entered when the certificate of the secret has
to be stored. -/
def replaceSSLCert (tls : TLSCerts) : L7M Unit := do
  let l ← this
  let newCertName := nextCertificateName l
  rescue (ignoreHTTPNotFound (deleteSslCertificate plan .certDelete newCertName)) (unableToDelete newCertName)
  let cert ← createSslCertificate G plan newCertName { certificate := tls.cert, privateKey := tls.key }
  setL7 (fun l => { l with oldSSLCert := l.sslCert, sslCert := some cert })

def checkSSLCert : L7M Unit := do
  let used ← usePreSharedCert G plan
  if used then pure ()
  else
    populateSSLCert G plan
    let l ← this
    match l.runtimeInfo.tls with
    | none => fail .panicked
    | some tls =>
      if l.sslCert.map (fun c => c.body.certificate) = some tls.cert then pure ()
      else replaceSSLCert G plan tls

def checkHttpsProxy : L7M Unit := do
  let l ← this
  match l.sslCert, l.um with
  | none, _ => pure ()
  | some _, none => returnError (.text ("no UrlMap for ".toList ++ l.name ++
      ", will not create HTTPS proxy".toList))
  | some cert, some um =>
    let proxyName := Namer.targetProxy l.name .https
    let proxy ← getTargetHttpsProxy G plan .httpsProxyGet proxyName
    match proxy with
    | none =>
      let proxy ← createTargetHttpsProxy G plan proxyName
        { urlMap := um.selfLink, sslCertificates := [cert.selfLink] }
      setL7 (fun l => { l with tps := some proxy })
    | some proxy =>
      onlyIf (!compareLinks proxy.body.urlMap um.selfLink) (setUrlMapForTargetHttpsProxy plan proxy um)
      match proxy.body.sslCertificates with
      | [] => fail .panicked
      | link :: _ =>
        onlyIf (!compareLinks link cert.selfLink) (setSslCertificateForTargetHttpsProxy plan proxy cert)
        setL7 (fun l => { l with tps := some proxy })

/-- The rule does not have to be recreated: an address is wanted only when `ip`
is not empty, the port range always. -/
def ruleMatches (ip portRange : Str) (fw : ForwardingRuleBody) : Bool :=
  (ip == [] || fw.ipAddress == ip) && fw.portRange == portRange

/-- The last part of `checkForwardingRule`, which corrects the target. -/
def pointRule (protocol : NamerProtocol) (proxyLink : Str) (fw : ForwardingRule) : L7M ForwardingRule := do
  onlyIf (!compareLinks fw.body.target proxyLink)
    (setProxyForGlobalForwardingRule plan protocol fw.name proxyLink)
  pure fw

/-- The middle part of `checkForwardingRule`, entered without a rule to keep. -/
def createRule (protocol : NamerProtocol) (name proxyLink ip portRange : Str) : L7M ForwardingRule := do
  let fw ← createGlobalForwardingRule G plan protocol name
    { ipAddress := ip, target := proxyLink, portRange := portRange, ipProtocol := "TCP".toList }
  pointRule plan protocol proxyLink fw

def checkForwardingRule (protocol : NamerProtocol) (name proxyLink ip portRange : Str) :
    L7M ForwardingRule := do
  update (fun h => { h with log := .checkForwardingRule h.l7.name protocol ip :: h.log })
  let found ← getGlobalForwardingRule G plan protocol name
  match found with
  | none => createRule G plan protocol name proxyLink ip portRange
  | some fw =>
    if ruleMatches ip portRange fw.body then pointRule plan protocol proxyLink fw
    else do
      ignoreHTTPNotFound (deleteGlobalForwardingRule plan (.ruleDelete protocol) name)
      createRule G plan protocol name proxyLink ip portRange

/-- The address for the forwarding rules and whether the controller manages it. -/
def getEffectiveIP (caller : IPCaller) : L7M (Str × Bool) := do
  let l ← this
  let userIP ← (if l.runtimeInfo.staticIPName = [] then pure none
    else getGlobalAddress G plan (.effectiveIP caller) l.runtimeInfo.staticIPName)
  match userIP, l.ip with
  | some ip, _ => pure (ip.body.address,false)
  | none, some ip => pure (ip.body.address,true)
  | none, none => pure ([],true)

/-- What both forwarding rules have in common, once the proxy is known. -/
def checkRuleFor (protocol : NamerProtocol) (caller : IPCaller) (portRange proxyLink : Str)
    (record : ForwardingRule → L7 → L7) : L7M Unit := do
  let l ← this
  let name := Namer.forwardingRule l.name protocol
  let address ← getEffectiveIP G plan caller
  let fw ← checkForwardingRule G plan protocol name proxyLink address.1 portRange
  setL7 (record fw)

def checkHttpForwardingRule : L7M Unit := do
  let l ← this
  match l.tp with
  | none => returnError (.text "cannot create forwarding rule without proxy".toList)
  | some tp =>
    checkRuleFor G plan .http .http httpDefaultPortRange tp.selfLink (fun fw l => { l with fw := some fw })

def checkHttpsForwardingRule : L7M Unit := do
  let l ← this
  match l.tps with
  | none => pure ()
  | some tps =>
    checkRuleFor G plan .https .https httpsDefaultPortRange tps.selfLink
      (fun fws l => { l with fws := some fws })

/-- Reserve the address; answers false when it is already reserved or in use. -/
def reserveUnlessTaken (name : Str) (body : AddressBody) : L7M Bool :=
  rescue
    (do
      reserveGlobalAddress plan name body
      pure true)
    (fun
      | .returned e =>
        if isHTTPErrorCode e statusConflict || isHTTPErrorCode e statusBadRequest then pure false
        else returnError e
      | .panicked => fail .panicked)

def checkStaticIP : L7M Unit := do
  let l ← this
  let address := (l.fw.map (fun fw => fw.body.ipAddress)).getD []
  if address = [] then
    returnError (.text "will not create static IP without a forwarding rule".toList)
  else
    let effective ← getEffectiveIP G plan .staticIP
    if effective.2 = false then pure ()
    else
      let staticIPName := Namer.forwardingRule l.name .http
      let ip ← getGlobalAddress G plan .staticIPGet staticIPName
      match ip with
      | some ip => setL7 (fun l => { l with ip := some ip })
      | none =>
        let reserved ← reserveUnlessTaken plan staticIPName { address := address }
        if reserved = false then pure ()
        else
          let ip ← read G plan .staticIPReadBack .address staticIPName
          setL7 (fun l => { l with ip := some ip })

def edgeHopHttp : L7M Unit := do
  checkProxy G plan
  checkHttpForwardingRule G plan

def edgeHopHttps : L7M Unit := do
  checkSSLCert G plan
  checkHttpsProxy G plan
  checkHttpsForwardingRule G plan
  deleteOldSSLCert plan

/-- The runtime info asks for an HTTPS frontend. -/
def L7RuntimeInfo.wantsHTTPS (ri : L7RuntimeInfo) : Bool := ri.tls.isSome || ri.tlsName != []

def edgeHop : L7M Unit := do
  let l ← this
  checkUrlMap G plan
  onlyIf l.runtimeInfo.allowHTTP (edgeHopHttp G plan)
  onlyIf (l.runtimeInfo.allowHTTP && l.runtimeInfo.wantsHTTPS) (checkStaticIP G plan)
  onlyIf l.runtimeInfo.wantsHTTPS (edgeHopHttps G plan)

/-- The certificate `cleanup` deletes: the recorded one, unless the runtime info
names a pre-shared certificate. -/
def L7.disposableCert (l : L7) : Option SslCertificate :=
  if l.runtimeInfo.tlsName = [] then l.sslCert else none

namespace CleanupStage

def kind : CleanupStage → Kind
  | .fw => .forwardingRule
  | .fws => .forwardingRule
  | .ip => .address
  | .tps => .targetHttpsProxy
  | .sslCert => .sslCertificate
  | .tp => .targetHttpProxy
  | .um => .urlMap

def recorded : (stage : CleanupStage) → L7 → Option (Object stage.kind)
  | .fw => L7.fw
  | .fws => L7.fws
  | .ip => L7.ip
  | .tps => L7.tps
  | .sslCert => L7.disposableCert
  | .tp => L7.tp
  | .um => L7.um

def forget : CleanupStage → L7 → L7
  | .fw => fun l => { l with fw := none }
  | .fws => fun l => { l with fws := none }
  | .ip => fun l => { l with ip := none }
  | .tps => fun l => { l with tps := none }
  | .sslCert => fun l => { l with sslCert := none }
  | .tp => fun l => { l with tp := none }
  | .um => fun l => { l with um := none }

/-- The order of the teardown. -/
def order : List CleanupStage := [.fw,.fws,.ip,.tps,.sslCert,.tp,.um]

end CleanupStage

/-- One stage of the teardown: delete the recorded resource and forget it. -/
def dispose (stage : CleanupStage) : L7M Unit := do
  let l ← this
  match stage.recorded l with
  | none => pure ()
  | some o =>
    ignoreHTTPNotFound (delete plan (.cleanup stage) stage.kind o.name)
    setL7 stage.forget

def cleanup : L7M Unit := forEach (dispose plan) CleanupStage.order

end IngressGce
