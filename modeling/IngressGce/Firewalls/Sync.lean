import IngressGce.Cloud.Store
import IngressGce.Naming.Lengths
import Mathlib.Data.Char
import Mathlib.Data.Finset.Dedup
import Mathlib.Data.Fintype.EquivFin
import Mathlib.Data.List.Lex
import Mathlib.Data.List.Sort

/-! # The firewall rule for the load balancers

One rule opens the node ports for the ranges from which the load balancers and their health
checks come. `Sync` compares the rule in the cloud with the ports it is given. It gathers
the ports of all the entries of the rule in one set, in which it is lost for which protocol
an entry opens a port, and that an entry without ports opens all of them.
-/
namespace IngressGce.Firewalls
open Prog

structure FirewallAllowed where
  ipProtocol : Str
  ports : List Str
  deriving DecidableEq

structure Firewall where
  name : Str
  description : Str
  sourceRanges : List Str
  network : Str
  allowed : List FirewallAllowed
  targetTags : List Str
  deriving DecidableEq

def l7SrcRanges : List Str := ["130.211.0.0/22".toList,"35.191.0.0/16".toList]

/-- An error of the cloud, or a change that somebody else has to make. -/
inductive FirewallError
  | returned (e : GoError)
  | firewallSync (internal : GoError) (message : Str)
  deriving DecidableEq

abbrev FirewallM (α : Type) := Prog (Store Str Firewall) FirewallError α

/-- The pool, with what the cloud says about the network. -/
structure FirewallRules where
  namer : ClusterNamer
  srcRanges : List Str
  networkProjectID : Str
  networkURL : Str
  onXPN : Bool

def newFirewallPool (namer : ClusterNamer) (networkProjectID networkURL : Str) (onXPN : Bool) : FirewallRules where
  namer := namer
  srcRanges := l7SrcRanges
  networkProjectID := networkProjectID
  networkURL := networkURL
  onXPN := onXPN

def statusForbidden : ℕ := 403

def isForbiddenError (e : GoError) : Bool := isHTTPErrorCode e statusForbidden
def isNotFoundError (e : GoError) : Bool := isHTTPErrorCode e statusNotFound

/-! ## The commands that a network admin is asked to run -/

def joined (texts : List Str) : Str := List.intercalate ",".toList texts

/-- Nothing in the description has to be escaped when it is quoted. -/
def firewallToGcloudArgs (fw : Firewall) (projectID : Str) : Str :=
  let allPorts := fw.allowed.flatMap (fun a => a.ports.map (fun p => a.ipProtocol ++ ":".toList ++ p))
  "--description \"".toList ++ fw.description ++ "\" --allow ".toList ++ joined allPorts ++ " --source-ranges ".toList ++
    joined fw.sourceRanges ++ " --target-tags ".toList ++ joined fw.targetTags ++ " --project ".toList ++ projectID

def getNameFromLink (link : Str) : Str := if link = [] then [] else Str.lastToken "/".toList link

def firewallToGCloudCreateCmd (fw : Firewall) (projectID : Str) : Str :=
  "gcloud compute firewall-rules create ".toList ++ fw.name ++ " --network ".toList ++ getNameFromLink fw.network ++
    " ".toList ++ firewallToGcloudArgs fw projectID

def firewallToGCloudUpdateCmd (fw : Firewall) (projectID : Str) : Str :=
  "gcloud compute firewall-rules update ".toList ++ fw.name ++ " ".toList ++ firewallToGcloudArgs fw projectID

def firewallToGCloudDeleteCmd (fwName projectID : Str) : Str :=
  "gcloud compute firewall-rules delete ".toList ++ fwName ++ " --project ".toList ++ projectID

def newFirewallXPNError (internal : GoError) (cmd : Str) : FirewallError :=
  .firewallSync internal ("Firewall change required by network admin: `".toList ++ cmd ++ "`".toList)

namespace FirewallRules
variable (fr : FirewallRules)

/-- What becomes of an error when a change may need somebody else. -/
def changeError (cmd : Str) (e : GoError) : FirewallError :=
  if isForbiddenError e && fr.onXPN then newFirewallXPNError e cmd else .returned e

def createFirewall (f : Firewall) : FirewallM Unit :=
  mapFailure (fr.changeError (firewallToGCloudCreateCmd f fr.networkProjectID)) (Store.insert f.name f)

def updateFirewall (f : Firewall) : FirewallM Unit :=
  mapFailure (fr.changeError (firewallToGCloudUpdateCmd f fr.networkProjectID)) (Store.onItem f.name (fun _ => ((),some f)))

def deleteFirewall (name : Str) : FirewallM Unit := do
  let deleted ← attempt (Store.onItem name (fun _ => ((),none)))
  match deleted with
  | .ok _ => pure ()
  | .error e =>
    if isNotFoundError e then pure ()
    else fail (fr.changeError (firewallToGCloudDeleteCmd name fr.networkProjectID) e)

def shutdown : FirewallM Unit := fr.deleteFirewall fr.namer.firewallRule

/-- The rule under a name, or nil: the error is not looked at. -/
def getFirewall (name : Str) : FirewallM (Option Firewall) := do
  let rule ← attempt (Store.onItem name (fun f => (f,some f)))
  pure rule.toOption

/-- The tags of the nodes are looked up in the cloud. -/
def createFirewallObject (getNodeTags : List Str → Except GoError (List Str)) (firewallName description : Str)
    (nodePorts : List ℤ) (nodeNames : List Str) : Except GoError Firewall :=
  let ports := (nodePorts.map Decimal.itoa).insertionSort (· ≤ ·)
  match getNodeTags nodeNames with
  | .error e => .error e
  | .ok targetTags => .ok {
      name := firewallName
      description := description
      sourceRanges := fr.srcRanges
      network := fr.networkURL
      allowed := [{ ipProtocol := "tcp".toList, ports := ports }]
      targetTags := targetTags.insertionSort (· ≤ ·) }

/-- The ports of the rule and its ranges are, as sets of texts, those that are required. -/
def upToDate (nodePorts : List ℤ) (rule : Firewall) : Bool :=
  (nodePorts.map Decimal.itoa).toFinset = (rule.allowed.flatMap FirewallAllowed.ports).toFinset ∧
    l7SrcRanges.toFinset = rule.sourceRanges.toFinset

def sync (getNodeTags : List Str → Except GoError (List Str)) (nodePorts : List ℤ) (nodeNames : List Str) : FirewallM Unit :=
  if nodePorts = [] then fr.shutdown
  else do
    let name := fr.namer.firewallRule
    let rule ← getFirewall name
    match fr.createFirewallObject getNodeTags name "GCE L7 firewall rule".toList nodePorts nodeNames with
    | .error e => fail (.returned e)
    | .ok firewall =>
      match rule with
      | none => fr.createFirewall firewall
      | some rule => if upToDate nodePorts rule then pure () else fr.updateFirewall firewall

end FirewallRules

/-! ## What a rule opens -/

/-- What the cloud makes of the texts of a rule. The name of TCP and the numeral of a port
stand for just these; the other names of protocols, and the ranges of ports, are left open. -/
structure Meaning where
  protocol : Str → Set ℕ
  ports : Str → Set ℤ
  protocol_tcp : protocol "tcp".toList = {6}
  ports_itoa : ∀ port, ports (Decimal.itoa port) = {port}

variable (M : Meaning)

/-- The protocols and ports that a rule opens. An entry without ports opens all of them. -/
def Firewall.opens (rule : Firewall) : Set (ℕ × ℤ) :=
  {x | ∃ a ∈ rule.allowed, x.1 ∈ M.protocol a.ipProtocol ∧ (a.ports = [] ∨ ∃ text ∈ a.ports, x.2 ∈ M.ports text)}

/-- The rule opens the ports for TCP and nothing else, and for the load balancers only. -/
structure Exact (nodePorts : List ℤ) (rule : Firewall) : Prop where
  opens : rule.opens M = {x | x.1 = 6 ∧ x.2 ∈ nodePorts}
  ranges : ∀ range, range ∈ rule.sourceRanges ↔ range ∈ l7SrcRanges

/-- The entries of a rule are all for TCP and have ports, and each port is in one of them. -/
structure TcpOnly (nodePorts : List ℤ) (rule : Firewall) : Prop where
  entries : ∀ a ∈ rule.allowed, ∀ protocol ∈ M.protocol a.ipProtocol, protocol = 6 ∧ a.ports ≠ []
  covers : ∀ port ∈ nodePorts, ∃ a ∈ rule.allowed, 6 ∈ M.protocol a.ipProtocol ∧ Decimal.itoa port ∈ a.ports

/-- The texts of the ports in all the entries of a rule, and its ranges, are those that are
required. -/
structure SameTexts (nodePorts : List ℤ) (rule : Firewall) : Prop where
  ports : ∀ text, (∃ port ∈ nodePorts, Decimal.itoa port = text) ↔ ∃ a ∈ rule.allowed, text ∈ a.ports
  ranges : ∀ range, range ∈ rule.sourceRanges ↔ range ∈ l7SrcRanges

section Rules
variable {M} {nodePorts : List ℤ} {rule : Firewall}

/-- This is all that is compared. -/
theorem upToDate_iff : FirewallRules.upToDate nodePorts rule = true ↔ SameTexts nodePorts rule := by
  simp only [FirewallRules.upToDate,decide_eq_true_eq,Finset.ext_iff,List.mem_toFinset,List.mem_map,List.mem_flatMap]
  constructor
  · rintro ⟨hports,hranges⟩
    exact ⟨hports,fun range => (hranges range).symm⟩
  · intro h
    exact ⟨h.ports,fun range => (h.ranges range).symm⟩

theorem upToDate_congr {nodePorts' : List ℤ} (h : ∀ port, port ∈ nodePorts' ↔ port ∈ nodePorts) :
    FirewallRules.upToDate nodePorts' rule = FirewallRules.upToDate nodePorts rule := by
  apply Bool.eq_iff_iff.mpr
  rw [upToDate_iff,upToDate_iff]
  have hports : ∀ text, (∃ port ∈ nodePorts', Decimal.itoa port = text) ↔ ∃ port ∈ nodePorts, Decimal.itoa port = text :=
    fun text => exists_congr fun port => and_congr_left fun _ => h port
  constructor
  · intro hsame
    exact ⟨fun text => (hports text).symm.trans (hsame.ports text),hsame.ranges⟩
  · intro hsame
    exact ⟨fun text => (hports text).trans (hsame.ports text),hsame.ranges⟩

/-- With the same texts all ports of the rule are numerals of required ports. -/
theorem mem_opens_iff (h : SameTexts nodePorts rule) {x : ℕ × ℤ} :
    x ∈ rule.opens M ↔ ∃ a ∈ rule.allowed, x.1 ∈ M.protocol a.ipProtocol ∧ (a.ports = [] ∨ Decimal.itoa x.2 ∈ a.ports) := by
  refine exists_congr fun a => and_congr_right fun ha => and_congr_right fun _ => or_congr_right ?_
  constructor
  · rintro ⟨text,htext,hx⟩
    obtain ⟨port,_,rfl⟩ := (h.ports text).mpr ⟨a,ha,htext⟩
    rw [M.ports_itoa] at hx
    rwa [Set.mem_singleton_iff.mp hx]
  · intro htext
    exact ⟨_,htext,by rw [M.ports_itoa]; rfl⟩

/-- Some port is not in the list. -/
theorem exists_not_mem (ports : List ℤ) : ∃ port, port ∉ ports := by
  obtain ⟨port,hport⟩ := Infinite.exists_notMem_finset ports.toFinset
  exact ⟨port,fun h => hport (List.mem_toFinset.mpr h)⟩

theorem exact_iff_tcpOnly (h : SameTexts nodePorts rule) : Exact M nodePorts rule ↔ TcpOnly M nodePorts rule := by
  constructor
  · intro hexact
    have hopens : ∀ x : ℕ × ℤ, x ∈ rule.opens M ↔ x.1 = 6 ∧ x.2 ∈ nodePorts := fun x => by rw [hexact.opens]; rfl
    have hports : ∀ a ∈ rule.allowed, ∀ protocol ∈ M.protocol a.ipProtocol, a.ports ≠ [] := by
      intro a ha protocol hprotocol hnil
      obtain ⟨port,hport⟩ := exists_not_mem nodePorts
      exact hport ((hopens (protocol,port)).mp ((mem_opens_iff h).mpr ⟨a,ha,hprotocol,Or.inl hnil⟩)).2
    constructor
    · intro a ha protocol hprotocol
      have hne := hports a ha protocol hprotocol
      obtain ⟨text,rest,hlist⟩ := List.exists_cons_of_ne_nil hne
      have htext : text ∈ a.ports := hlist ▸ List.mem_cons_self
      obtain ⟨port,_,rfl⟩ := (h.ports text).mpr ⟨a,ha,htext⟩
      exact ⟨((hopens (protocol,port)).mp ((mem_opens_iff h).mpr ⟨a,ha,hprotocol,Or.inr htext⟩)).1,hne⟩
    · intro port hport
      obtain ⟨a,ha,htcp,hnil | htext⟩ := (mem_opens_iff h).mp ((hopens (6,port)).mpr ⟨rfl,hport⟩)
      · exact absurd hnil (hports a ha 6 htcp)
      · exact ⟨a,ha,htcp,htext⟩
  · intro htcp
    refine ⟨?_,h.ranges⟩
    ext x
    rw [mem_opens_iff h]
    constructor
    · rintro ⟨a,ha,hprotocol,hports⟩
      obtain ⟨hsix,hne⟩ := htcp.entries a ha x.1 hprotocol
      obtain ⟨port,hport,heq⟩ := (h.ports _).mpr ⟨a,ha,hports.resolve_left hne⟩
      rw [Decimal.itoa_injective heq] at hport
      exact ⟨hsix,hport⟩
    · rintro ⟨hsix,hport⟩
      obtain ⟨a,ha,hprotocol,htext⟩ := htcp.covers x.2 hport
      exact ⟨a,ha,by rwa [hsix],Or.inr htext⟩

end Rules

/-! ## What `Sync` does to a rule that is there -/

namespace FirewallRules
variable {fr : FirewallRules} {getNodeTags : List Str → Except GoError (List Str)} {nodePorts : List ℤ}
  {nodeNames : List Str} {w : Store Str Firewall} {rule : Firewall}

/-- A rule that is there is found, or the read has failed. -/
theorem getFirewall_ensures {name : Str} (hrule : w.items name = some rule) :
    Ensures (getFirewall name) w (fun r w' => w'.items = w.items ∧ w'.clock = w.clock + 1 ∧
      (r = .ok (some rule) ∨ r = .ok none ∧ w.faults w.clock ≠ none)) := by
  have hclock : Ensures (Store.onItem name (fun f : Firewall => (f,some f))) w (fun _ w' => w'.clock = w.clock + 1) :=
    Store.call_clock _
  have hread : Ensures (Store.onItem name (fun f : Firewall => (f,some f))) w (fun r _ =>
      w.faults w.clock = none → r = .ok rule) := fun hserved => Store.onItem_ok_iff.mpr ⟨rule,hrule,hserved,rfl⟩
  rw [getFirewall,ensures_bind,ensures_attempt]
  refine ((Store.onItem_served _).and (hclock.and hread)).mono ?_
  rintro r w' ⟨h,hclock,hread⟩
  have hitems : w'.items = w.items := Store.ServedItem.unchanged (f := fun f : Firewall => f) h
  refine ⟨hitems,hclock,?_⟩
  cases r with
  | ok f =>
    obtain ⟨_,hg,rfl,_⟩ := h.answer f rfl
    obtain rfl : rule = f := Option.some.inj (hrule.symm.trans hg)
    exact Or.inl rfl
  | error e => exact Or.inr ⟨rfl,fun hserved => by cases hread hserved⟩

/-- A rule is not created over another one. -/
theorem createFirewall_existing {f : Firewall} (hrule : w.items f.name = some rule) :
    Ensures (fr.createFirewall f) w (fun r w' => r ≠ .ok () ∧ w'.items = w.items) := by
  rw [createFirewall,ensures_mapFailure]
  refine (Store.insert_served f).mono ?_
  rintro r w' ⟨_,hok,hitems,_⟩
  constructor
  · cases r with
    | error e => nofun
    | ok a =>
      have hnone := (hok rfl).1
      rw [hrule] at hnone
      cases hnone
  · refine hitems.resolve_right fun hnew => ?_
    rw [hrule] at hnew
    cases hnew.1

theorem updateFirewall_ensures (f : Firewall) :
    Ensures (fr.updateFirewall f) w (fun r w' => r = .ok () → w'.items f.name = some f) := by
  rw [updateFirewall,ensures_mapFailure]
  refine (Store.onItem_served _).mono ?_
  intro r w' h hr
  cases r with
  | error e => cases hr
  | ok a =>
    obtain ⟨_,_,_,hitems⟩ := h.answer a rfl
    rw [hitems,Function.update_self]

/-- What is known after a `Sync` that has found a rule in the cloud. -/
structure Synced (fr : FirewallRules) (getNodeTags : List Str → Except GoError (List Str)) (nodePorts : List ℤ)
    (nodeNames : List Str) (rule : Firewall) (w : Store Str Firewall) (r : Except FirewallError Unit)
    (w' : Store Str Firewall) : Prop where
  kept : upToDate nodePorts rule = true → w'.items = w.items
  quiet : upToDate nodePorts rule = true → w.faults w.clock = none → w'.clock = w.clock + 1
  returns : upToDate nodePorts rule = true → w.faults w.clock = none → (∃ tags, getNodeTags nodeNames = .ok tags) →
    r = .ok ()
  updated : r = .ok () → upToDate nodePorts rule = false →
    ∃ f, fr.createFirewallObject getNodeTags fr.namer.firewallRule "GCE L7 firewall rule".toList nodePorts nodeNames = .ok f ∧
      w'.items fr.namer.firewallRule = some f

theorem name_of_object {name description : Str} {f : Firewall}
    (h : fr.createFirewallObject getNodeTags name description nodePorts nodeNames = .ok f) : f.name = name := by
  unfold createFirewallObject at h
  dsimp only at h
  split at h
  · cases h
  · rw [← Except.ok.inj h]

theorem sync_ensures (hne : nodePorts ≠ []) (hrule : w.items fr.namer.firewallRule = some rule) :
    Ensures (fr.sync getNodeTags nodePorts nodeNames) w (Synced fr getNodeTags nodePorts nodeNames rule w) := by
  rw [sync,if_neg hne]
  dsimp only
  rw [ensures_bind]
  refine (getFirewall_ensures hrule).mono ?_
  rintro found w₁ ⟨hitems,hclock,hfound⟩
  cases hobject : fr.createFirewallObject getNodeTags fr.namer.firewallRule "GCE L7 firewall rule".toList nodePorts
      nodeNames with
  | error e =>
    have hfailed : Synced fr getNodeTags nodePorts nodeNames rule w (.error (.returned e)) w₁ := by
      refine ⟨fun _ => hitems,fun _ _ => hclock,?_,nofun⟩
      rintro _ _ ⟨tags,htags⟩
      unfold createFirewallObject at hobject
      rw [htags] at hobject
      cases hobject
    rcases hfound with rfl | ⟨rfl,_⟩
    · exact hfailed
    · exact hfailed
  | ok f =>
    rcases hfound with rfl | ⟨rfl,hfault⟩
    · rw [afterwards_ok]
      dsimp only
      rw [ensures_ite]
      constructor
      · intro huptodate
        refine ⟨fun _ => hitems,fun _ _ => hclock,fun _ _ _ => rfl,fun _ hold => ?_⟩
        rw [huptodate] at hold
        cases hold
      · intro hold
        refine (updateFirewall_ensures f).mono ?_
        intro r w' hupdated
        rw [name_of_object hobject] at hupdated
        exact ⟨fun h => absurd h hold,fun h => absurd h hold,fun h => absurd h hold,fun hr _ => ⟨f,hobject,hupdated hr⟩⟩
    · -- the read has failed, and the rule that is there is not replaced
      have hexists : w₁.items f.name = some rule := by rw [name_of_object hobject,hitems,hrule]
      refine (createFirewall_existing hexists).mono ?_
      rintro r w' ⟨hr,hitems'⟩
      exact ⟨fun _ => hitems'.trans hitems,fun _ h => absurd h hfault,fun _ h => absurd h hfault,fun h => absurd h hr⟩

/-- The rule that `Sync` writes is as it should be. -/
theorem tcpOnly_of_object (M : Meaning) {name description : Str} {f : Firewall} (hsrc : fr.srcRanges = l7SrcRanges)
    (hne : nodePorts ≠ []) (h : fr.createFirewallObject getNodeTags name description nodePorts nodeNames = .ok f) :
    SameTexts nodePorts f ∧ TcpOnly M nodePorts f := by
  unfold createFirewallObject at h
  dsimp only at h
  split at h
  · cases h
  · obtain rfl := Except.ok.inj h
    have hmem : ∀ text, text ∈ (nodePorts.map Decimal.itoa).insertionSort (· ≤ ·) ↔
        ∃ port ∈ nodePorts, Decimal.itoa port = text := by
      intro text
      rw [List.mem_insertionSort,List.mem_map]
    refine ⟨⟨?_,?_⟩,?_,?_⟩
    · intro text
      simp only [List.mem_singleton,exists_eq_left,hmem]
    · intro range
      dsimp only
      rw [hsrc]
    · intro a ha protocol hprotocol
      rw [List.mem_singleton.mp ha] at hprotocol ⊢
      rw [M.protocol_tcp] at hprotocol
      refine ⟨hprotocol,fun hnil => ?_⟩
      obtain ⟨port,rest,hports⟩ := List.exists_cons_of_ne_nil hne
      have hport : Decimal.itoa port ∈ (nodePorts.map Decimal.itoa).insertionSort (· ≤ ·) :=
        (hmem _).mpr ⟨port,hports ▸ List.mem_cons_self,rfl⟩
      dsimp only at hnil
      rw [hnil] at hport
      cases hport
    · intro port hport
      refine ⟨_,List.mem_singleton_self _,?_,(hmem _).mpr ⟨port,hport,rfl⟩⟩
      rw [M.protocol_tcp]
      rfl

end FirewallRules

/-- A `Sync` of the ports that returns without error, from a cloud with the rule, leaves a
rule that opens exactly the ports, and another one of the same ports leaves it alone: all
it does is to read the rule, if this read does not fail. -/
def Settles (fr : FirewallRules) (nodePorts : List ℤ) (rule : Firewall) : Prop :=
  ∀ (w : Store Str Firewall) (getNodeTags : List Str → Except GoError (List Str)) (nodeNames : List Str),
    w.items fr.namer.firewallRule = some rule → Ensures (fr.sync getNodeTags nodePorts nodeNames) w (fun r w' =>
      r = .ok () →
        (∃ rule', w'.items fr.namer.firewallRule = some rule' ∧ Exact M nodePorts rule') ∧
        ∀ (getNodeTags' : List Str → Except GoError (List Str)) (nodePorts' : List ℤ) (nodeNames' : List Str),
          (∀ port, port ∈ nodePorts' ↔ port ∈ nodePorts) →
          Ensures (fr.sync getNodeTags' nodePorts' nodeNames') w' (fun _ w'' =>
            w''.items = w'.items ∧ (w'.faults w'.clock = none → w''.clock = w'.clock + 1)))

section Settled
variable {M} {fr : FirewallRules} {nodePorts : List ℤ} {rule : Firewall}

/-- A rule with the same texts is left alone, in whatever order the ports are given. -/
theorem sync_quiet (hne : nodePorts ≠ []) {w : Store Str Firewall} (hrule : w.items fr.namer.firewallRule = some rule)
    (htexts : SameTexts nodePorts rule)
    (getNodeTags : List Str → Except GoError (List Str)) {nodePorts' : List ℤ} (nodeNames : List Str)
    (hsame : ∀ port, port ∈ nodePorts' ↔ port ∈ nodePorts) :
    Ensures (fr.sync getNodeTags nodePorts' nodeNames) w (fun _ w' =>
      w'.items = w.items ∧ (w.faults w.clock = none → w'.clock = w.clock + 1)) := by
  have hne' : nodePorts' ≠ [] := by
    rintro rfl
    obtain ⟨port,rest,rfl⟩ := List.exists_cons_of_ne_nil hne
    exact List.not_mem_nil ((hsame port).mpr List.mem_cons_self)
  have huptodate : FirewallRules.upToDate nodePorts' rule = true := (upToDate_congr hsame).trans (upToDate_iff.mpr htexts)
  exact (FirewallRules.sync_ensures hne' hrule).mono fun r w' h => ⟨h.kept huptodate,h.quiet huptodate⟩

theorem settles_of_tcpOnly (hsrc : fr.srcRanges = l7SrcRanges) (hne : nodePorts ≠ [])
    (h : SameTexts nodePorts rule → TcpOnly M nodePorts rule) : Settles M fr nodePorts rule := by
  intro w getNodeTags nodeNames hrule
  refine (FirewallRules.sync_ensures hne hrule).mono ?_
  intro r w' hsynced hr
  have hleft : ∃ rule', w'.items fr.namer.firewallRule = some rule' ∧ SameTexts nodePorts rule' ∧
      TcpOnly M nodePorts rule' := by
    cases huptodate : FirewallRules.upToDate nodePorts rule with
    | true =>
      have htexts := upToDate_iff.mp huptodate
      rw [hsynced.kept huptodate]
      exact ⟨rule,hrule,htexts,h htexts⟩
    | false =>
      obtain ⟨f,hobject,hf⟩ := hsynced.updated hr huptodate
      exact ⟨f,hf,FirewallRules.tcpOnly_of_object M hsrc hne hobject⟩
  obtain ⟨rule',hrule',htexts,htcp⟩ := hleft
  refine ⟨⟨rule',hrule',(exact_iff_tcpOnly htexts).mpr htcp⟩,?_⟩
  intro getNodeTags' nodePorts' nodeNames' hsame
  exact sync_quiet hne hrule' htexts getNodeTags' nodeNames' hsame

/-- A cloud with one rule, which serves all calls. -/
def holding (rule : Firewall) : Store Str Firewall where
  items _ := some rule
  faults _ := none
  clock := 0

theorem sync_holding (fr : FirewallRules) (hne : nodePorts ≠ []) (huptodate : FirewallRules.upToDate nodePorts rule = true) :
    Ensures (fr.sync (fun _ => .ok []) nodePorts []) (holding rule) (fun r w' =>
      w'.items = (holding rule).items ∧ r = .ok ()) := by
  have hrule : (holding rule).items fr.namer.firewallRule = some rule := rfl
  exact (FirewallRules.sync_ensures hne hrule).mono fun r w' h => ⟨h.kept huptodate,h.returns huptodate rfl ⟨[],rfl⟩⟩

end Settled

/-- `Sync` settles on a rule that opens exactly the ports unless there is a rule that has
all the ports and the ranges, but an entry for another protocol or without ports, or a port
only in such entries. -/
theorem settles_iff (namer : ClusterNamer) (networkProjectID networkURL : Str) (onXPN : Bool) {nodePorts : List ℤ}
    (hne : nodePorts ≠ []) (rule : Firewall) :
    Settles M (newFirewallPool namer networkProjectID networkURL onXPN) nodePorts rule ↔
      (SameTexts nodePorts rule → TcpOnly M nodePorts rule) := by
  constructor
  · intro h htexts
    have huptodate := upToDate_iff.mpr htexts
    obtain ⟨hkept,hr⟩ := sync_holding (newFirewallPool namer networkProjectID networkURL onXPN) hne huptodate
    obtain ⟨⟨rule',hrule',hexact⟩,_⟩ := h (holding rule) (fun _ => .ok []) [] rfl hr
    rw [hkept] at hrule'
    obtain rfl : rule = rule' := Option.some.inj hrule'
    exact (exact_iff_tcpOnly htexts).mp hexact
  · exact settles_of_tcpOnly rfl hne

/-- Numerals of ports, and two names of protocols. -/
def plain : Meaning where
  protocol text := if text = "tcp".toList then {6} else if text = "udp".toList then {17} else ∅
  ports text := {port | Decimal.itoa port = text}
  protocol_tcp := if_pos rfl
  ports_itoa _ := Set.ext fun _ => ⟨fun h => Decimal.itoa_injective h,fun h => congrArg Decimal.itoa h⟩

def pool : FirewallRules := newFirewallPool (.newNamer "ABC".toList "XYZ".toList) "project".toList "network".toList false

/-- A rule for the load balancers with one entry. -/
def ruleFor (ipProtocol : Str) (ports : List Str) : Firewall where
  name := pool.namer.firewallRule
  description := []
  sourceRanges := l7SrcRanges
  network := []
  allowed := [{ ipProtocol := ipProtocol, ports := ports }]
  targetTags := []

theorem settles_on_80 : Settles plain pool [80] (ruleFor "tcp".toList ["80".toList]) := by
  refine (settles_iff plain (.newNamer "ABC".toList "XYZ".toList) "project".toList "network".toList false
    (List.cons_ne_nil _ _) _).mpr fun _ => ⟨?_,?_⟩
  · intro a ha protocol hprotocol
    rw [List.mem_singleton.mp ha] at hprotocol ⊢
    rw [plain.protocol_tcp] at hprotocol
    exact ⟨hprotocol,List.cons_ne_nil _ _⟩
  · intro port hport
    rw [List.mem_singleton.mp hport]
    refine ⟨_,List.mem_singleton_self _,?_,List.mem_singleton_self _⟩
    rw [plain.protocol_tcp]
    rfl

/-- A rule that opens the port for UDP is taken for one that opens it for TCP. -/
theorem udp_rule_kept :
    (pool.sync (fun _ => .ok []) [80] [] (holding (ruleFor "udp".toList ["80".toList]))).1 = .ok () ∧
    (pool.sync (fun _ => .ok []) [80] [] (holding (ruleFor "udp".toList ["80".toList]))).2.items pool.namer.firewallRule =
      some (ruleFor "udp".toList ["80".toList]) ∧
    (17,80) ∈ (ruleFor "udp".toList ["80".toList]).opens plain ∧
    (6,80) ∉ (ruleFor "udp".toList ["80".toList]).opens plain ∧
    ¬Settles plain pool [80] (ruleFor "udp".toList ["80".toList]) := by
  have huptodate : FirewallRules.upToDate [80] (ruleFor "udp".toList ["80".toList]) = true := by decide
  obtain ⟨hkept,hr⟩ := sync_holding pool (List.cons_ne_nil _ _) huptodate
  have hudp : plain.protocol "udp".toList = {17} := by
    have hname : "udp".toList ≠ "tcp".toList := by decide
    simp only [plain,if_neg hname,if_pos]
  have hclosed : (6,80) ∉ (ruleFor "udp".toList ["80".toList]).opens plain := by
    rintro ⟨a,ha,hprotocol,_⟩
    rw [List.mem_singleton.mp ha] at hprotocol
    dsimp only at hprotocol
    rw [hudp] at hprotocol
    exact absurd (Set.mem_singleton_iff.mp hprotocol) (by decide)
  have hitems := congrFun hkept pool.namer.firewallRule
  refine ⟨hr,hitems,?_,hclosed,?_⟩
  · refine ⟨_,List.mem_singleton_self _,?_,Or.inr ⟨_,List.mem_singleton_self _,rfl⟩⟩
    dsimp only
    rw [hudp]
    rfl
  · intro h
    obtain ⟨⟨rule',hrule',hexact⟩,_⟩ := h _ (fun _ => .ok []) [] rfl hr
    rw [hitems] at hrule'
    obtain rfl := Option.some.inj hrule'
    rw [hexact.opens] at hclosed
    exact hclosed ⟨rfl,List.mem_singleton_self _⟩

end IngressGce.Firewalls
