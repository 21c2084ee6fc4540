import IngressGce.Backends.Names
import IngressGce.Cloud.Errors
import IngressGce.Program.MapLoops
import IngressGce.Program.Respects
import IngressGce.Program.Stateful
import IngressGce.Routing.RuleMap

/-! # From Ingresses to rule maps and to ports

The two translations of an Ingress. `toURLMap` asks the pool of backends for every path
whose Service has a node port; the answers of the pool may change from call to call.
`ingressToNodePorts` lists the ports alone. What the rule map says is compared with the
rules of the Ingress: the last rule of a host counts, and in it the last path that
resolves.
-/
namespace IngressGce
open Kube Prog

inductive TranslateError
  | nodePortNotFound (backend : IngressBackend) (origErr : Str)
  | svcAppProtosParsing (svc : Service) (origErr : Str)
  | noBackend (port : Backends.ServicePort) (backend : IngressBackend)

def TranslateError.isNodePortNotFound : TranslateError → Bool
  | .nodePortNotFound _ _ => true
  | .svcAppProtosParsing _ _ => false
  | .noBackend _ _ => false

namespace Kube

def HTTPIngressPath.pathOrDefault (p : HTTPIngressPath) : Str := if p.path = [] then defaultPath else p.path

def IngressRule.hostOrDefault (r : IngressRule) : Str := if r.host = [] then defaultHost else r.host

/-- The host of a rule, if it is an HTTP rule. -/
def IngressRule.httpHost (r : IngressRule) : Option Str := r.http.map (fun _ => r.hostOrDefault)

def IngressRule.paths (r : IngressRule) : List HTTPIngressPath := r.http.getD []

end Kube

/-- What the translations read: the store of Services, and the pool of backends. -/
structure GCETranslator (σ β : Type) where
  svcLister : Str → Option Service
  unmarshal : Str → AList (fun _ : Str => Str) × Option Str
  negEnabled : Bool
  backendPool : ℤ → Prog σ GoError β

namespace GCETranslator
variable {σ β : Type} (t : GCETranslator σ β)

/-- The port of the Service matches the one the Ingress names. -/
def matchesPort (want : IntOrString) (p : ServicePort) : Bool :=
  match want with
  | .int n => p.port = n
  | .str s => p.name = s

def getServiceNodePort (be : IngressBackend) (namespaced : Str) : Except TranslateError Backends.ServicePort :=
  match t.svcLister (metaNamespaceKey namespaced be.serviceName) with
  | none => .error (.nodePortNotFound be
      ("service ".toList ++ namespaced ++ "/".toList ++ be.serviceName ++ " not found in store".toList))
  | some svc =>
    match svc.annotations.applicationProtocols t.unmarshal with
    | .error e => .error (.svcAppProtosParsing svc e)
    | .ok appProtocols =>
      match svc.ports.find? (matchesPort be.servicePort) with
      | none => .error (.nodePortNotFound be "could not find matching nodeport from service".toList)
      | some port => .ok {
          port := port.nodePort.toInt
          protocol := (appProtocols.lookup port.name).getD protocolHTTP
          svcNamespace := namespaced
          svcName := be.serviceName
          svcPort := be.servicePort
          svcTargetPort := port.targetPort.text
          negEnabled := t.negEnabled && svc.annotations.negEnabled }

def toGCEBackend (be : Option IngressBackend) (namespaced : Str) : Prog σ TranslateError (Option β) :=
  match be with
  | none => pure none
  | some be =>
    match t.getServiceNodePort be namespaced with
    | .error e => fail e
    | .ok port => do
      let backend ← mapFailure (fun _ => TranslateError.noBackend port be) (t.backendPool port.port)
      pure (some backend)

def addPath (namespaced : Str) (m : PathMap β) (p : HTTPIngressPath) : Prog σ TranslateError (PathMap β) :=
  rescue
    (do
      let backend ← t.toGCEBackend (some p.backend) namespaced
      pure (m.insert p.pathOrDefault backend))
    (fun e => if e.isNodePortNotFound then pure m else fail e)

def addRule (namespaced : Str) (g : GCEURLMap β) (rule : IngressRule) : Prog σ TranslateError (GCEURLMap β) :=
  match rule.http with
  | none => pure g
  | some paths => do
    let pathToBackend ← paths.foldlM (t.addPath namespaced) ∅
    pure (g.insert rule.hostOrDefault pathToBackend)

def defaultBackend (ing : Ingress) : Prog σ TranslateError (Option β) :=
  rescue (t.toGCEBackend ing.backend ing.namespaced) (fun _ => pure none)

def toURLMap (ing : Ingress) : Prog σ TranslateError (GCEURLMap β) := do
  let hostPathBackend ← ing.rules.foldlM (t.addRule ing.namespaced) ∅
  let defaultBackend ← t.defaultBackend ing
  pure (hostPathBackend.putDefaultBackend defaultBackend)

/-- The port of a backend, if it has one. -/
def portOf (namespaced : Str) (be : IngressBackend) : List Backends.ServicePort :=
  match t.getServiceNodePort be namespaced with
  | .error _ => []
  | .ok port => [port]

def ingressToNodePorts (ing : Ingress) : List Backends.ServicePort :=
  ing.backend.toList.flatMap (t.portOf ing.namespaced) ++
    ing.rules.flatMap (fun rule => rule.paths.flatMap (fun p => t.portOf ing.namespaced p.backend))

def toNodePorts (ings : List Ingress) : List Backends.ServicePort := ings.flatMap t.ingressToNodePorts

/-- The translation does to the state what asking the pool for backends does. -/
theorem toURLMap_respects {R : σ → σ → Prop} [IsPreorder σ R] (h : ∀ port, Respects R (t.backendPool port))
    (ing : Ingress) : Respects R (t.toURLMap ing) := by
  have hbackend : ∀ be, Respects R (t.toGCEBackend be ing.namespaced) := by
    intro be
    unfold toGCEBackend
    split
    · exact respects_pure none
    · split
      · exact respects_fail _
      · exact ((h _).mapFailure _).bind fun _ => respects_pure _
  have hpath : ∀ m p, Respects R (t.addPath ing.namespaced m p) := by
    intro m p
    refine ((hbackend _).bind fun _ => respects_pure _).rescue fun e => ?_
    exact (respects_pure m).ite (respects_fail e)
  have hrule : ∀ g rule, Respects R (t.addRule ing.namespaced g rule) := by
    intro g rule
    unfold addRule
    split
    · exact respects_pure g
    · exact (Respects.foldlM hpath _ _).bind fun _ => respects_pure _
  refine (Respects.foldlM hrule _ _).bind fun _ => Respects.bind ?_ fun _ => respects_pure _
  exact (hbackend _).rescue fun _ => respects_pure none

/-! ## What the Ingress says -/

/-- The path has a node port. -/
def Resolves (namespaced : Str) (p : HTTPIngressPath) : Prop := ∃ port, t.getServiceNodePort p.backend namespaced = .ok port

instance (namespaced : Str) (p : HTTPIngressPath) : Decidable (t.Resolves namespaced p) :=
  match h : t.getServiceNodePort p.backend namespaced with
  | .error _ => isFalse (fun ⟨_,hport⟩ => by rw [h] at hport; cases hport)
  | .ok port => isTrue ⟨port,h⟩

/-- Where a path of a rule sends its requests from. -/
def target (namespaced : Str) (p : HTTPIngressPath) : Option Str :=
  if t.Resolves namespaced p then some p.pathOrDefault else none

/-- The pool after it has been asked for the backends of the paths in turn. -/
def asked (namespaced : Str) (paths : List HTTPIngressPath) (s : σ) : σ :=
  paths.foldl (fun s p => (t.toGCEBackend (some p.backend) namespaced s).2) s

/-- The backend that the pool answers with for a path, after it has been asked for others. -/
def answer (namespaced : Str) (s : σ) (before : List HTTPIngressPath) (p : HTTPIngressPath) : Option β :=
  (t.toGCEBackend (some p.backend) namespaced (t.asked namespaced before s)).1.toOption.join

/-- The path of a rule that counts, the last one that resolves, with the paths before it. -/
def lastPath (namespaced : Str) (paths : List HTTPIngressPath) (path : Str) :
    Option (List HTTPIngressPath × HTTPIngressPath) :=
  lastWrite (t.target namespaced) path paths

/-- The rule that counts for a host, with the rules before it. -/
def lastRule (ing : Ingress) (host : Str) : Option (List IngressRule × IngressRule) :=
  lastWrite IngressRule.httpHost host ing.rules

/-- The pool when the translation comes to a rule. -/
def askedRules (namespaced : Str) (before : List IngressRule) (s : σ) : σ :=
  t.asked namespaced (before.flatMap IngressRule.paths) s

/-- The default backend of the Ingress, if it resolves. -/
def defaultFor (ing : Ingress) (s : σ) : Option β :=
  (t.toGCEBackend ing.backend ing.namespaced (t.askedRules ing.namespaced ing.rules s)).1.toOption.join

section Meaning
variable {t} (namespaced : Str) (s : σ)

theorem asked_concat (paths : List HTTPIngressPath) (p : HTTPIngressPath) :
    t.asked namespaced (paths ++ [p]) s =
      (t.toGCEBackend (some p.backend) namespaced (t.asked namespaced paths s)).2 := by
  rw [asked,List.foldl_append]
  rfl

theorem asked_append (paths paths' : List HTTPIngressPath) :
    t.asked namespaced (paths ++ paths') s = t.asked namespaced paths' (t.asked namespaced paths s) := List.foldl_append

/-- A backend comes from the pool, for a node port. Without a node port there is none. -/
theorem toGCEBackend_spec (be : IngressBackend) :
    Ensures (t.toGCEBackend (some be) namespaced) s (fun r s' =>
      (∀ x, r = .ok x → ∃ port b, t.getServiceNodePort be namespaced = .ok port ∧ x = some b ∧
        t.backendPool port.port s = (.ok b,s')) ∧
      ∀ e, r = .error e → e.isNodePortNotFound = true → ∀ port, t.getServiceNodePort be namespaced ≠ .ok port) := by
  unfold toGCEBackend
  dsimp only
  split
  · rename_i e hport
    refine ⟨nofun,fun _ _ _ port hport' => ?_⟩
    rw [hport] at hport'
    cases hport'
  · rename_i port hport
    rw [ensures_bind,ensures_mapFailure]
    refine (ensures_run _ _).mono ?_
    intro r s' hpool
    cases r with
    | error e =>
      refine ⟨nofun,?_⟩
      rintro e' ⟨⟩ he'
      cases he'
    | ok b =>
      refine ⟨?_,nofun⟩
      rintro x ⟨⟩
      exact ⟨port,b,hport,rfl,hpool⟩

/-- The paths done so far are in the map. -/
structure PathsDone (t : GCETranslator σ β) (namespaced : Str) (s₀ : σ) (done : List HTTPIngressPath)
    (m : PathMap β) (s : σ) : Prop where
  state : s = t.asked namespaced done s₀
  written : Written id (t.target namespaced) (t.answer namespaced s₀) done m
  notNil : ∀ path, m.lookup path ≠ some none

variable {namespaced s}

theorem addPath_done {s₀ : σ} {done : List HTTPIngressPath} {m : PathMap β} (p : HTTPIngressPath)
    (h : PathsDone t namespaced s₀ done m s) :
    Ensures (t.addPath namespaced m p) s (fun r s' => ∀ m', r = .ok m' →
      PathsDone t namespaced s₀ (done ++ [p]) m' s') := by
  obtain ⟨rfl,hwritten,hnotNil⟩ := h
  have hspec := toGCEBackend_spec (t := t) namespaced (t.asked namespaced done s₀) p.backend
  have hstate := asked_concat (t := t) namespaced s₀ done p
  have hanswer : t.answer namespaced s₀ done p =
      (t.toGCEBackend (some p.backend) namespaced (t.asked namespaced done s₀)).1.toOption.join := rfl
  unfold addPath
  rw [ensures_rescue,ensures_bind]
  refine (hspec.and (ensures_run _ _)).mono ?_
  rintro r s' ⟨hspec,hrun⟩
  rw [hrun] at hstate hanswer
  cases r with
  | ok x =>
    obtain ⟨port,b,hport,rfl,_⟩ := hspec.1 x rfl
    rintro m' ⟨⟩
    refine ⟨hstate.symm,hwritten.insert (if_pos ⟨port,hport⟩) hanswer.symm,?_⟩
    intro path
    by_cases hpath : path = p.pathOrDefault
    · subst hpath
      simp
    · rw [AList.lookup_insert_ne hpath]
      exact hnotNil path
  | error e =>
    rw [afterwards_error,rescued_error,ensures_ite]
    refine ⟨?_,fun _ => nofun⟩
    rintro he m' ⟨⟩
    have hno : ¬t.Resolves namespaced p := fun ⟨port,hport⟩ => hspec.2 e rfl he port hport
    exact ⟨hstate.symm,hwritten.skip (if_neg hno),hnotNil⟩

/-- What the map has for a path of a rule, when the translation comes to the rule with
the pool in state `s`. -/
def pathTable (t : GCETranslator σ β) (namespaced : Str) (s : σ) (paths : List HTTPIngressPath) (path : Str) :
    Option (Option β) :=
  (t.lastPath namespaced paths path).map (fun e => t.answer namespaced s e.1 e.2)

/-- The paths of a rule make the map that has for each path the backend of the last
path that resolves. -/
theorem addPaths_ensures (namespaced : Str) (s : σ) (paths : List HTTPIngressPath) :
    Ensures (paths.foldlM (t.addPath namespaced) ∅) s (fun r s' => ∀ m, r = .ok m →
      s' = t.asked namespaced paths s ∧ PathMap.read m = t.pathTable namespaced s paths ∧
      ∀ path, m.read path ≠ some none) := by
  refine (foldlM_rule (t.addPath namespaced) (PathsDone t namespaced s)
    (fun _ p _ _ h => addPath_done p h) paths ⟨rfl,.nil,fun _ => nofun⟩).mono ?_
  intro r s' h m hm
  obtain ⟨hstate,hwritten,hnotNil⟩ := h m hm
  refine ⟨hstate,?_,hnotNil⟩
  funext path
  have hpath := hwritten path
  rwa [Option.map_id] at hpath

/-- What the map has for the host of a rule. -/
def rulePaths (t : GCETranslator σ β) (namespaced : Str) (s : σ) (before : List IngressRule) (r : IngressRule) :
    Str → Option (Option β) :=
  t.pathTable namespaced (t.askedRules namespaced before s) r.paths

/-- The rules done so far are in the map. -/
structure RulesDone (t : GCETranslator σ β) (namespaced : Str) (s₀ : σ) (done : List IngressRule)
    (g : GCEURLMap β) (s : σ) : Prop where
  state : s = t.askedRules namespaced done s₀
  written : Written PathMap.read IngressRule.httpHost (rulePaths t namespaced s₀) done g
  notNil : ∀ host table, g.meaning host = some table → ∀ path, table path ≠ some none

theorem addRule_done {s₀ : σ} {done : List IngressRule} {g : GCEURLMap β} (rule : IngressRule)
    (h : RulesDone t namespaced s₀ done g s) :
    Ensures (t.addRule namespaced g rule) s (fun r s' => ∀ g', r = .ok g' →
      RulesDone t namespaced s₀ (done ++ [rule]) g' s') := by
  obtain ⟨hstate,hwritten,hnotNil⟩ := h
  have hnext : t.askedRules namespaced (done ++ [rule]) s₀ = t.asked namespaced rule.paths s := by
    rw [hstate,askedRules,List.flatMap_append,asked_append]
    simp [askedRules]
  unfold addRule
  split
  · rename_i hhttp
    rintro g' ⟨⟩
    have hpaths : rule.paths = [] := by rw [IngressRule.paths,hhttp]; rfl
    refine ⟨by rw [hnext,hpaths]; rfl,hwritten.skip ?_,hnotNil⟩
    rw [IngressRule.httpHost,hhttp]
    rfl
  · rename_i paths hhttp
    have hpaths : rule.paths = paths := by rw [IngressRule.paths,hhttp]; rfl
    rw [ensures_bind]
    refine (addPaths_ensures (t := t) namespaced s paths).mono ?_
    intro r s' h
    cases r with
    | error e => exact nofun
    | ok m =>
      obtain ⟨hs',hm,hm'⟩ := h m rfl
      rintro g' ⟨⟩
      refine ⟨hs'.trans (by rw [hnext,hpaths]),hwritten.insert (k := rule.hostOrDefault) ?_ ?_,?_⟩
      · rw [IngressRule.httpHost,hhttp]
        rfl
      · rw [hm,hstate,← hpaths]
        rfl
      · intro host table htable
        by_cases hhost : host = rule.hostOrDefault
        · rw [GCEURLMap.meaning,hhost,AList.lookup_insert] at htable
          cases htable
          exact hm'
        · rw [GCEURLMap.meaning,AList.lookup_insert_ne hhost] at htable
          exact hnotNil host table htable

/-- The rule map says what the Ingress says. -/
structure Translates (t : GCETranslator σ β) (ing : Ingress) (s : σ) (g : GCEURLMap β) : Prop where
  hosts : ∀ host, host ≠ defaultBackendKey →
    g.meaning host = (lastRule ing host).map (fun e => rulePaths t ing.namespaced s e.1 e.2)
  notNil : ∀ host table, host ≠ defaultBackendKey → g.meaning host = some table → ∀ path, table path ≠ some none
  reserved : g.meaning defaultBackendKey =
    some (PathMap.read (AList.singleton defaultBackendKey (t.defaultFor ing s)))

theorem Translates.default {ing : Ingress} {g : GCEURLMap β} (h : t.Translates ing s g) :
    g.getDefaultBackend.1 = t.defaultFor ing s := by
  rw [GCEURLMap.getDefaultBackend_fst,h.reserved,Option.bind_some,PathMap.read_singleton]
  rfl

theorem toURLMap_translates {ing : Ingress} {g : GCEURLMap β} {s' : σ} (h : t.toURLMap ing s = (.ok g,s')) :
    t.Translates ing s g := by
  have hens : Ensures (t.toURLMap ing) s (fun r _ => ∀ g, r = .ok g → t.Translates ing s g) := by
    unfold toURLMap
    rw [ensures_bind]
    refine (foldlM_rule (t.addRule ing.namespaced) (RulesDone t ing.namespaced s)
      (fun _ rule _ _ h => addRule_done rule h) ing.rules ⟨rfl,.nil,nofun⟩).mono ?_
    intro r s' h
    cases r with
    | error e => exact nofun
    | ok g =>
      obtain ⟨hstate,hwritten,hnotNil⟩ := h g rfl
      subst hstate
      have htranslates : ∀ d, d = t.defaultFor ing s → t.Translates ing s (g.putDefaultBackend d) := by
        intro d hd
        refine ⟨?_,?_,by rw [GCEURLMap.meaning_putDefaultBackend_self,hd]⟩
        · intro host hhost
          rw [GCEURLMap.meaning_putDefaultBackend_of_ne _ hhost]
          exact hwritten host
        · intro host table hhost htable
          rw [GCEURLMap.meaning_putDefaultBackend_of_ne _ hhost] at htable
          exact hnotNil host table htable
      rw [afterwards_ok,ensures_bind,defaultBackend,ensures_rescue]
      refine (ensures_run _ _).mono ?_
      intro r s' hrun
      cases r with
      | error e =>
        rintro g' ⟨⟩
        exact htranslates none (by rw [defaultFor,hrun]; rfl)
      | ok d =>
        rintro g' ⟨⟩
        exact htranslates d (by rw [defaultFor,hrun]; rfl)
  unfold Ensures at hens
  rw [h] at hens
  exact hens g rfl

end Meaning
end GCETranslator
end IngressGce
