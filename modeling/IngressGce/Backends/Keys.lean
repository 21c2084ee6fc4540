import IngressGce.Backends.Names
import IngressGce.Cloud.Errors
import IngressGce.Naming.Parse

/-! # The key of a listed backend service

The pool finds the port of a backend service in its name. The name has to be tagged with
the UID of the cluster, and to have somewhere the text that precedes the port.
-/
namespace IngressGce
namespace Namer

/-- What the group of `k8s-be-([0-9]+).*` takes when the expression is matched with the
beginning of a text. -/
def matchBackend (s : Str) : Option Str :=
  if "k8s-be-".toList <+: s then
    match (s.drop 7).takeWhile Char.isDigit with
    | [] => none
    | digits => some digits
  else none

/-- The leftmost match. -/
def findBackend : Str → Option Str
  | [] => none
  | c :: cs =>
    match matchBackend (c :: cs) with
    | some digits => some digits
    | none => findBackend cs

def backendPort (beName : Str) : Except GoError Str :=
  match findBackend beName with
  | none => .error (.text ("unable to lookup port for ".toList ++ beName))
  | some digits =>
    match Decimal.atoi digits with
    | (_,none) => .ok digits
    | (_,some _) => .error (.text ("unexpected regex match: ".toList ++ beName))

/-- The key function of the pool. -/
def backendKey (n : Namer) (beName : Str) : Except GoError Str :=
  if n.nameBelongsToCluster beName then backendPort beName
  else .error (.text ("unrecognized name ".toList ++ beName))

theorem findBackend_of_match {s digits : Str} (h : matchBackend s = some digits) : findBackend s = some digits := by
  cases s with
  | nil => cases h
  | cons c cs => rw [findBackend,h]

theorem matchBackend_of_digits {digits rest : Str} (hne : digits ≠ []) (hdigits : ∀ c ∈ digits, c.isDigit = true)
    (hrest : ∀ c ∈ rest.head?, c.isDigit = false) :
    matchBackend ("k8s-be-".toList ++ (digits ++ rest)) = some digits := by
  have hdrop : ("k8s-be-".toList ++ (digits ++ rest)).drop 7 = digits ++ rest := rfl
  have htake : (digits ++ rest).takeWhile Char.isDigit = digits := by
    rw [List.takeWhile_append_of_pos hdigits]
    cases rest with
    | nil => simp
    | cons c cs => rw [List.takeWhile_cons_of_neg (by simp [hrest c rfl]),List.append_nil]
  rw [matchBackend,if_pos (List.prefix_append _ _),hdrop,htake]
  cases digits with
  | nil => exact absurd rfl hne
  | cons c cs => rfl

/-- The port is found although the expression may match anywhere: nothing precedes it. -/
theorem findBackend_of_digits {digits rest : Str} (hne : digits ≠ []) (hdigits : ∀ c ∈ digits, c.isDigit = true)
    (hrest : ∀ c ∈ rest.head?, c.isDigit = false) :
    findBackend ("k8s-be-".toList ++ (digits ++ rest)) = some digits :=
  findBackend_of_match (matchBackend_of_digits hne hdigits hrest)

variable {u v : Namer} {port : ℕ}

theorem backend_of_no_uid (h : u.clusterName = []) : u.backend port = "k8s-be-".toList ++ Nat.toDigits 10 port :=
  if_pos h

theorem backend_of_fits (hu : u.clusterName ≠ []) (h : (u.backend port).length ≤ nameLenLimit) :
    u.backend port = "k8s-be-".toList ++ Nat.toDigits 10 port ++ (clusterNameDelimiter ++ u.clusterName) := by
  unfold backend decorateName at h ⊢
  rw [if_neg hu] at h ⊢
  exact truncate_of_fits h

theorem no_delimiter_in_backend (port : ℕ) : ¬clusterNameDelimiter <:+: "k8s-be-".toList ++ Nat.toDigits 10 port := by
  have hdash := Decimal.dash_not_mem_toDigits port
  have hhead : (Nat.toDigits 10 port).head? ≠ some '-' := fun h => hdash (List.mem_of_mem_head? h)
  rw [Str.infix_append_left_iff (delimiter_not_across (by decide) (Or.inr hhead))]
  exact fun h => hdash (h.subset (by decide))

theorem backend_getLast (port : ℕ) : ("k8s-be-".toList ++ Nat.toDigits 10 port).getLast? ≠ some '-' := by
  rw [List.getLast?_append_of_ne_nil _ Nat.toDigits_ne_nil]
  exact fun h => Decimal.dash_not_mem_toDigits port (List.mem_of_getLast? h)

theorem nameBelongsToCluster_backend (h : (u.backend port).length ≤ nameLenLimit) :
    v.nameBelongsToCluster (u.backend port) = decide (u.clusterName = v.clusterName) := by
  have hk8s : "k8s-".toList <+: "k8s-be-".toList ++ Nat.toDigits 10 port := ⟨"be-".toList ++ Nat.toDigits 10 port,rfl⟩
  by_cases hu : u.clusterName = []
  · rw [backend_of_no_uid hu,nameBelongsToCluster_of_no_delimiter hk8s (no_delimiter_in_backend port),hu]
    exact decide_eq_decide.mpr eq_comm
  · rw [backend_of_fits hu h]
    exact nameBelongsToCluster_append hk8s (no_delimiter_in_backend port) (backend_getLast port) u.noDelimiter

theorem findBackend_backend (hport : IsInt64 port) : findBackend (u.backend port) = some (Nat.toDigits 10 port) := by
  by_cases hu : u.clusterName = []
  · have hname : u.backend port = "k8s-be-".toList ++ (Nat.toDigits 10 port ++ []) := by
      rw [List.append_nil]
      exact backend_of_no_uid hu
    rw [hname]
    exact findBackend_of_digits Nat.toDigits_ne_nil (fun c => Decimal.isDigit_toDigits) (by simp)
  · obtain ⟨rest,hname⟩ := backend_split hport hu
    rw [hname]
    exact findBackend_of_digits Nat.toDigits_ne_nil (fun c => Decimal.isDigit_toDigits) (by simp [clusterNameDelimiter])

theorem backendPort_backend (hport : port ≤ 65535) : backendPort (u.backend port) = .ok (Backends.portKey port) := by
  have hatoi : Decimal.atoi (Nat.toDigits 10 port) = ((port : ℤ),none) :=
    Decimal.atoi_itoa (n := (port : ℤ)) (by omega) (by omega)
  rw [backendPort,findBackend_backend ⟨by omega,by omega⟩]
  simp only [hatoi]
  rfl

/-- The key function of a cluster accepts the name of a backend exactly if the cluster has
given it, and then finds its port. -/
theorem backendKey_backend (hport : port ≤ 65535) (h : (u.backend port).length ≤ nameLenLimit) :
    ((∃ key, v.backendKey (u.backend port) = .ok key) ↔ u.clusterName = v.clusterName) ∧
    (u.clusterName = v.clusterName → v.backendKey (u.backend port) = .ok (Backends.portKey port)) := by
  have hsame : u.clusterName = v.clusterName → v.backendKey (u.backend port) = .ok (Backends.portKey port) := by
    intro heq
    rw [backendKey,nameBelongsToCluster_backend h,if_pos (decide_eq_true heq)]
    exact backendPort_backend hport
  refine ⟨⟨?_,fun heq => ⟨_,hsame heq⟩⟩,hsame⟩
  rintro ⟨key,hkey⟩
  by_contra hne
  rw [backendKey,nameBelongsToCluster_backend h,if_neg (by simpa using hne)] at hkey
  cases hkey

theorem backendKey_dashes :
    (setUID "-a-".toList).backendKey ((setUID "-a-".toList).backend 30080) = .ok "30080".toList :=
  (backendKey_backend (u := setUID "-a-".toList) (v := setUID "-a-".toList) (by decide) (by decide)).2 rfl

/-- A negative port makes a delimiter of its own, which the key function does not expect. -/
theorem nameBelongsToCluster_negative {m : ℕ} (hport : IsInt64 (Int.negSucc m)) :
    u.nameBelongsToCluster (u.backend (Int.negSucc m)) = false := by
  have hsplit : ∀ rest, Str.split clusterNameDelimiter ("k8s-be-".toList ++ (Decimal.itoa (Int.negSucc m) ++ rest)) =
      "k8s-be".toList :: Str.split clusterNameDelimiter (Nat.toDigits 10 (m + 1) ++ rest) := fun rest =>
    split_append_delimiter (s := "k8s-be".toList) (by decide) (by decide)
  have hk8s : ∀ s, "k8s-".toList <+: "k8s-be-".toList ++ s := fun s => ⟨"be-".toList ++ s,rfl⟩
  have hdigits : ¬clusterNameDelimiter <:+: Nat.toDigits 10 (m + 1) :=
    fun h => Decimal.dash_not_mem_toDigits (m + 1) (h.subset (by decide))
  by_cases hu : u.clusterName = []
  · have hname : u.backend (Int.negSucc m) = "k8s-be-".toList ++ (Decimal.itoa (Int.negSucc m) ++ []) := by
      rw [List.append_nil]
      exact if_pos hu
    rw [hname,nameBelongsToCluster,if_pos (hk8s _),hsplit,List.append_nil,Str.split,Str.splitFrom_of_no_sep hdigits,hu]
    exact decide_eq_false Nat.toDigits_ne_nil
  · obtain ⟨rest,hname⟩ := backend_split hport hu
    have hlast : (Nat.toDigits 10 (m + 1)).getLast? ≠ some '-' :=
      fun h => Decimal.dash_not_mem_toDigits (m + 1) (List.mem_of_getLast? h)
    rw [hname,nameBelongsToCluster,if_pos (hk8s _),hsplit,split_append_delimiter hdigits hlast]
    cases htokens : Str.split clusterNameDelimiter rest with
    | nil => exact absurd htokens (Str.splitFrom_ne_nil _ _ _)
    | cons t ts => rfl

/-- If a cluster accepts the name it has given to a backend, it finds the port. -/
theorem eq_portKey_of_backendKey {port : ℤ} {key : Str} (hport : IsInt64 port)
    (h : u.backendKey (u.backend port) = .ok key) : key = Backends.portKey port := by
  cases port with
  | negSucc m =>
    rw [backendKey,nameBelongsToCluster_negative hport] at h
    cases h
  | ofNat m =>
    rw [backendKey] at h
    split at h
    · have hfind : findBackend (u.backend (Int.ofNat m)) = some (Nat.toDigits 10 m) := findBackend_backend hport
      rw [backendPort,hfind] at h
      dsimp only at h
      split at h
      · exact (Except.ok.inj h).symm
      · cases h
    · cases h

end Namer
end IngressGce
