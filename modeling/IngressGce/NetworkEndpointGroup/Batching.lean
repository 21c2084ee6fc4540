import IngressGce.NetworkEndpointGroup.Endpoints

/-! # The batches of a difference

Endpoints whose texts have no bars survive being encoded and decoded. The batches that
are made of a set of such texts contain each element of the set once, whatever the order
in which the elements are popped.
-/
namespace IngressGce.NEG

/-- Neither the address nor the instance has the character that separates them. -/
structure NetworkEndpoint.BarFree (ne : NetworkEndpoint) : Prop where
  ip : '|' ∉ ne.ipAddress
  instanceName : '|' ∉ ne.instanceName

theorem bar_not_mem_itoa (n : ℤ) : '|' ∉ Decimal.itoa n := by
  intro h
  rcases Decimal.mem_itoa h with h | h
  · exact absurd h (by decide)
  · exact absurd h (by decide)

theorem split_encodeEndpoint {ip name port : Str} (hip : '|' ∉ ip) (hname : '|' ∉ name) (hport : '|' ∉ port) :
    Str.split endpointSeparator (encodeEndpoint ip name port) = [ip,name,port] := by
  have hlast : ¬endpointSeparator <:+: port := fun h => hport (h.subset (by decide))
  have hsep : endpointSeparator = '|' :: ['|'] := rfl
  unfold Str.split encodeEndpoint
  rw [hsep,Str.splitFrom_append_of_not_mem hip,Str.splitFrom_append_of_not_mem hname,← hsep,
    Str.splitFrom_of_no_sep hlast]

theorem decode_encode {ne : NetworkEndpoint} (h : ne.BarFree) : decodeNetworkEndpoint ne.encode = .ok ne := by
  have hsplit := split_encodeEndpoint h.ip h.instanceName (bar_not_mem_itoa ne.port.toInt)
  have hatoi : Decimal.atoi (Decimal.itoa ne.port.toInt) = (ne.port.toInt,none) :=
    Decimal.atoi_itoa (Int64.le_toInt ne.port) (Int64.toInt_lt ne.port)
  simp only [decodeNetworkEndpoint,decodeEndpoint,NetworkEndpoint.encode,hsplit,hatoi,Int64.ofInt_toInt]

theorem encode_injective {ne ne' : NetworkEndpoint} (h : ne.BarFree) (h' : ne'.BarFree)
    (heq : ne.encode = ne'.encode) : ne = ne' := by
  have hdecode := decode_encode h
  rw [heq,decode_encode h'] at hdecode
  exact (Except.ok.inj hdecode).symm

/-- The text of an endpoint without bars. -/
def Encoded (enc : Str) : Prop := ∃ ne : NetworkEndpoint, ne.BarFree ∧ ne.encode = enc

theorem mem_encodings {nes : List NetworkEndpoint} {enc : Str} :
    enc ∈ encodings nes ↔ ∃ ne ∈ nes, ne.encode = enc := by
  have hfold : ∀ (nes : List NetworkEndpoint) (set : List Str),
      enc ∈ nes.foldl (fun set ne => set.insert ne.encode) set ↔ enc ∈ set ∨ ∃ ne ∈ nes, ne.encode = enc := by
    intro nes
    induction nes with
    | nil => simp
    | cons ne rest ih =>
      intro set
      rw [List.foldl_cons,ih]
      simp only [List.mem_insert_iff,List.mem_cons,exists_eq_or_imp,eq_comm (a := enc)]
      tauto
  simpa [encodings] using hfold nes []

theorem nodup_encodings (nes : List NetworkEndpoint) : (encodings nes).Nodup := by
  have hfold : ∀ (nes : List NetworkEndpoint) (set : List Str), set.Nodup →
      (nes.foldl (fun set ne => set.insert ne.encode) set).Nodup := by
    intro nes
    induction nes with
    | nil => exact fun set h => h
    | cons ne rest ih => exact fun set h => ih _ (h.insert)
  exact hfold nes [] List.nodup_nil

section Maps

theorem mem_difference {xs ys : List Str} {a : Str} : a ∈ difference xs ys ↔ a ∈ xs ∧ a ∉ ys := by
  simp [difference]

/-- One round of the loop sets the zone it is at, where nothing has been put before. -/
theorem missing_round_at (other diffs : ZoneMap) {z : Str} (set : List Str) (hnew : diffs.at z = []) :
    ListMap.at (if difference set (other.at z) = [] then diffs else diffs.insert z (difference set (other.at z))) =
      fun z' => if z' = z then difference set (other.at z) else diffs.at z' := by
  funext z'
  split
  · rename_i hempty
    split
    · rename_i heq
      rw [heq,hnew,hempty]
    · rfl
  · exact ListMap.at_insert diffs z z' _

theorem missing_loop_at (other : ZoneMap) (zone : Str) (entries : List (Sigma fun _ : Str => List Str)) (diffs : ZoneMap)
    (hnodup : entries.NodupKeys) (hnew : ∀ z ∈ entries.keys, diffs.at z = []) :
    ListMap.at (entries.foldl (fun diffs entry =>
      if difference entry.2 (other.at entry.1) = [] then diffs
      else diffs.insert entry.1 (difference entry.2 (other.at entry.1))) diffs) zone =
    if zone ∈ entries.keys then difference (ListMap.listOf entries zone) (other.at zone) else diffs.at zone := by
  induction entries generalizing diffs with
  | nil => rfl
  | cons entry rest ih =>
    obtain ⟨z,set⟩ := entry
    obtain ⟨hz,hrest⟩ := List.nodupKeys_cons.mp hnodup
    have hround := missing_round_at other diffs set (hnew z List.mem_cons_self)
    rw [List.foldl_cons,ih _ hrest]
    · simp only [hround,ListMap.listOf_cons,List.keys_cons,List.mem_cons]
      by_cases hzone : zone = z
      · subst hzone
        simp [hz]
      · simp [hzone]
    · intro z' hz'
      have hne : z' ≠ z := fun h => hz (h ▸ hz')
      rw [hround]
      simp only [hne,if_false]
      exact hnew z' (List.mem_cons_of_mem _ hz')

theorem missing_at (m other : ZoneMap) (zone : Str) :
    (missing m other).at zone = difference (m.at zone) (other.at zone) := by
  unfold missing
  rw [missing_loop_at other zone m.entries ∅ m.nodupKeys (fun z _ => rfl)]
  split
  · rfl
  · rename_i hnot
    rw [← ListMap.listOf_entries m,ListMap.listOf_of_not_mem hnot]
    rfl

end Maps

section Batches
variable {o : Iteration Str} {op : SetOp} {zone : Str}

theorem popList_perm {n : ℕ} {set : List Str} (h : n ≤ set.length) :
    set.Perm ((popList o n set).1 ++ (popList o n set).2) ∧ (popList o n set).1.length = n := by
  induction n generalizing set with
  | zero => exact ⟨.rfl,rfl⟩
  | succ n ih =>
    rw [popList]
    split
    · rename_i hpop
      rw [Iteration.popAny_eq_none.mp hpop] at h
      simp at h
    · rename_i enc rest hpop
      have hperm := Iteration.popAny_perm hpop
      have hlen := hperm.length_eq
      rw [List.length_cons] at hlen
      have hle : n ≤ rest.length := by omega
      obtain ⟨hrest,hn⟩ := ih hle
      constructor
      · exact hperm.trans (hrest.cons enc)
      · rw [List.length_cons,hn]

theorem mapM_decode {encs : List Str} (h : ∀ enc ∈ encs, Encoded enc) :
    ∃ nes, encs.mapM decodeNetworkEndpoint = .ok nes ∧ nes.map NetworkEndpoint.encode = encs ∧
      ∀ ne ∈ nes, ne.BarFree := by
  induction encs with
  | nil => exact ⟨[],rfl,rfl,by simp⟩
  | cons enc rest ih =>
    obtain ⟨ne,hfree,rfl⟩ := h enc List.mem_cons_self
    obtain ⟨nes,hmap,hencode,hall⟩ := ih fun enc henc => h enc (List.mem_cons_of_mem _ henc)
    refine ⟨ne :: nes,?_,by rw [List.map_cons,hencode],?_⟩
    · rw [List.mapM_cons,decode_encode hfree,hmap]
      rfl
    · intro ne' hne'
      rcases List.mem_cons.mp hne' with rfl | hne'
      · exact hfree
      · exact hall ne' hne'

/-- What each issued batch is: not empty, not too large, and of endpoints without bars. -/
structure Fits (b : Batch) : Prop where
  nonempty : 1 ≤ b.items.length
  bounded : b.items.length ≤ maxNetworkEndpointsPerBatch
  barFree : ∀ ne ∈ b.items, ne.BarFree

/-- Batches for one zone that contain a set of texts, each element once. -/
structure Covers (op : SetOp) (zone : Str) (set : List Str) (batches : List Batch) : Prop where
  fits : ∀ b ∈ batches, Fits b
  about : ∀ b ∈ batches, b.op = op ∧ b.key = zone
  items : ((batches.flatMap SetUpdate.items).map NetworkEndpoint.encode).Perm set

theorem issueBatches_covers (op : SetOp) (zone : Str) (o : Iteration Str) {set : List Str} (h : ∀ enc ∈ set, Encoded enc) :
    (issueBatches op zone o set).2 = none ∧ Covers op zone set (issueBatches op zone o set).1 := by
  -- The induction is on the size of the set, as the loop pops its batch from it.
  induction hn : set.length using Nat.strong_induction_on generalizing set with
  | _ n ih =>
  rw [issueBatches]
  split
  · rename_i hempty
    subst hempty
    exact ⟨rfl,by simp,by simp,by simp⟩
  · rename_i hne
    have hpos : 0 < set.length := List.length_pos_iff.mpr hne
    have hmax : 0 < maxNetworkEndpointsPerBatch := by decide
    have hleft := popList_length o (min set.length maxNetworkEndpointsPerBatch) set
    obtain ⟨hperm,hlen⟩ := popList_perm (o := o) (Nat.min_le_left set.length maxNetworkEndpointsPerBatch)
    have hpopped : ∀ enc ∈ (popList o (min set.length maxNetworkEndpointsPerBatch) set).1, Encoded enc :=
      fun enc henc => h enc (hperm.mem_iff.mpr (List.mem_append_left _ henc))
    obtain ⟨nes,hdecode,hencode,hfree⟩ := mapM_decode hpopped
    have hbatch : toNetworkEndpointBatch o set = (.ok nes,(popList o (min set.length maxNetworkEndpointsPerBatch) set).2) := by
      exact Prod.ext hdecode rfl
    have hnes : nes.length = min set.length maxNetworkEndpointsPerBatch := by
      rw [← hlen,← hencode,List.length_map]
    simp only [hbatch]
    obtain ⟨hnone,hcovers⟩ := ih _ (by omega)
      (fun enc henc => h enc (hperm.mem_iff.mpr (List.mem_append_right _ henc))) rfl
    refine ⟨hnone,?_,?_,?_⟩
    · intro b hb
      rcases List.mem_cons.mp hb with rfl | hb
      · exact ⟨by simp only [hnes]; omega,by simp only [hnes]; omega,hfree⟩
      · exact hcovers.fits b hb
    · intro b hb
      rcases List.mem_cons.mp hb with rfl | hb
      · exact ⟨rfl,rfl⟩
      · exact hcovers.about b hb
    · rw [List.flatMap_cons,List.map_append]
      simp only [hencode]
      exact (hcovers.items.append_left _).trans hperm.symm

theorem Covers.mentioned {set : List Str} {batches : List Batch} (h : Covers op zone set batches)
    (op' : SetOp) (z : Str) :
    SetUpdate.mentioned op' batches z = if op' = op ∧ z = zone then batches.flatMap SetUpdate.items else [] := by
  unfold SetUpdate.mentioned
  split
  · rename_i heq
    rw [List.filter_eq_self.mpr]
    intro b hb
    obtain ⟨hop,hkey⟩ := h.about b hb
    simp [hop,hkey,heq]
  · rename_i hne
    rw [List.filter_eq_nil_iff.mpr]
    · rfl
    · intro b hb
      obtain ⟨hop,hkey⟩ := h.about b hb
      rw [hop,hkey,decide_eq_true_eq]
      exact fun hsame => hne ⟨hsame.1.symm,hsame.2.symm⟩

/-- Batches that contain, for each zone, the texts given for it, each once. -/
structure Issues (op : SetOp) (sets : Str → List Str) (batches : List Batch) : Prop where
  fits : ∀ b ∈ batches, Fits b
  texts : ∀ z, ((SetUpdate.mentioned op batches z).map NetworkEndpoint.encode).Perm (sets z)
  others : ∀ op' z, op' ≠ op → SetUpdate.mentioned op' batches z = []

theorem mentioned_append {op : SetOp} {bs bs' : List Batch} {z : Str} :
    SetUpdate.mentioned op (bs ++ bs') z = SetUpdate.mentioned op bs z ++ SetUpdate.mentioned op bs' z := by
  simp [SetUpdate.mentioned]

theorem issueZones_issues (E : Environment) (op : SetOp) {entries : List (Sigma fun _ : Str => List Str)}
    (hnodup : entries.NodupKeys) (h : ∀ z, ∀ enc ∈ ListMap.listOf entries z, Encoded enc) :
    (issueZones E op entries).2 = none ∧ Issues op (ListMap.listOf entries) (issueZones E op entries).1 := by
  induction entries with
  | nil => exact ⟨rfl,by simp [issueZones],fun z => by simp [issueZones,SetUpdate.mentioned,ListMap.listOf],fun _ _ _ => rfl⟩
  | cons entry rest ih =>
    obtain ⟨zone,set⟩ := entry
    obtain ⟨hzone,hrest⟩ := List.nodupKeys_cons.mp hnodup
    have hset : ∀ enc ∈ set, Encoded enc := by
      intro enc henc
      apply h zone
      rwa [ListMap.listOf_cons,if_pos rfl]
    have hothers : ∀ z, ∀ enc ∈ ListMap.listOf rest z, Encoded enc := by
      intro z enc henc
      have hz : z ≠ zone := by
        rintro rfl
        rw [ListMap.listOf_of_not_mem hzone] at henc
        cases henc
      apply h z
      rwa [ListMap.listOf_cons,if_neg hz]
    obtain ⟨hnone,hcovers⟩ := issueBatches_covers op zone (E.popOrder op zone) hset
    obtain ⟨hnone',hissues⟩ := ih hrest hothers
    rw [issueZones]
    generalize issueBatches op zone (E.popOrder op zone) set = issued at hnone hcovers
    obtain ⟨batches,err⟩ := issued
    subst hnone
    refine ⟨hnone',?_,?_,?_⟩
    · intro b hb
      rcases List.mem_append.mp hb with hb | hb
      · exact hcovers.fits b hb
      · exact hissues.fits b hb
    · intro z
      have hrest' := hissues.texts z
      rw [mentioned_append,List.map_append,hcovers.mentioned,ListMap.listOf_cons]
      by_cases hz : z = zone
      · subst hz
        rw [ListMap.listOf_of_not_mem hzone] at hrest'
        rw [if_pos ⟨rfl,rfl⟩,if_pos rfl,hrest'.eq_nil,List.append_nil]
        exact hcovers.items
      · simpa [hz] using hrest'
    · intro op' z hop
      rw [mentioned_append,hcovers.mentioned,hissues.others op' z hop]
      simp [hop]

/-- The batches of a whole sync. -/
structure IssuesBoth (adds removes : ZoneMap) (batches : List Batch) : Prop where
  fits : ∀ b ∈ batches, Fits b
  adds : ∀ z, ((SetUpdate.mentioned .union batches z).map NetworkEndpoint.encode).Perm (adds.at z)
  removes : ∀ z, ((SetUpdate.mentioned .difference batches z).map NetworkEndpoint.encode).Perm (removes.at z)

theorem issue_both (E : Environment) {adds removes : ZoneMap} (hadds : ∀ z, ∀ enc ∈ adds.at z, Encoded enc)
    (hremoves : ∀ z, ∀ enc ∈ removes.at z, Encoded enc) :
    (issue E adds removes).2 = none ∧ IssuesBoth adds removes (issue E adds removes).1 := by
  have hrange : ∀ (op : SetOp) (m : ZoneMap), (∀ z, ∀ enc ∈ m.at z, Encoded enc) →
      (issueZones E op ((E.zoneOrder op).range m.entries)).2 = none ∧
        Issues op m.at (issueZones E op ((E.zoneOrder op).range m.entries)).1 := by
    intro op m hm
    obtain ⟨hnodup,hsets⟩ := ListMap.listOf_range (E.zoneOrder op) m
    have hissues := issueZones_issues E op hnodup (by rw [hsets]; exact hm)
    rwa [hsets] at hissues
  obtain ⟨hnone,hdetach⟩ := hrange .difference removes hremoves
  obtain ⟨hnone',hattach⟩ := hrange .union adds hadds
  rw [issue]
  generalize issueZones E .difference _ = detached at hnone hdetach
  obtain ⟨detached,err⟩ := detached
  subst hnone
  refine ⟨hnone',?_,?_,?_⟩
  · intro b hb
    rcases List.mem_append.mp hb with hb | hb
    · exact hdetach.fits b hb
    · exact hattach.fits b hb
  · intro z
    rw [mentioned_append,hdetach.others .union z (by decide),List.nil_append]
    exact hattach.texts z
  · intro z
    rw [mentioned_append,hattach.others .difference z (by decide),List.append_nil]
    exact hdetach.texts z

/-- Items of the batches have no bars, so that they are told apart by their texts. -/
theorem mentioned_barFree {batches : List Batch} (h : ∀ b ∈ batches, Fits b) {op : SetOp} {z : Str}
    {ne : NetworkEndpoint} (hne : ne ∈ SetUpdate.mentioned op batches z) : ne.BarFree := by
  obtain ⟨b,hb,_,_,hitem⟩ := SetUpdate.mem_mentioned.mp hne
  exact (h b hb).barFree ne hitem

variable {adds removes : ZoneMap} {batches : List Batch}

theorem IssuesBoth.nodup (h : IssuesBoth adds removes batches) (hadds : ∀ z, (adds.at z).Nodup)
    (hremoves : ∀ z, (removes.at z).Nodup) (op : SetOp) (z : Str) : (SetUpdate.mentioned op batches z).Nodup := by
  cases op with
  | union => exact List.Nodup.of_map _ ((h.adds z).nodup_iff.mpr (hadds z))
  | difference => exact List.Nodup.of_map _ ((h.removes z).nodup_iff.mpr (hremoves z))

theorem IssuesBoth.apart (h : IssuesBoth adds removes batches) (hdisjoint : ∀ z, ∀ enc ∈ adds.at z, enc ∉ removes.at z) :
    SetUpdate.Apart batches := by
  intro z ne hadd hremove
  apply hdisjoint z ne.encode
  · exact (h.adds z).mem_iff.mp (List.mem_map_of_mem hadd)
  · exact (h.removes z).mem_iff.mp (List.mem_map_of_mem hremove)

end Batches
end IngressGce.NEG
