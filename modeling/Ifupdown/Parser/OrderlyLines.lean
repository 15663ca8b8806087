import Ifupdown.Parser.Inheritance
import Ifupdown.Parser.Keyed
import Ifupdown.Parser.Orderly

/-! What lines do to the order of the variables. -/
namespace Ifupdown

def sharedKeys : List Str := [str "use", str "inherit", str "bridge-pvid", str "bridge-vids"]

/-- Some variable has been received: from a parent, with the executor `dhcp`, or by a port from its bridge. -/
def Received (host : Host) (vars : LifDict VarData) : Prop :=
  str "inherit" ∈ lifDictKeys vars ∨ ¬ Anonymous host.dhcpHostname vars ∨
    host.config.compatIfupdown2BridgePortsInheritVlans = true ∧
      (str "bridge-pvid" ∈ lifDictKeys vars ∨ str "bridge-vids" ∈ lifDictKeys vars)

/-- Unless some variable has been received, all stand in order behind those of the start. -/
def SelfMade (host : Host) (start vars : LifDict VarData) : Prop :=
  Received host vars ∨ start <+: vars ∧ Orderly host.config.autoExecutorSelection vars

/-- The change adds or deletes no variable under a key of its own choice. -/
def Edit.Plain : Edit → Prop
  | .change _ (.triple _ _) | .change _ (.dictAdd _ _) | .change _ (.dictDelete _) => False
  | _ => True

section
variable {host : Host} {start vars vars' : LifDict VarData} {key executor : Str} {nodename : Option Str} {iface : LifInterface}

theorem Received.kept (received : Received host vars) (kept : ∀ entry ∈ vars, entry.1 ∈ sharedKeys → entry ∈ vars') :
    Received host vars' := by
  have keys {key : Str} (shared : key ∈ sharedKeys) (member : key ∈ lifDictKeys vars) : key ∈ lifDictKeys vars' := by
    obtain ⟨entry, inside, rfl⟩ := List.mem_map.mp member
    exact List.mem_map_of_mem (kept entry inside shared)
  rcases received with inherits | named | ⟨glue, pvid | vids⟩
  · exact Or.inl (keys (by decide) inherits)
  · exact Or.inr (Or.inl fun anonymous => named (anonymous.imp_right (mt fun member => kept _ member (by decide))))
  · exact Or.inr (Or.inr ⟨glue, Or.inl (keys (by decide) pvid)⟩)
  · exact Or.inr (Or.inr ⟨glue, Or.inr (keys (by decide) vids)⟩)

theorem SelfMade.step (own : SelfMade host start vars) (kept : ∀ entry ∈ vars, entry.1 ∈ sharedKeys → entry ∈ vars')
    (orderly : start <+: vars → Orderly host.config.autoExecutorSelection vars → SelfMade host start vars') :
    SelfMade host start vars' :=
  own.elim (fun received => Or.inl (received.kept kept)) fun both => orderly both.1 both.2

theorem SelfMade.add {data : VarData} (own : SelfMade host start vars)
    (supported : Supported host.config.autoExecutorSelection (vars.map mark) (mark (key, data)) []) :
    SelfMade host start (lifDictAdd vars key data) :=
  own.step (fun _ member _ => List.mem_append_left _ member) fun first orderly =>
    Or.inr ⟨first.trans (List.prefix_append _ _), orderly.add supported⟩

theorem supported_plain {auto : Bool} {seen rest : List Mark} {own : Mark} (plain : 45 ∉ own.1)
    (other : own.1 ∉ [str "address", str "gateway", str "use", str "dhcp-hostname"]) : Supported auto seen own rest := by
  simp only [List.mem_cons, List.not_mem_nil, or_false, not_or] at other
  obtain ⟨address, gateway, use, hostname⟩ := other
  exact ⟨fun needs => absurd needs (not_or.mpr ⟨address, gateway⟩), fun same => absurd same use,
    fun same => absurd same hostname, fun _ dash => absurd dash plain⟩

theorem mem_useVars_used : (str "use", .text executor) ∈ useVars nodename vars executor := by
  have once : (str "use", VarData.text executor) ∈ lifDictAddOnce vars (str "use") (.text executor) :=
    mem_lifDictAddOnce.mpr (Or.inr rfl)
  unfold useVars
  dsimp only
  split
  · split
    · exact List.mem_append_left _ once
    · exact once
  · exact once

theorem addOnce_start : vars <+: lifDictAddOnce vars (str "use") (.text executor) := by
  unfold lifDictAddOnce
  split
  · exact List.prefix_rfl
  · exact List.prefix_append _ _

theorem received_dhcp (named : ¬ (host.dhcpHostname = none ∨ executor ≠ str "dhcp")) :
    Received host (useVars host.dhcpHostname vars executor) := by
  obtain ⟨name, dhcp⟩ := not_or.mp named
  refine Or.inr (Or.inl fun anonymous => ?_)
  have used : (str "use", VarData.text executor) ∈ useVars host.dhcpHostname vars executor := mem_useVars_used
  rw [not_not.mp dhcp] at used
  exact anonymous.resolve_left name (by rwa [not_not.mp dhcp])

theorem SelfMade.use (own : SelfMade host start vars) (executor : Str) :
    SelfMade host start (useVars host.dhcpHostname vars executor) := by
  by_cases plain : host.dhcpHostname = none ∨ executor ≠ str "dhcp"
  · rw [useVars_once plain]
    exact own.step (fun _ member _ => mem_lifDictAddOnce.mpr (Or.inl member)) fun first orderly =>
      Or.inr ⟨first.trans addOnce_start, orderly.use executor⟩
  · exact Or.inl (received_dhcp plain)

theorem SelfMade.static {data : VarData} (own : SelfMade host start vars) (named : key = str "address" ∨ key = str "gateway") :
    SelfMade host start (lifDictAdd (useVars nodename vars (str "static")) key data) := by
  have plain (nodename : Option Str) : useVars nodename vars (str "static") = lifDictAddOnce vars (str "use") (.text (str "static")) :=
    useVars_once (Or.inr (by decide))
  have used := own.use (str "static")
  rw [plain] at used ⊢
  have other : key ≠ str "use" ∧ key ≠ str "dhcp-hostname" ∧ 45 ∉ key := by
    rcases named with rfl | rfl <;> decide
  refine used.add ?_
  rw [mark_other other.1]
  exact ⟨fun _ => mem_marks.mpr (mem_lifDictAddOnce.mpr (Or.inr rfl)), fun same => absurd same other.1,
    fun same => absurd same other.2.1, fun _ dash => absurd dash other.2.2⟩

theorem mem_delete_other {entry : Str × VarData} (member : entry ∈ vars) (other : entry.1 ≠ key) : entry ∈ lifDictDelete vars key := by
  rcases lifDictDelete_split vars key with ⟨same, -⟩ | ⟨before, data, after, rfl, deleted⟩
  · rwa [same]
  · rw [deleted]
    rcases List.mem_append.mp member with first | later
    · exact List.mem_append_left _ first
    · rcases List.mem_cons.mp later with rfl | later
      · exact absurd rfl other
      · exact List.mem_append_right _ later

theorem delete_start (uses : ∀ entry ∈ start, entry.1 = str "use") (other : key ≠ str "use") (first : start <+: vars) :
    start <+: lifDictDelete vars key := by
  obtain ⟨rest, rfl⟩ := first
  induction start with
  | nil => exact List.nil_prefix
  | cons entry later ih =>
    obtain ⟨own, others⟩ := List.forall_mem_cons.mp uses
    rw [List.cons_append, lifDictDelete, if_neg (by rw [own]; exact Ne.symm other)]
    exact List.cons_prefix_cons.mpr ⟨rfl, ih others⟩

theorem SelfMade.delete (own : SelfMade host start vars) (uses : ∀ entry ∈ start, entry.1 = str "use") (other : key ∉ sharedKeys) :
    SelfMade host start (lifDictDelete vars key) := by
  have use : key ≠ str "use" := fun same => other (by rw [same]; decide)
  exact own.step (fun entry member shared => mem_delete_other member fun same => other (by rwa [← same])) fun first orderly =>
    Or.inr ⟨delete_start uses use first, orderly.delete use⟩

theorem SelfMade.hostname {data : VarData} (own : SelfMade host start vars) (uses : ∀ entry ∈ start, entry.1 = str "use") :
    SelfMade host start (lifDictAdd (lifDictDelete vars (str "dhcp-hostname")) (str "dhcp-hostname") data) := by
  have other : str "dhcp-hostname" ∉ sharedKeys ∧ str "dhcp-hostname" ≠ str "use" := by decide
  refine own.step (fun entry member shared => List.mem_append_left _ (mem_delete_other member fun same => other.1 (by rwa [← same])))
    fun first orderly => Or.inr ⟨(delete_start uses other.2 first).trans (List.prefix_append _ _), (orderly.delete other.2).add ?_⟩
  rw [mark_other other.2]
  refine ⟨fun needs => absurd needs ?_, fun same => absurd same other.2, fun _ mark_ member same => ?_, fun _ _ differs => absurd rfl differs⟩
  · exact show ¬ (str "dhcp-hostname" = str "address" ∨ str "dhcp-hostname" = str "gateway") by decide
  · obtain ⟨entry, inside, rfl⟩ := List.mem_map.mp member
    exact orderly.hostname (List.mem_map.mpr ⟨entry, inside, same⟩)

theorem SelfMade.generic {value : Str} (own : SelfMade host start vars) (fresh : key ∉ keywords.map Prod.fst) :
    SelfMade host start (if host.config.autoExecutorSelection = true ∧ 45 ∈ key then
      useVars host.dhcpHostname (lifDictAdd vars key (.text value)) (executorOf key) else lifDictAdd vars key (.text value)) := by
  have other : key ≠ str "address" ∧ key ≠ str "gateway" ∧ key ≠ str "use" ∧ key ≠ str "dhcp-hostname" := by
    refine ⟨?_, ?_, ?_, ?_⟩
    all_goals
      rintro rfl
      exact absurd fresh (by decide)
  obtain ⟨address, gateway, use, hostname⟩ := other
  have supports {rest : List Mark} (dashed : host.config.autoExecutorSelection = true → 45 ∈ key →
      usedMark (executorOf key) ∈ vars.map mark ∨ rest.head? = some (usedMark (executorOf key))) :
      Supported host.config.autoExecutorSelection (vars.map mark) (mark (key, .text value)) rest := by
    rw [mark_other use]
    exact ⟨fun needs => absurd needs (not_or.mpr ⟨address, gateway⟩), fun same => absurd same use,
      fun same => absurd same hostname, fun auto dash _ => dashed auto dash⟩
  split
  · by_cases plain : host.dhcpHostname = none ∨ executorOf key ≠ str "dhcp"
    · rw [useVars_once plain]
      by_cases present : (str "use", VarData.text (executorOf key)) ∈ lifDictAdd vars key (.text value)
      · rw [lifDictAddOnce, if_pos present]
        refine own.add (supports fun _ _ => Or.inl (mem_marks.mpr ?_))
        refine (List.mem_append.mp present).resolve_right fun last => use ?_
        exact (congrArg Prod.fst (List.mem_singleton.mp last)).symm
      · rw [lifDictAddOnce, if_neg present]
        refine own.step (fun _ member _ => List.mem_append_left _ (List.mem_append_left _ member)) fun first orderly =>
          Or.inr ⟨(first.trans (List.prefix_append _ _)).trans (List.prefix_append _ _), ?_⟩
        exact orderly.addBoth (supports fun _ _ => Or.inr rfl) (mt mem_marks.mp present)
    · exact Or.inl (received_dhcp plain)
  · rename_i plain
    exact own.add (supports fun auto dash => absurd ⟨auto, dash⟩ plain)

theorem SelfMade.finalize {inetPton : InetPton} (own : SelfMade host start iface.vars) (uses : ∀ entry ∈ start, entry.1 = str "use") :
    SelfMade host start (lifInterfaceFinalize inetPton iface).vars := by
  have fixed (entry : Str × VarData) (shared : entry.1 ∈ sharedKeys) :
      (if entry.1 = str "address" then (entry.1, finalizeAddress inetPton iface entry.2) else entry) = entry := by
    refine if_neg fun address => ?_
    rw [address] at shared
    exact absurd shared (by decide)
  have marks (vars : LifDict VarData) : (vars.map fun entry =>
      if entry.1 = str "address" then (entry.1, finalizeAddress inetPton iface entry.2) else entry).map mark = vars.map mark := by
    rw [List.map_map]
    refine List.map_congr_left fun entry _ => ?_
    rw [Function.comp_apply]
    split
    · rename_i address
      have other : entry.1 ≠ str "use" := by
        rw [address]
        decide
      rw [mark, mark, if_neg other, if_neg other]
    · rfl
  refine SelfMade.delete ?_ uses (by decide)
  refine own.step (fun entry member shared => List.mem_map.mpr ⟨entry, member, fixed entry shared⟩) fun first orderly =>
    Or.inr ⟨?_, orderly.congr (marks _)⟩
  obtain ⟨rest, same⟩ := first
  rw [← same, List.map_append]
  refine ⟨_, congrArg (· ++ _) ((List.map_congr_left fun entry member => ?_).trans (List.map_id start)).symm⟩
  exact fixed entry (by rw [uses entry member]; decide)

theorem change_selfMade {step : Change} {ifname : Str} (plain : (Edit.change ifname step).Plain) (own : SelfMade host start iface.vars)
    (uses : ∀ entry ∈ start, entry.1 = str "use") : SelfMade host start (step.apply host iface).vars := by
  cases step with
  | useExecutor executor =>
    rw [Change.apply, (useExecutor_vars ..).1]
    exact own.use executor
  | addressAdd address =>
    unfold Change.apply lifInterfaceAddressAdd
    dsimp only
    split
    · exact own
    · dsimp only
      rw [(useExecutor_vars ..).1]
      exact own.static (Or.inl rfl)
  | finalize => exact own.finalize uses
  | markAuto | markTemplate | noDefaults | configError => exact own
  | triple _ _ | dictAdd _ _ | dictDelete _ => exact plain.elim

end

abbrev Collection.Arranged (host : Host) (collection : Collection) : Prop :=
  ∀ x, SelfMade host (lifInterfaceCollectionInit.iface x).vars (collection.iface x).vars

theorem used_only {iface : LifInterface} (only : ∀ entry ∈ iface.vars, ∃ executor, entry = (str "use", VarData.text executor))
    (executor : Str) : ∀ entry ∈ (lifInterfaceUseExecutor none iface executor).vars, ∃ executor, entry = (str "use", VarData.text executor) := by
  rw [(useExecutor_vars ..).1, useVars_once (Or.inl rfl)]
  intro entry member
  rcases mem_lifDictAddOnce.mp member with old | rfl
  · exact only entry old
  · exact ⟨executor, rfl⟩

theorem init_used (x : Str) : ∀ entry ∈ (lifInterfaceCollectionInit.iface x).vars, ∃ executor, entry = (str "use", .text executor) := by
  have fresh (name : Str) : ∀ entry ∈ (lifInterfaceInit name).vars, ∃ executor, entry = (str "use", .text executor) := by
    have none_ : ∀ entry ∈ ({ ifname := name } : LifInterface).vars, ∃ executor, entry = (str "use", VarData.text executor) := fun _ => nofun
    unfold lifInterfaceInit
    dsimp only
    split
    · exact used_only (used_only none_ _) _
    · exact used_only none_ _
  rw [lifInterfaceCollectionInit, iface_write]
  split
  · exact used_only (fresh x) _
  · exact fresh x

theorem init_orderly {auto : Bool} (x : Str) : Orderly auto (lifInterfaceCollectionInit.iface x).vars := by
  have none_ : Orderly auto [] := fun seen own rest split => by simp at split
  have fresh (name : Str) : Orderly auto (lifInterfaceInit name).vars := by
    unfold lifInterfaceInit
    dsimp only
    split
    · exact (none_.use (str "link")).use (str "vlan")
    · exact none_.use (str "link")
  rw [lifInterfaceCollectionInit, iface_write]
  split
  · exact (fresh x).use (str "loopback")
  · exact fresh x

theorem init_use (x : Str) : ∀ entry ∈ (lifInterfaceCollectionInit.iface x).vars, entry.1 = str "use" := by
  intro entry member
  obtain ⟨executor, rfl⟩ := init_used x entry member
  rfl

section
variable {host : Host} {state state' : ParseState} {token : Str} {collection collection' : Collection}

theorem edit_selfMade {edit : Edit} (plain : edit.Plain) (h : edit.apply host collection = some collection') (own : collection.Arranged host) :
    collection'.Arranged host := by
  intro x
  cases edit with
  | find ifname =>
    cases h
    rw [iface_collectionFind]
    exact own x
  | change ifname step =>
    cases h
    rw [iface_write]
    split
    · exact change_selfMade plain (own x) (init_use x)
    · exact own x
  | inherit ifname parent =>
    obtain ⟨vars, members, after⟩ := inherit_iface h
    by_cases same : ifname = x
    · subst same
      have inherits : (str "inherit", VarData.text parent) ∈ (collection'.iface ifname).vars := by
        rw [after]
        simpa using (members _).mpr (Or.inr (Or.inl rfl))
      exact Or.inl (Or.inl (List.mem_map_of_mem (f := Prod.fst) inherits))
    · rw [inherit_others h same]
      exact own x

theorem alter_selfMade {ifname : Str} {changes : List Change} (own : collection.Arranged host)
    (altered : ∀ iface : LifInterface, SelfMade host (lifInterfaceCollectionInit.iface ifname).vars iface.vars →
      SelfMade host (lifInterfaceCollectionInit.iface ifname).vars (changes.foldl (Change.apply host) iface).vars) :
    (collection.alter host ifname changes).Arranged host := by
  intro x
  rw [iface_alter]
  split
  · rename_i same
    subst same
    exact altered _ (own ifname)
  · exact own x

theorem handleGeneric_selfMade {bufp : Nat} (unknown : bsearch (fun entry => strcmp token entry.1) keywords = none)
    (own : state.collection.Arranged host) : (handleGeneric host state token bufp).collection.Arranged host := by
  cases current : state.curIface with
  | none =>
    unfold handleGeneric
    rw [current]
    exact own
  | some ifname =>
    rw [(handleGeneric_inside current).2]
    refine alter_selfMade own fun iface made => ?_
    have generic := @SelfMade.generic host _ iface.vars _ (strAt state.linebuf
      (bufp + ((state.linebuf.drop bufp).takeWhile isSpace).length)) made (maybeRemapToken_fresh unknown)
    split at generic
    · rename_i adds
      rw [if_pos adds, List.foldl_cons, List.foldl_cons, List.foldl_nil, Change.apply, (useExecutor_vars ..).1]
      exact generic
    · rename_i plain
      rw [if_neg plain]
      exact generic

theorem handleGateway_selfMade {bufp : Nat} (named : token = str "gateway") (own : state.collection.Arranged host) :
    (handleGateway host state token bufp).collection.Arranged host := by
  cases current : state.curIface with
  | none =>
    have outside : (state.nextToken bufp).2.2.curIface = none := current
    unfold handleGateway
    dsimp only
    rw [outside]
    exact own
  | some ifname =>
    rw [handleGateway_inside current]
    refine @alter_selfMade host _ ifname [.useExecutor (str "static"), .dictAdd token (state.nextToken bufp).1] own fun iface made => ?_
    rw [List.foldl_cons, List.foldl_cons, List.foldl_nil, Change.apply, Change.apply]
    dsimp only
    rw [(useExecutor_vars ..).1]
    exact made.static (Or.inr named)

theorem handleHostname_selfMade {bufp : Nat} (own : state.collection.Arranged host) :
    (handleHostname host state token bufp).collection.Arranged host := by
  cases current : state.curIface with
  | none =>
    have outside : (state.nextToken bufp).2.2.curIface = none := current
    unfold handleHostname
    dsimp only
    rw [outside]
    exact own
  | some ifname =>
    rw [handleHostname_inside current]
    exact @alter_selfMade host _ ifname [.dictDelete (str "dhcp-hostname"), .dictAdd (str "dhcp-hostname") (state.nextToken bufp).1] own
      fun iface made => made.hostname (init_use ifname)

theorem handleLine_selfMade {ok : Bool} (h : handleLine host skip state = some (ok, state')) (own : state.collection.Arranged host) :
    state'.collection.Arranged host := by
  have read : (state.nextToken 0).2.2.collection = state.collection := rfl
  rw [← read] at own
  cases kind : state.kind with
  | blank =>
    rw [handleLine_blank kind] at h
    cases h
    exact own
  | generic =>
    rw [handleLine_generic kind] at h
    cases h
    exact handleGeneric_selfMade (generic_unknown kind) own
  | keyword parserkw =>
    have grown := handleLine_grown h
    have plainly (plain : ∀ edit, (LineKind.keyword parserkw).Makes edit → edit.Plain) : state'.collection.Arranged host := by
      rw [kind] at grown
      exact (grown.mono plain).keeps edit_selfMade own
    cases parserkw with
    | gateway =>
      rw [handleLine_keyword kind] at h
      cases h
      exact handleGateway_selfMade ((lineKind_only kind).gateway rfl) own
    | hostname =>
      rw [handleLine_keyword kind] at h
      cases h
      exact handleHostname_selfMade own
    | _ =>
      refine plainly fun edit makes => ?_
      cases edit with
      | change ifname step => cases step <;> first | trivial | simp [LineKind.Makes] at makes
      | _ => trivial

/-- What lines and finalizing keep, a run keeps. -/
theorem Run.keeps {inv : Collection → Prop} {lines : List Visit} (run : Run host state lines state')
    (line : ∀ {state state' : ParseState} {ok : Bool}, handleLine host skip state = some (ok, state') →
      inv state.collection → inv state'.collection)
    (finalize : ∀ {collection collection' : Collection} {ifname : Str},
      (Edit.change ifname .finalize).apply host collection = some collection' → inv collection → inv collection')
    (start : inv state.collection) : inv state'.collection := by
  have settled {state state' : ParseState} (quiet : Quiet host state state') (start : inv state.collection) : inv state'.collection := by
    refine quiet.grown.keeps (fun made here => ?_) start
    obtain ⟨ifname, rfl⟩ := made
    exact finalize here
  induction run with
  | done quiet => exact settled quiet start
  | line quiet handled _ ih => exact ih (line handled (settled quiet start))

theorem parsed_selfMade {fuel : Nat} {filename : Str} {ok : Bool}
    (parsed : lifInterfaceFileParse host fuel {} filename = some (ok, state)) : state.collection.Arranged host := by
  refine (parse_run parsed).keeps handleLine_selfMade ?_ ?_
  · intro collection collection' ifname here
    exact @edit_selfMade host collection collection' (.change ifname .finalize) trivial here
  · exact fun x => Or.inr ⟨List.prefix_rfl, init_orderly x⟩

end

end Ifupdown
