import Ifupdown.Model.Command
import Ifupdown.Parser.Buffered
import Ifupdown.Properties.DependencyGraph
import Ifupdown.Session.Memory

/-! Loading an interfaces file ends in what sessions start from. -/
namespace Ifupdown

section
variable {host : Host} {collection collection' : Collection}

theorem change_refcount (step : Change) (iface : LifInterface) : (step.apply host iface).refcount = iface.refcount := by
  cases step with
  | useExecutor executor =>
    obtain ⟨_, _, _, same⟩ := lifInterfaceUseExecutor_frame host.dhcpHostname iface executor
    rw [Change.apply, same]
  | addressAdd address =>
    obtain ⟨_, _, _, same⟩ := lifInterfaceAddressAdd_frame host.inetPton iface address
    rw [Change.apply, same]
  | _ => rfl

def Collection.Uncounted (collection : Collection) : Prop := ∀ x, (collection.iface x).refcount = 0

theorem Collection.Uncounted.write {ifname : Str} {f : LifInterface → LifInterface} (uncounted : collection.Uncounted)
    (keeps : ∀ interface, (f interface).ifname = interface.ifname) (same : ∀ interface, (f interface).refcount = interface.refcount) :
    (collection.write ifname f keeps).Uncounted := by
  intro x
  rw [iface_write]
  split
  · rw [same]
    exact uncounted x
  · exact uncounted x

theorem edit_uncounted {edit : Edit} (h : edit.apply host collection = some collection') (uncounted : collection.Uncounted) :
    collection'.Uncounted := by
  cases edit with
  | find ifname =>
    cases h
    intro x
    rw [iface_collectionFind]
    exact uncounted x
  | change ifname step =>
    cases h
    exact uncounted.write _ (change_refcount step)
  | inherit ifname parent =>
    intro x
    obtain ⟨vars, -, after⟩ := inherit_iface h
    rw [after]
    dsimp only
    split
    · split <;> exact uncounted x
    · split <;> exact uncounted x

theorem lifInterfaceInit_refcount (ifname : Str) : (lifInterfaceInit ifname).refcount = 0 := by
  unfold lifInterfaceInit
  dsimp only
  split <;> rfl

theorem init_uncounted : lifInterfaceCollectionInit.Uncounted := by
  intro x
  rw [lifInterfaceCollectionInit, iface_write]
  split
  · rename_i lo
    subst lo
    rfl
  · exact lifInterfaceInit_refcount x

theorem parsed_uncounted {fuel : Nat} {filename : Str} {ok : Bool} {state : ParseState}
    (parsed : lifInterfaceFileParse host fuel {} filename = some (ok, state)) : state.collection.Uncounted := by
  obtain ⟨reached, made⟩ := lifInterfaceFileParse_traced traced_start parsed
  exact applyEdits_invariant made reached init_uncounted fun _ _ _ _ step uncounted => edit_uncounted step uncounted

end

section
variable {env : DependEnv} {opts : LifExecuteOpts} {s s' : Survey}

theorem SurveyStep.uncounted (step : SurveyStep env opts s s') (uncounted : s.collection.Uncounted) : s'.collection.Uncounted := by
  cases step with
  | find token =>
    intro x
    rw [Survey.find, iface_collectionFind]
    exact uncounted x
  | enter depth query =>
    refine uncounted.write ?_ ?_
    all_goals exact fun _ => rfl
  | leave parent =>
    refine uncounted.write ?_ ?_
    all_goals exact fun _ => rfl

theorem SurveyStep.nodup {x : Str} (step : SurveyStep env opts s s') (nodup : (s.requires x).Nodup) : (s'.requires x).Nodup := by
  rcases step.requires x with same | ⟨more, merged, -⟩
  · rw [same]
    exact nodup
  · rw [merged]
    exact keepWords_nodup _

theorem countRdepends_settled {fuel depth : Nat} (h : lifLifecycleCountRdepends env opts fuel s = some (some depth, s'))
    (idle : ∀ x, s.pending x = false) (uncounted : s.collection.Uncounted) :
    s'.collection.Uncounted ∧ ∀ x, (requireIfs (s'.collection.iface x)).Nodup := by
  unfold lifLifecycleCountRdepends at h
  split at h
  · cases h
  · cases h
  · rename_i last counted
    cases h
    obtain ⟨steps, nodup⟩ := countEntries_visits (fun s => s.collection.Uncounted) (fun x s => (s.requires x).Nodup)
      (fun step => step.uncounted) (fun step => step.nodup)
      (fun {s x answer} depth uncounted query => by
        obtain ⟨more, merged, -⟩ := query_requires query
        rw [enter_requires, if_pos rfl, merged]
        exact keepWords_nodup _)
      uncounted idle (by simp) counted
    refine ⟨fun x => ?_, fun x => ?_⟩
    · rw [iface_reorder]
      exact steps.invariant (fun s => s.collection.Uncounted) (fun step => step.uncounted) uncounted x
    · rw [iface_reorder]
      by_cases known : x ∈ lifDictKeys last.collection.entries
      · exact nodup x known
      · rw [Collection.iface, lifDictFind_none.mpr known, Option.getD_none, requireIfs_init]
        exact List.nodup_nil

end

theorem pimpToken_uncounted {config : LifConfig} {collection : Collection} {bridgePvid bridgeVids : Option VarData} {token : Str}
    (uncounted : collection.Uncounted) : (pimpToken config bridgePvid bridgeVids collection token).Uncounted := by
  unfold pimpToken
  split
  · refine uncounted.write ?_ ?_
    all_goals exact fun _ => rfl
  · exact uncounted

theorem pimpToken_nodup {config : LifConfig} {collection : Collection} {bridgePvid bridgeVids : Option VarData} {token : Str}
    (nodup : ∀ x, (requireIfs (collection.iface x)).Nodup) (x : Str) :
    (requireIfs ((pimpToken config bridgePvid bridgeVids collection token).iface x)).Nodup := by
  unfold pimpToken
  split
  · rw [iface_write]
    split
    · rw [pimpPort_requires]
      exact nodup x
    · exact nodup x
  · exact nodup x

section
variable {host : Host} {env : DependEnv} {opts : LifExecuteOpts} {fuel : Nat} {interfacesFile : Str} {s : Survey}

theorem ifparseLoad_settled (loaded : ifparseLoad host env opts fuel {} interfacesFile = some (.ok s)) :
    s.collection.Uncounted ∧ ∀ x, (requireIfs (s.collection.iface x)).Nodup := by
  unfold ifparseLoad at loaded
  split at loaded
  · cases loaded
  · cases loaded
  rename_i state parsed
  dsimp only at loaded
  split at loaded
  · cases loaded
  · cases loaded
  rename_i depth counted result
  obtain ⟨uncounted, nodup⟩ : counted.collection.Uncounted ∧ ∀ x, (requireIfs (counted.collection.iface x)).Nodup :=
    countRdepends_settled (s := ⟨state.collection, 0⟩) result (parsed_pending parsed) (parsed_uncounted parsed)
  obtain ⟨collection, applied, same⟩ := Option.map_eq_some_iff.mp loaded
  cases same
  exact ⟨lifCompatApply_kept pimpToken_uncounted applied uncounted,
    lifCompatApply_kept (p := fun collection => ∀ x, (requireIfs (collection.iface x)).Nodup) pimpToken_nodup applied nodup⟩

theorem nextWord_part (text : Str) : (nextWord text).1 <:+: text ∧ (nextWord text).2.2 <:+: text := by
  have behind : text.dropWhile isSpace <:+: text := (List.dropWhile_suffix _).isInfix
  exact ⟨(List.takeWhile_prefix _).isInfix.trans behind, (List.drop_suffix _ _).isInfix.trans behind⟩

theorem wordCalls_part {fuel p : Nat} {text : Str} {call : Str × Nat} (member : call ∈ wordCalls fuel p text) : call.1 <:+: text := by
  induction fuel generalizing p text with
  | zero => cases member
  | succ fuel ih =>
    unfold wordCalls at member
    rcases List.mem_cons.mp member with rfl | later
    · exact (nextWord_part text).1
    split at later
    · cases later
    · exact (ih later).trans (nextWord_part text).2

/-- Words that are read from a line buffer leave room for the byte that ends the line. -/
theorem visits_short (stack : ∀ filename, (host.stack filename).length ≤ 4096) {state : ParseState} :
    ∀ visit ∈ visits host fuel state interfacesFile, ∀ call ∈ visit.state.calls, call.1.length < 4096 := by
  intro visit visited call member
  have inside : call ∈ wordCalls _ 0 visit.state.linebuf := List.mem_of_mem_tail member
  have part := wordCalls_part inside
  obtain ⟨behind, ends⟩ := visits_buffer host fuel state interfacesFile visit visited
  have longer : call.1.length ≠ visit.state.linebuf.length := by
    intro same
    have zero : 0 ∈ call.1 := by
      rw [part.eq_of_length same, ends]
      simp
    exact (wordCalls_solid inside 0 zero).1 rfl
  have bound := visits_bound stack visit visited
  have fits := part.length_le
  omega

theorem strlcpy_tokens_short : NamesTokens fun name => name.length < 4096 := by
  intro text token member
  have short := lifTokens_length member
  rw [strlcpy, List.length_take] at short
  omega

/-- The collection of a command is what its sessions assume. -/
theorem ifparseLoad_interfaces (stack : ∀ filename, (host.stack filename).length ≤ 4096)
    (loaded : ifparseLoad host env opts fuel {} interfacesFile = some (.ok s)) :
    ∃ interfaces : Interfaces, interfaces.collection = s.collection := by
  have closed := ifparseLoad_closed loaded
  obtain ⟨uncounted, nodup⟩ := ifparseLoad_settled loaded
  have worded := ifparseLoad_worded strlcpy_tokens_short loaded (by decide) (by decide) (visits_short stack)
  have own {entry : Str × LifInterface} (member : entry ∈ s.collection.entries) : s.collection.iface entry.1 = entry.2 :=
    iface_of_mem member
  refine ⟨⟨s.collection, fun entry member => ?_, fun entry member => ?_, fun entry member => ?_⟩, rfl⟩
  · rw [← own member]
    exact ⟨uncounted entry.1, closed.idle entry.1⟩
  · exact worded.names entry.1 (List.mem_map_of_mem member)
  · rw [← own member]
    exact nodup entry.1

end

end Ifupdown
