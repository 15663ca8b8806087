import Ifupdown.Parser.Walks

/-! The executors that an interface uses, in their order. -/
namespace Ifupdown

abbrev LifInterface.uses (iface : LifInterface) : List VarData := dataAt iface.vars (str "use")

def LifInterface.executors (iface : LifInterface) : List Str := iface.uses.map VarData.value

/-- Names of executors, each once, and the link executor first. -/
structure LinkFirst (uses : List VarData) : Prop where
  texts : ∀ data ∈ uses, data = .text data.value
  distinct : uses.Nodup
  first : uses.head? = some (.text (str "link"))

section
variable {uses : List VarData} {data : VarData} {host : Host} {iface : LifInterface} {collection collection' : Collection}

theorem LinkFirst.addNew (ranked : LinkFirst uses) (text : data = .text data.value) : LinkFirst (addNew uses data) := by
  unfold Ifupdown.addNew
  split
  · exact ranked
  · rename_i fresh
    refine ⟨?_, ?_, ?_⟩
    · rw [List.forall_mem_append, List.forall_mem_singleton]
      exact ⟨ranked.texts, text⟩
    · rw [List.nodup_append]
      refine ⟨ranked.distinct, List.nodup_singleton _, fun old present new single same => fresh ?_⟩
      rwa [← List.mem_singleton.mp single, ← same]
    · rw [List.head?_append, ranked.first]
      rfl

theorem LinkFirst.foldl (ranked : LinkFirst uses) {more : List VarData} (texts : ∀ data ∈ more, data = .text data.value) :
    LinkFirst (more.foldl Ifupdown.addNew uses) := by
  induction more generalizing uses with
  | nil => exact ranked
  | cons data more ih =>
    obtain ⟨text, texts⟩ := List.forall_mem_cons.mp texts
    exact ih (ranked.addNew text) texts

theorem LinkFirst.names (ranked : LinkFirst uses) :
    (uses.map VarData.value).Nodup ∧ (uses.map VarData.value).head? = some (str "link") := by
  constructor
  · refine List.Nodup.map_on (fun a here b there same => ?_) ranked.distinct
    rw [ranked.texts a here, ranked.texts b there, same]
  · rw [List.head?_map, ranked.first]
    rfl

theorem useExecutor_uses (hostname : Option Str) (executor : Str) :
    (lifInterfaceUseExecutor hostname iface executor).uses = addNew iface.uses (.text executor) := by
  have once : dataAt (lifDictAddOnce iface.vars (str "use") (.text executor)) (str "use") = addNew iface.uses (.text executor) := by
    unfold addNew
    rw [dataAt_addOnce]
    by_cases present : (str "use", VarData.text executor) ∈ iface.vars <;> simp [mem_dataAt, present]
  unfold lifInterfaceUseExecutor LifInterface.uses
  cases hostname with
  | none => exact once
  | some nodename =>
    dsimp only
    split
    · rw [dataAt_add, if_neg (by decide), List.append_nil]
      exact once
    · exact once

theorem init_uses (ifname : Str) : LinkFirst (lifInterfaceInit ifname).uses := by
  have link : LinkFirst (addNew [] (.text (str "link"))) := ⟨by simp [addNew, VarData.value], by simp [addNew], rfl⟩
  unfold lifInterfaceInit
  dsimp only
  split
  · rw [useExecutor_uses, useExecutor_uses]
    exact link.addNew rfl
  · rw [useExecutor_uses]
    exact link

/-- Uses are only added, and each but once: `use` is no key that a stanza can set otherwise. -/
theorem change_uses {step : Change} {ifname : Str} (made : (Edit.change ifname step).Made) (ranked : LinkFirst iface.uses) :
    LinkFirst (step.apply host iface).uses := by
  cases step with
  | useExecutor executor =>
    rw [Change.apply, useExecutor_uses]
    exact ranked.addNew rfl
  | addressAdd address =>
    rw [Change.apply]
    unfold lifInterfaceAddressAdd
    split
    · exact ranked
    · have added : LinkFirst (lifInterfaceUseExecutor none iface (str "static")).uses := by
        rw [useExecutor_uses]
        exact ranked.addNew rfl
      rw [LifInterface.uses, dataAt_add, if_neg (by decide), List.append_nil]
      exact added
  | triple token value =>
    have other : token ≠ str "use" := by
      intro same
      rw [same] at made
      exact made (by decide)
    rw [Change.apply, LifInterface.uses, dataAt_add, if_neg other, List.append_nil]
    exact ranked
  | dictAdd key value =>
    have other : key ≠ str "use" := by
      rcases made with rfl | rfl <;> decide
    rw [Change.apply, LifInterface.uses, dataAt_add, if_neg other, List.append_nil]
    exact ranked
  | dictDelete key =>
    have other : key ≠ str "use" := by
      obtain rfl : key = str "dhcp-hostname" := made
      decide
    rw [Change.apply, LifInterface.uses, dataAt_delete, if_neg other]
    exact ranked
  | finalize =>
    rw [Change.apply, LifInterface.uses, finalize_data, if_neg (by decide), if_neg (by decide)]
    exact ranked
  | markAuto | markTemplate | noDefaults | configError => exact ranked

theorem edit_uses {edit : Edit} (made : edit.Made) (h : edit.apply host collection = some collection')
    (ranked : ∀ x, LinkFirst (collection.iface x).uses) : ∀ x, LinkFirst (collection'.iface x).uses := by
  intro x
  cases edit with
  | find ifname =>
    cases h
    rw [iface_collectionFind]
    exact ranked x
  | change ifname step =>
    cases h
    rw [iface_write]
    split
    · exact change_uses made (ranked x)
    · exact ranked x
  | inherit ifname parent =>
    by_cases own : ifname = x
    · subst own
      rw [LifInterface.uses, inherit_after h (by decide), if_neg (by decide)]
      split
      · exact ranked ifname
      · exact (ranked ifname).foldl (ranked parent).texts
    · rw [LifInterface.uses, inherit_others h own]
      exact ranked x

theorem collectionInit_uses (x : Str) : LinkFirst (lifInterfaceCollectionInit.iface x).uses := by
  rw [lifInterfaceCollectionInit, iface_write]
  split
  · rw [useExecutor_uses]
    exact (init_uses x).addNew rfl
  · exact init_uses x

end

theorem parsed_uses {host : Host} {fuel : Nat} {filename : Str} {ok : Bool} {state : ParseState}
    (parsed : lifInterfaceFileParse host fuel {} filename = some (ok, state)) (x : Str) : LinkFirst (state.collection.iface x).uses := by
  obtain ⟨reached, made⟩ := lifInterfaceFileParse_traced traced_start parsed
  have all := @applyEdits_invariant host (fun collection => ∀ x, LinkFirst (collection.iface x).uses) _ _ _ made reached
    collectionInit_uses fun edit _ _ made step => edit_uses made step
  exact all x

end Ifupdown
