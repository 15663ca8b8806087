import Ifupdown.Model.Interface

/-! The interface state database of state.c. -/
namespace Ifupdown

structure LifStateRecord where
  mappedIf : Str
  refcount : Nat
  isExplicit : Bool
  deriving DecidableEq

/-- `lif_state_upsert` deletes before it adds, so a name has at most one record. -/
structure StateDict where
  records : LifDict LifStateRecord
  distinct : (lifDictKeys records).Nodup

def StateDict.empty : StateDict := ⟨[], List.nodup_nil⟩

def lifStateDelete (state : StateDict) (ifname : Str) : StateDict :=
  ⟨lifDictDelete state.records ifname, lifDictKeys_delete_nodup state.distinct⟩

def lifStateUpsert (state : StateDict) (ifname : Str) (iface : LifInterface) : StateDict :=
  { records := lifDictAdd (lifStateDelete state ifname).records ifname
      ⟨iface.ifname, iface.refcount, iface.isExplicit⟩
    distinct := lifDictKeys_add_nodup (lifStateDelete state ifname).distinct
      (by simp [lifStateDelete, lifDictFind_delete state.distinct]) }

def lifStateRefIf (state : StateDict) (ifname : Str) (iface : LifInterface) :
    StateDict × LifInterface :=
  let iface := { iface with refcount := iface.refcount + 1 }
  (lifStateUpsert state ifname iface, iface)

def lifStateUnrefIf (state : StateDict) (ifname : Str) (iface : LifInterface) :
    StateDict × LifInterface :=
  if iface.refcount = 0 then (state, iface)
  else
    let iface := { iface with refcount := iface.refcount - 1 }
    if iface.refcount = 0 then (lifStateDelete state ifname, iface)
    else (lifStateUpsert state ifname iface, iface)

/-- The interface entry that the record of `ifname` maps to. -/
def lifStateLookup (state : StateDict) (ifCollection : Collection) (ifname : Str) : Option Str :=
  match lifDictFind state.records ifname with
  | none => none
  | some rec =>
    if (lifDictFind ifCollection.entries rec.mappedIf).isSome then some rec.mappedIf else none

def syncRecord (ifCollection : Collection) (rec : LifStateRecord) : Collection :=
  ifCollection.write rec.mappedIf
    (fun iface => { iface with refcount := rec.refcount, isExplicit := rec.isExplicit }) (fun _ => rfl)

def lifStateSync (state : StateDict) (ifCollection : Collection) : Collection :=
  state.records.foldl (fun ifCollection entry => syncRecord ifCollection entry.2) ifCollection

theorem find_delete (state : StateDict) (ifname other : Str) :
    lifDictFind (lifStateDelete state ifname).records other =
      if ifname = other then none else lifDictFind state.records other :=
  lifDictFind_delete state.distinct

theorem find_upsert (state : StateDict) (ifname other : Str) (iface : LifInterface) :
    lifDictFind (lifStateUpsert state ifname iface).records other =
      if ifname = other then some ⟨iface.ifname, iface.refcount, iface.isExplicit⟩
      else lifDictFind state.records other := by
  simp only [lifStateUpsert, lifDictFind_add, find_delete]
  split <;> simp

theorem mem_delete {state : StateDict} {ifname : Str} {entry : Str × LifStateRecord} :
    entry ∈ (lifStateDelete state ifname).records ↔ entry ∈ state.records ∧ entry.1 ≠ ifname :=
  mem_lifDictDelete state.distinct

theorem mem_upsert {state : StateDict} {ifname : Str} {iface : LifInterface} {entry : Str × LifStateRecord} :
    entry ∈ (lifStateUpsert state ifname iface).records ↔
      (entry ∈ state.records ∧ entry.1 ≠ ifname) ∨ entry = (ifname, ⟨iface.ifname, iface.refcount, iface.isExplicit⟩) := by
  simp only [lifStateUpsert, lifDictAdd, List.mem_append, List.mem_singleton, mem_delete]

theorem refIf_refcount (state : StateDict) (ifname : Str) (iface : LifInterface) :
    (lifStateRefIf state ifname iface).2 = { iface with refcount := iface.refcount + 1 } := rfl

theorem unrefIf_refcount (state : StateDict) (ifname : Str) (iface : LifInterface) :
    (lifStateUnrefIf state ifname iface).2 = { iface with refcount := iface.refcount - 1 } := by
  unfold lifStateUnrefIf
  split
  · rename_i zero
    cases iface
    simp only at zero ⊢
    rw [zero]
  · dsimp only
    split <;> rfl

/-- A record that is the only one of its interface is what the interface gets. -/
theorem iface_sync_records {records : LifDict LifStateRecord} {collection : Collection} {name : Str}
    (own : ∀ entry ∈ records, entry.2.mappedIf = entry.1) (distinct : (lifDictKeys records).Nodup) :
    (records.foldl (fun collection entry => syncRecord collection entry.2) collection).iface name =
      match lifDictFind records name with
      | some rec => { collection.iface name with refcount := rec.refcount, isExplicit := rec.isExplicit }
      | none => collection.iface name := by
  induction records generalizing collection with
  | nil => rfl
  | cons entry rest ih =>
    obtain ⟨key, rec⟩ := entry
    obtain ⟨fresh, distinct⟩ := List.nodup_cons.mp distinct
    have mapped : rec.mappedIf = key := own (key, rec) List.mem_cons_self
    rw [List.foldl_cons, ih (fun entry member => own entry (List.mem_cons_of_mem _ member)) distinct]
    simp only [syncRecord, iface_write, mapped, lifDictFind]
    by_cases same : key = name
    · subst same
      have absent : lifDictFind rest key = none := lifDictFind_none.mpr fresh
      simp [absent]
    · simp [same]

theorem iface_sync {state : StateDict} {collection : Collection} {name : Str}
    (own : ∀ entry ∈ state.records, entry.2.mappedIf = entry.1) :
    (lifStateSync state collection).iface name =
      match lifDictFind state.records name with
      | some rec => { collection.iface name with refcount := rec.refcount, isExplicit := rec.isExplicit }
      | none => collection.iface name :=
  iface_sync_records own state.distinct

end Ifupdown
