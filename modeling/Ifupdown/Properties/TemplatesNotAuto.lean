import Ifupdown.Base.History
import Ifupdown.Parser.Inheritance

/-! The interfaces that are both a template and brought up automatically. -/
namespace Ifupdown

abbrev LifInterface.autoTemplate (iface : LifInterface) : Prop := iface.isTemplate = true ∧ iface.isAuto = true

/-- The edit makes a template of `x` by inheriting from it, while `x` is marked auto. -/
def Converts (host : Host) (x : Str) (collection : Collection) : Edit → Prop
  | .inherit _ parent =>
    parent = x ∧ host.config.implicitTemplateConversion = true ∧ (collection.iface x).isAuto = true
  | _ => False

/-- The edit is the one by which a `template` line takes the mark back. -/
def Unmarks (x : Str) (_ : Collection) (edit : Edit) : Prop := edit = .change x .markTemplate

/-- An interface marked auto has been converted, and no later `template` line names it. -/
abbrev LeftAuto (host : Host) (x : Str) : Collection → List Edit → Prop :=
  LeftFaulty (Edit.apply host) (Converts host x) (Unmarks x)

section
variable {host : Host} {collection collection' : Collection} {iface : LifInterface}

theorem change_autoTemplate (step : Change) :
    (step.apply host iface).autoTemplate ↔ iface.autoTemplate ∧ step ≠ .markTemplate := by
  cases step with
  | useExecutor executor =>
    obtain ⟨_, _, _, same⟩ := lifInterfaceUseExecutor_frame host.dhcpHostname iface executor
    rw [Change.apply, same]
    simp [LifInterface.autoTemplate]
  | addressAdd address =>
    obtain ⟨_, _, _, same⟩ := lifInterfaceAddressAdd_frame host.inetPton iface address
    rw [Change.apply, same]
    simp [LifInterface.autoTemplate]
  | markAuto =>
    simp only [Change.apply, LifInterface.autoTemplate]
    cases iface.isTemplate <;> simp
  | markTemplate => simp [Change.apply, LifInterface.autoTemplate]
  | triple | dictAdd | dictDelete | noDefaults | configError | finalize =>
    simp [Change.apply, LifInterface.autoTemplate, lifInterfaceFinalize]

theorem edit_autoTemplate {edit : Edit} (h : edit.apply host collection = some collection') (x : Str) :
    (collection'.iface x).autoTemplate ↔
      (collection.iface x).autoTemplate ∧ ¬ Unmarks x collection edit ∨ Converts host x collection edit := by
  cases edit with
  | find ifname =>
    cases h
    rw [iface_collectionFind]
    simp [Unmarks, Converts]
  | change ifname step =>
    cases h
    rw [iface_write]
    split
    · rename_i same
      subst same
      rw [change_autoTemplate]
      simp [Unmarks, Converts]
    · rename_i other
      simp [Unmarks, Converts, other]
  | inherit ifname parent =>
    obtain ⟨vars, -, after⟩ := inherit_iface h
    have flags : (collection'.iface x).isTemplate =
        ((collection.iface x).isTemplate || (decide (parent = x) && host.config.implicitTemplateConversion)) ∧
        (collection'.iface x).isAuto = (collection.iface x).isAuto := by
      rw [after]
      by_cases converted : parent = x
      · simp only [converted, if_true, decide_true, Bool.true_and]
        split <;> exact ⟨rfl, rfl⟩
      · simp only [converted, if_false, decide_false, Bool.false_and, Bool.or_false]
        split <;> exact ⟨rfl, rfl⟩
    simp only [LifInterface.autoTemplate, flags.1, flags.2, Unmarks, Converts, Bool.or_eq_true, Bool.and_eq_true,
      decide_eq_true_eq, reduceCtorEq, not_false_eq_true]
    tauto

theorem init_autoTemplate (x : Str) : ¬ (lifInterfaceCollectionInit.iface x).autoTemplate := by
  have fresh : (lifInterfaceInit x).isTemplate = false := by
    unfold lifInterfaceInit
    dsimp only
    split <;> rfl
  rw [lifInterfaceCollectionInit, iface_write]
  split
  · rename_i lo
    subst lo
    decide
  · rintro ⟨template, -⟩
    have plain : (lifInterfaceInit x).isTemplate = true := template
    rw [fresh] at plain
    cases plain

end

/-- No template is auto just if every interface that was auto when another one inherited from it, which
made it a template, is named by a later `template` line. -/
theorem templates_not_auto (host : Host) (fuel : Nat) (filename : Str) (ok : Bool) (state : ParseState)
    (parsed : lifInterfaceFileParse host fuel {} filename = some (ok, state)) :
    (∀ entry ∈ state.collection.entries, ¬ (entry.2.isTemplate = true ∧ entry.2.isAuto = true)) ↔
      ∀ entry ∈ state.collection.entries, ¬ LeftAuto host entry.1 lifInterfaceCollectionInit state.edits := by
  obtain ⟨reached, -⟩ := lifInterfaceFileParse_traced traced_start parsed
  refine forall₂_congr fun entry member => not_congr ?_
  have left := @run_faulty _ _ _ (fun collection : Collection => (collection.iface entry.1).autoTemplate) _ _ _ _ _
    (fun edit _ collection next step => edit_autoTemplate step entry.1) reached
  rw [iface_of_mem member] at left
  exact left.trans (or_iff_right fun first => init_autoTemplate entry.1 first.1)

instance (host : Host) (x : Str) (collection : Collection) : (edit : Edit) → Decidable (Converts host x collection edit)
  | .find _ => inferInstanceAs (Decidable False)
  | .change _ _ => inferInstanceAs (Decidable False)
  | .inherit _ _ => inferInstanceAs (Decidable (_ ∧ _ ∧ _))

instance (x : Str) (collection : Collection) (edit : Edit) : Decidable (Unmarks x collection edit) :=
  inferInstanceAs (Decidable (edit = _))

/-- An interface that is turned into a template after it has been marked. -/
def markedTemplate : Host := oneFile "auto eth0
iface eth1
inherit eth0
template eth0
"

theorem templates_not_auto_markedTemplate :
    lifInterfaceFileParse markedTemplate 2 {} (str "interfaces") = some (true, markedTemplate.read) ∧
      ∀ entry ∈ markedTemplate.read.collection.entries, ¬ (entry.2.isTemplate = true ∧ entry.2.isAuto = true) := by
  have parsed : lifInterfaceFileParse markedTemplate 2 {} (str "interfaces") = some (true, markedTemplate.read) :=
    read_parsed (by decide +kernel)
  exact ⟨parsed, (templates_not_auto markedTemplate 2 (str "interfaces") true markedTemplate.read parsed).mpr
    (by decide +kernel)⟩

def parentPort : Host := oneFile "auto eth0
iface eth1
inherit eth0
"

theorem template_auto :
    ¬ ∀ (host : Host) (fuel : Nat) (filename : Str) (ok : Bool) (state : ParseState),
      lifInterfaceFileParse host fuel {} filename = some (ok, state) →
      ∀ entry ∈ state.collection.entries, ¬ (entry.2.isTemplate = true ∧ entry.2.isAuto = true) := by
  intro claim
  have never := claim parentPort 2 (str "interfaces") true parentPort.read (read_parsed (by decide +kernel))
  have both : ∃ entry ∈ parentPort.read.collection.entries, entry.2.isTemplate = true ∧ entry.2.isAuto = true := by
    decide +kernel
  obtain ⟨entry, member, flags⟩ := both
  exact never entry member flags

end Ifupdown
