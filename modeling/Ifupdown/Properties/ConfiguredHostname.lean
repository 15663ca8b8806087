import Ifupdown.Base.History
import Ifupdown.Parser.Walks

/-! The hostname of an interface and the lines that configure it. -/
namespace Ifupdown

def LifInterface.hostnames (iface : LifInterface) : List VarData := dataAt iface.vars (str "dhcp-hostname")

def Visit.SetsHostname (x : Str) (visit : Visit) : Prop :=
  visit.state.kind = .keyword .hostname ∧ visit.state.curIface = some x

instance (x : Str) (visit : Visit) : Decidable (visit.SetsHostname x) := inferInstanceAs (Decidable (_ ∧ _))

def Change.learned (host : Host) : Change → List VarData
  | .useExecutor executor => if executor = str "dhcp" then host.dhcpHostname.toList.map .text else []
  | _ => []

/-- The edit adds a hostname to those of `x`: that of the machine, or one of a parent that `x` has not. -/
def AddsHostname (host : Host) (x : Str) (collection : Collection) : Edit → Prop
  | .change ifname step => ifname = x ∧ step.learned host ≠ []
  | .inherit ifname parent =>
    ifname = x ∧ ∃ hostname ∈ (collection.iface parent).hostnames, hostname ∉ (collection.iface x).hostnames
  | _ => False

/-- The edit is none by which a line sets the hostname of `x`. -/
def Edit.LeavesHostname (x : Str) (edit : Edit) : Prop :=
  edit.Made ∧ (∀ value, edit ≠ .change x (.dictAdd (str "dhcp-hostname") value)) ∧
    edit ≠ .change x (.dictDelete (str "dhcp-hostname"))

section
variable {host : Host} {collection collection' : Collection} {state state' : ParseState} {iface : LifInterface} {x : Str}

theorem change_hostnames {step : Change} (leaves : (Edit.change x step).LeavesHostname x) :
    (step.apply host iface).hostnames = iface.hostnames ++ step.learned host := by
  obtain ⟨made, keeps, stays⟩ := leaves
  have none : iface.hostnames = iface.hostnames ++ [] := (List.append_nil _).symm
  cases step with
  | useExecutor executor =>
    rw [LifInterface.hostnames, Change.apply, useExecutor_data _ _ (by decide)]
    simp [Change.learned, LifInterface.hostnames]
  | addressAdd address =>
    rw [LifInterface.hostnames, Change.apply, addressAdd_data _ _ (by decide), if_neg (by decide)]
    rfl
  | triple token value =>
    have other : token ≠ str "dhcp-hostname" := by
      rintro rfl
      exact made (by decide)
    rw [LifInterface.hostnames, Change.apply, dataAt_add, if_neg other]
    rfl
  | dictAdd key value =>
    have other : key ≠ str "dhcp-hostname" := by
      rintro rfl
      exact keeps value rfl
    rw [LifInterface.hostnames, Change.apply, dataAt_add, if_neg other]
    rfl
  | dictDelete key =>
    obtain rfl : key = str "dhcp-hostname" := made
    exact absurd rfl stays
  | finalize =>
    rw [LifInterface.hostnames, Change.apply, finalize_data, if_neg (by decide), if_neg (by decide)]
    exact none
  | markAuto | markTemplate | noDefaults | configError => exact none

theorem edit_hostnames {edit : Edit} (leaves : edit.LeavesHostname x) (h : edit.apply host collection = some collection') :
    ∃ added, (collection'.iface x).hostnames = (collection.iface x).hostnames ++ added ∧
      (added = [] ↔ ¬ AddsHostname host x collection edit) := by
  have unchanged (same : collection'.iface x = collection.iface x) (silent : ¬ AddsHostname host x collection edit) :
      ∃ added, (collection'.iface x).hostnames = (collection.iface x).hostnames ++ added ∧
        (added = [] ↔ ¬ AddsHostname host x collection edit) :=
    ⟨[], by rw [same, List.append_nil], by simp [silent]⟩
  cases edit with
  | find ifname =>
    cases h
    exact unchanged (iface_collectionFind ..) id
  | change ifname step =>
    cases h
    by_cases own : ifname = x
    · subst own
      refine ⟨step.learned host, by rw [iface_write, if_pos rfl, change_hostnames leaves], ?_⟩
      simp [AddsHostname]
    · exact unchanged (by rw [iface_write, if_neg own]) fun adds => own adds.1
  | inherit ifname parent =>
    by_cases own : ifname = x
    · subst own
      obtain ⟨added, same, none⟩ := inherit_data h (by decide : str "dhcp-hostname" ≠ str "address") (by decide)
      refine ⟨added, same, ?_⟩
      rw [none]
      simp [AddsHostname, LifInterface.hostnames]
    · refine ⟨[], ?_, by simp [AddsHostname, own]⟩
      rw [LifInterface.hostnames, inherit_others h own, List.append_nil]
      rfl

theorem edits_hostnames {edits : List Edit} (leaves : ∀ edit ∈ edits, edit.LeavesHostname x)
    (h : applyEdits host collection edits = some collection') :
    ∃ added, (collection'.iface x).hostnames = (collection.iface x).hostnames ++ added ∧
      (added = [] ↔ ¬ Happens (Edit.apply host) (AddsHostname host x) collection edits) := by
  induction edits generalizing collection with
  | nil =>
    cases h
    exact ⟨[], (List.append_nil _).symm, by simp [Happens]⟩
  | cons edit rest ih =>
    obtain ⟨first, later⟩ := List.forall_mem_cons.mp leaves
    rw [applyEdits_cons] at h
    obtain ⟨next, here, h⟩ := Option.bind_eq_some_iff.mp h
    obtain ⟨added, same, none⟩ := edit_hostnames first here
    obtain ⟨more, same', none'⟩ := ih later h
    refine ⟨added ++ more, by rw [same', same, List.append_assoc], ?_⟩
    rw [List.append_eq_nil_iff, none, none']
    simp [Happens, here]

/-- A line that sets the hostname puts its argument in place of the first one. -/
theorem setsHostname_edits {ok : Bool} (kind : state.kind = .keyword .hostname) (current : state.curIface = some x)
    (h : handleLine host skip state = some (ok, state')) :
    state'.edits = state.edits ++ [.change x (.dictDelete (str "dhcp-hostname")),
      .change x (.dictAdd (str "dhcp-hostname") state.argument)] ∧
      (state'.collection.iface x).hostnames = (state.collection.iface x).hostnames.tail ++ [.text state.argument] := by
  rw [handleLine_keyword kind] at h
  cases h
  unfold handleHostname
  have same : ((state.nextToken 0).2.2.nextToken (state.nextToken 0).2.1).2.2.curIface = some x := current
  dsimp only
  rw [same]
  refine ⟨List.append_assoc .., ?_⟩
  dsimp only [ParseState.change]
  rw [iface_write, if_pos rfl, iface_write, if_pos rfl]
  simp only [Change.apply, LifInterface.hostnames, dataAt_add, dataAt_delete, if_true]
  rfl

theorem handleLine_hostnames {ok : Bool} (other : ¬ (state.kind = .keyword .hostname ∧ state.curIface = some x))
    (h : handleLine host skip state = some (ok, state')) : Grown host (Edit.LeavesHostname x) state state' := by
  obtain ⟨made, edits, reached, sort⟩ := handleLine_grown h
  refine ⟨made, edits, reached, fun edit member => ⟨(sort edit member).made, ?_⟩⟩
  by_cases kind : state.kind = .keyword .hostname
  · cases current : state.curIface with
    | none =>
      rw [handleLine_keyword kind] at h
      cases h
      have silent : ((state.nextToken 0).2.2.nextToken (state.nextToken 0).2.1).2.2.curIface = none := current
      unfold handleHostname at edits
      dsimp only at edits
      rw [silent] at edits
      have none : made = [] := (List.self_eq_append_right.mp edits)
      rw [none] at member
      cases member
    | some y =>
      have elsewhere : y ≠ x := fun same => other ⟨kind, by rw [current, same]⟩
      obtain ⟨same, -⟩ := setsHostname_edits kind current h
      rw [edits, List.append_cancel_left_eq] at same
      rw [same] at member
      simp only [List.mem_cons, List.not_mem_nil, or_false] at member
      rcases member with rfl | rfl
      · simp [elsewhere]
      · simp [elsewhere]
  · have makes := sort edit member
    constructor
    · rintro value rfl
      revert makes kind
      cases state.kind with
      | keyword parserkw =>
        cases parserkw with
        | gateway =>
          simp only [LineKind.Makes]
          decide
        | _ => simp [LineKind.Makes]
      | _ => simp [LineKind.Makes]
    · rintro rfl
      revert makes kind
      cases state.kind with
      | keyword parserkw => cases parserkw <;> simp [LineKind.Makes]
      | _ => simp [LineKind.Makes]

theorem Run.hostnames {lines : List Visit} (run : Run host state lines state') (others : ∀ visit ∈ lines, ¬ visit.SetsHostname x) :
    Grown host (Edit.LeavesHostname x) state state' := by
  have settled {state state' : ParseState} (quiet : Quiet host state state') : Grown host (Edit.LeavesHostname x) state state' := by
    obtain ⟨made, edits, reached, sort⟩ := quiet.grown
    refine ⟨made, edits, reached, fun edit member => ?_⟩
    obtain ⟨ifname, rfl⟩ := sort edit member
    exact ⟨trivial, by simp, by simp⟩
  induction run with
  | done quiet => exact settled quiet
  | line quiet handled _ ih =>
    obtain ⟨first, later⟩ := List.forall_mem_cons.mp others
    exact ((settled quiet).trans (handleLine_hostnames first handled)).trans (ih later)

end

/-- The last hostname line wins just if it found at most one hostname, and none has been added behind it. -/
theorem hostname_wins (host : Host) (fuel : Nat) (filename : Str) (ok : Bool) (state : ParseState)
    (parsed : lifInterfaceFileParse host fuel {} filename = some (ok, state)) (x : Str) (visit : Visit)
    (last : (visits host fuel {} filename).reverse.find? (fun visit => visit.SetsHostname x) = some visit) :
    (state.collection.iface x).hostnames = [.text visit.state.argument] ↔
      (visit.state.collection.iface x).hostnames.length ≤ 1 ∧
        ¬ Happens (Edit.apply host) (AddsHostname host x) visit.state.collection
          (state.edits.drop visit.state.edits.length) := by
  obtain ⟨sets, after, before, lines, others⟩ := List.find?_eq_some_iff_append.mp last
  obtain ⟨kind, current⟩ := of_decide_eq_true sets
  have split : visits host fuel {} filename = before.reverse ++ visit :: after.reverse := by
    rw [← List.reverse_reverse (visits host fuel {} filename), lines]
    simp
  have run := parse_run parsed
  rw [split] at run
  obtain ⟨fine, own, -, handled, later⟩ := run.split
  obtain ⟨edits, replaced⟩ := setsHostname_edits kind current handled
  obtain ⟨added, grown, reached, leaves⟩ := later.hostnames (x := x) fun other member => by
    simpa using others other (List.mem_reverse.mp member)
  obtain ⟨more, same, none⟩ := edits_hostnames leaves reached
  obtain ⟨made, extended, here, -⟩ := handleLine_grown handled
  have pair := List.append_cancel_left (edits.symm.trans extended)
  rw [← pair] at here
  have passed : Happens (Edit.apply host) (AddsHostname host x) visit.state.collection (state.edits.drop visit.state.edits.length) ↔
      Happens (Edit.apply host) (AddsHostname host x) own.collection added := by
    rw [grown, edits, List.append_assoc, List.drop_left, happens_append here]
    simp [Happens, AddsHostname, Change.learned]
  rw [same, replaced, passed, ← none]
  rcases (visit.state.collection.iface x).hostnames with _ | ⟨first, _ | ⟨second, rest⟩⟩ <;> simp

instance (host : Host) (x : Str) (collection : Collection) : (edit : Edit) → Decidable (AddsHostname host x collection edit)
  | .find _ => inferInstanceAs (Decidable False)
  | .change _ _ => inferInstanceAs (Decidable (_ ∧ _))
  | .inherit _ _ => inferInstanceAs (Decidable (_ ∧ _))

/-- An interface that replaces the hostname which the machine gave it. -/
def replacedHostname : Host :=
  { oneFile "iface eth0 inet dhcp\nhostname laptop\n" with nodename := some (str "host") }

theorem hostname_wins_replacedHostname :
    lifInterfaceFileParse replacedHostname 2 {} (str "interfaces") = some (true, replacedHostname.read) ∧
      (replacedHostname.read.collection.iface (str "eth0")).hostnames = [.text (str "laptop")] := by
  have parsed : lifInterfaceFileParse replacedHostname 2 {} (str "interfaces") = some (true, replacedHostname.read) :=
    read_parsed (by decide +kernel)
  have line : ∃ visit ∈ (visits replacedHostname 2 {} (str "interfaces")).reverse.find?
        (fun visit => visit.SetsHostname (str "eth0")), visit.state.argument = str "laptop" ∧
      (visit.state.collection.iface (str "eth0")).hostnames.length ≤ 1 ∧
        ¬ Happens (Edit.apply replacedHostname) (AddsHostname replacedHostname (str "eth0")) visit.state.collection
          (replacedHostname.read.edits.drop visit.state.edits.length) := by decide +kernel
  obtain ⟨visit, last, argument, kept⟩ := line
  rw [← argument]
  exact ⟨parsed, (hostname_wins replacedHostname 2 (str "interfaces") true replacedHostname.read parsed (str "eth0")
    visit last).mpr kept⟩

/-- An interface that selects its executor behind the hostname. -/
def lateExecutor : Host :=
  { oneFile "iface eth0\nhostname laptop\nuse dhcp\n" with nodename := some (str "host") }

theorem hostname_joined :
    ¬ ∀ (host : Host) (fuel : Nat) (filename : Str) (ok : Bool) (state : ParseState),
      host.config.useHostnameForDhcp = true → lifInterfaceFileParse host fuel {} filename = some (ok, state) →
      ∀ (x : Str) (visit : Visit),
        (visits host fuel {} filename).reverse.find? (fun visit => visit.SetsHostname x) = some visit →
        (state.collection.iface x).hostnames = [.text visit.state.argument] := by
  intro claim
  have parsed : lifInterfaceFileParse lateExecutor 2 {} (str "interfaces") = some (true, lateExecutor.read) :=
    read_parsed (by decide +kernel)
  have line : ∃ visit ∈ (visits lateExecutor 2 {} (str "interfaces")).reverse.find?
        (fun visit => visit.SetsHostname (str "eth0")),
      (lateExecutor.read.collection.iface (str "eth0")).hostnames ≠ [.text visit.state.argument] := by decide +kernel
  obtain ⟨visit, last, joined⟩ := line
  exact joined (claim lateExecutor 2 (str "interfaces") true lateExecutor.read rfl parsed (str "eth0") visit last)

end Ifupdown
