import Mathlib.Logic.Function.Basic
import Ifupdown.Parser.Handling
import Ifupdown.Parser.Walks

/-! The addresses and the netmasks of an interface, and what the edits do to them. -/
namespace Ifupdown

section
variable (inetPton : InetPton)

/-- The address with the prefix that it has itself, or else that of a netmask, or else the default. -/
def prefixed (netmask : Option Str) (addr : LifAddress) : LifAddress :=
  if addr.netmask = 0 then
    { addr with netmask := match netmask with
      | some netmask => countSetBits inetPton netmask
      | none => match addr.domain with
        | .inet6 => 64
        | .inet => 24 }
  else addr

variable {inetPton} {iface : LifInterface} {netmask : Option Str} {addr : LifAddress}

theorem prefixed_set (set : addr.netmask ≠ 0) : prefixed inetPton netmask addr = addr := if_neg set

theorem prefixed_netmask (valid : ∀ text ∈ netmask, 0 < countSetBits inetPton text) :
    (prefixed inetPton netmask addr).netmask ≠ 0 := by
  unfold prefixed
  split
  · cases netmask with
    | some text =>
      have positive := valid text rfl
      dsimp only
      omega
    | none => cases addr.domain <;> simp
  · assumption

theorem determine_prefixed : (if addr.netmask = 0 then { addr with netmask := determineInterfaceNetmask inetPton iface addr }
    else addr) = prefixed inetPton iface.netmasks.head? addr := by
  unfold prefixed determineInterfaceNetmask LifInterface.netmasks
  rw [lifDictFind_head, List.head?_map]
  cases (dataAt iface.vars (str "netmask")).head? <;> rfl

theorem format_prefixed (inetNtop : InetNtop) (buflen : Nat) : lifAddressFormatCidr inetPton inetNtop iface addr buflen =
    lifAddressUnparse inetNtop (prefixed inetPton iface.netmasks.head? addr) buflen true := by
  rw [lifAddressFormatCidr, determine_prefixed]

theorem finalize_addresses : (lifInterfaceFinalize inetPton iface).addresses =
    iface.addresses.map (prefixed inetPton iface.netmasks.head?) := by
  unfold LifInterface.addresses
  rw [finalize_data, if_pos rfl]
  induction dataAt iface.vars (str "address") with
  | nil => rfl
  | cons data rest ih =>
    cases data with
    | text value => exact ih
    | address addr =>
      have settled : finalizeAddress inetPton iface (.address addr) =
          .address (prefixed inetPton iface.netmasks.head? addr) := by
        rw [← determine_prefixed, finalizeAddress]
        split <;> rfl
      rw [List.map_cons, settled]
      exact congrArg (List.cons _) ih

theorem finalize_netmasks : (lifInterfaceFinalize inetPton iface).netmasks = iface.netmasks.tail := by
  unfold LifInterface.netmasks
  rw [finalize_data, if_neg (by decide), if_pos rfl, List.map_tail]

end

/-- An edit that makes no address, copies none, and leaves the netmasks. -/
def Edit.Light : Edit → Prop
  | .find _ => True
  | .change _ (.addressAdd _) => False
  | .change _ .finalize => False
  | .change _ (.triple key _) => key ≠ str "address" ∧ key ≠ str "netmask"
  | .change _ (.dictAdd key _) => key ≠ str "address" ∧ key ≠ str "netmask"
  | .change _ (.dictDelete key) => key ≠ str "address" ∧ key ≠ str "netmask"
  | .change _ _ => True
  | .inherit _ _ => False

section
variable {host : Host} {iface iface' : LifInterface} {collection collection' : Collection}

def SameBook (iface iface' : LifInterface) : Prop := iface'.addresses = iface.addresses ∧ iface'.netmasks = iface.netmasks

theorem sameBook_of_data (same : ∀ key, key = str "address" ∨ key = str "netmask" → dataAt iface'.vars key = dataAt iface.vars key) :
    SameBook iface iface' := by
  unfold SameBook LifInterface.addresses LifInterface.netmasks
  rw [same _ (Or.inl rfl), same _ (Or.inr rfl)]
  exact ⟨rfl, rfl⟩

theorem light_data {ifname key : Str} {step : Change} (light : (Edit.change ifname step).Light)
    (which : key = str "address" ∨ key = str "netmask") : dataAt (step.apply host iface).vars key = dataAt iface.vars key := by
  have used : key ≠ str "use" ∧ key ≠ str "dhcp-hostname" := by
    rcases which with rfl | rfl <;> decide
  have other {token : Str} (others : token ≠ str "address" ∧ token ≠ str "netmask") : token ≠ key := by
    rcases which with rfl | rfl
    · exact others.1
    · exact others.2
  cases step with
  | useExecutor executor =>
    rw [Change.apply, useExecutor_data _ _ used.1, if_neg fun hostname => used.2 hostname.1, List.append_nil]
  | addressAdd address => exact light.elim
  | finalize => exact light.elim
  | triple token value => exact dataAt_add.trans (by rw [if_neg (other light), List.append_nil])
  | dictAdd token value => exact dataAt_add.trans (by rw [if_neg (other light), List.append_nil])
  | dictDelete token => exact dataAt_delete.trans (if_neg (other light))
  | markAuto | markTemplate | noDefaults | configError => rfl

theorem change_light {ifname : Str} {step : Change} (light : (Edit.change ifname step).Light) :
    SameBook iface (step.apply host iface) := sameBook_of_data fun _ which => light_data light which

theorem edit_light {edit : Edit} (light : edit.Light) (h : edit.apply host collection = some collection') (x : Str) :
    SameBook (collection.iface x) (collection'.iface x) := by
  cases edit with
  | find ifname =>
    cases h
    rw [iface_collectionFind]
    exact ⟨rfl, rfl⟩
  | change ifname step =>
    cases h
    rw [iface_write]
    split
    · exact change_light light
    · exact ⟨rfl, rfl⟩
  | inherit ifname parent => exact light.elim

section
variable {config : LifConfig} {ifname parent x : Str}
  (h : lifInterfaceCollectionInherit config collection ifname parent = some collection')
include h

theorem inherit_addresses : (collection'.iface x).addresses =
    if ifname = x then (collection.iface x).addresses ++ (collection.iface parent).addresses
    else (collection.iface x).addresses := by
  unfold LifInterface.addresses
  split
  · rename_i own
    subst own
    rw [inherit_after h (by decide), if_pos rfl, List.filterMap_append]
  · rename_i other
    rw [inherit_others h other]

theorem inherit_netmasks (known : parent = ifname ∨ (collection.iface parent).netmasks = []) :
    (collection'.iface x).netmasks = (collection.iface x).netmasks := by
  unfold LifInterface.netmasks at known ⊢
  by_cases own : ifname = x
  · subst own
    rw [inherit_after h (by decide), if_neg (by decide)]
    split
    · rfl
    · rename_i other
      rw [List.map_eq_nil_iff.mp (known.resolve_left (Ne.symm other)), List.foldl_nil]
  · rw [inherit_others h own]

end

end

/-- An edit of a line that neither adds an address or a netmask nor finalizes. -/
def Edit.Enters (ifname : Str) (edit : Edit) : Prop := edit.Light ∨ ∃ parent, edit = .inherit ifname parent

section
variable {host : Host} {start state state' : ParseState} {ifname token target : Str}

theorem makes_light {parserkw : Keyword} {edit : Edit}
    (light : parserkw = .auto ∨ parserkw = .hostname ∨ parserkw = .gateway ∨ parserkw = .use)
    (makes : (LineKind.keyword parserkw).Makes edit) : edit.Light := by
  rcases light with rfl | rfl | rfl | rfl <;> unfold LineKind.Makes at makes <;> split at makes
  all_goals first
    | trivial
    | exact makes.elim
    | exact makes ▸ ⟨by decide, by decide⟩

theorem inheritTarget_grown (grown : Grown host (Edit.Enters ifname) start state) (current : state.curIface = some ifname)
    (h : inheritTarget host state token target = some state') :
    Grown host (Edit.Enters ifname) start state' ∧ state'.curIface = some ifname := by
  unfold inheritTarget at h
  rw [current] at h
  dsimp only at h
  have refused {state : ParseState} (grown : Grown host (Edit.Enters ifname) start state) (err : Str) :
      Grown host (Edit.Enters ifname) start ((reportError state err).change host ifname .configError) := by
    have reported : Grown host (Edit.Enters ifname) start (reportError state err) := grown
    exact reported.change ifname .configError (Or.inl trivial)
  split at h
  · cases h
    exact ⟨refused grown _, current⟩
  have found := grown.find target (Or.inl trivial)
  split at h
  · cases h
    exact ⟨refused found _, current⟩
  · obtain ⟨collection, step, rfl⟩ := Option.map_eq_some_iff.mp h
    exact ⟨found.inherit h (Or.inr ⟨target, rfl⟩), current⟩

theorem takeHints_grown {hints : List Str} (grown : Grown host (Edit.Enters ifname) start state)
    (current : state.curIface = some ifname) (h : takeHints host ifname hints state = some state') :
    Grown host (Edit.Enters ifname) start state' ∧ state'.curIface = some ifname := by
  induction hints generalizing state with
  | nil =>
    cases h
    exact ⟨grown, current⟩
  | cons hint rest ih =>
    unfold takeHints at h
    split at h
    · cases h
      exact ⟨grown, current⟩
    split at h
    · exact ih (grown.change ifname (.useExecutor hint) (Or.inl trivial)) current h
    split at h
    · obtain ⟨next, inherited, later⟩ := Option.bind_eq_some_iff.mp h
      obtain ⟨grown', current'⟩ := inheritTarget_grown grown current inherited
      exact ih grown' current' later
    split at h
    · exact ih (grown.change ifname .noDefaults (Or.inl trivial)) current h
    · exact ih grown current h

/-- An `iface` line finalizes the current interface and then enters the stanza. -/
theorem enterIface_grown {hints : List Str} (named : ifname ≠ []) (h : enterIface host token ifname hints state = some state') :
    Grown host (Edit.Enters ifname) (state.finalize host) state' ∧ state'.curIface = some ifname := by
  unfold enterIface at h
  rw [if_neg named] at h
  obtain ⟨hinted, takes, left⟩ := Option.bind_eq_some_iff.mp h
  have found : Grown host (Edit.Enters ifname) (state.finalize host)
      { (state.finalize host).find ifname with curIface := some ifname } :=
    (Grown.same rfl rfl).find ifname (Or.inl trivial)
  have hinted_ : Grown host (Edit.Enters ifname) (state.finalize host) hinted ∧ hinted.curIface = some ifname := by
    split at takes
    · exact takeHints_grown (found.change ifname .markTemplate (Or.inl trivial)) rfl takes
    · exact takeHints_grown found rfl takes
  obtain ⟨grown, current⟩ := hinted_
  dsimp only at left
  split at left
  · obtain ⟨collection, step, same⟩ := Option.map_eq_some_iff.mp left
    refine ⟨(grown.find (str "defaults") (Or.inl trivial)).inherit left (Or.inr ⟨_, rfl⟩), ?_⟩
    rw [← same]
    exact current
  · cases left
    exact ⟨grown, current⟩

end

end Ifupdown
