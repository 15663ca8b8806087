import Ifupdown.Parser.Addresses
import Ifupdown.Parser.Lookups

/-! Which prefix the addresses get that carry none. -/
namespace Ifupdown

/-- What a line is to the stanzas of a file. An `iface` or `auto` line that fails for lack of a name is none to them. -/
inductive StanzaLine where
  | iface | auto | address | netmask | source | other
  deriving DecidableEq

def ParseState.ifaceName (state : ParseState) : Str :=
  (ifaceTokens (state.nextToken 0).1 (state.calls.map Prod.fst)).1

def ParseState.value (state : ParseState) : Str :=
  let (_, bufp, read) := state.nextToken 0
  strAt read.linebuf (bufp + ((read.linebuf.drop bufp).takeWhile isSpace).length)

def ParseState.sort (state : ParseState) : StanzaLine :=
  match state.kind with
  | .keyword .iface => if state.ifaceName = [] then .other else .iface
  | .keyword .auto => if state.argument = [] ∧ state.curIface = none then .other else .auto
  | .keyword .address => .address
  | .keyword .source => .source
  | .keyword .sourceDirectory => .source
  | .generic => if maybeRemapToken (state.nextToken 0).1 = str "netmask" then .netmask else .other
  | _ => .other

def stanzaNetmask : List Visit → Option Str
  | [] => none
  | visit :: rest =>
    match visit.state.sort with
    | .iface => none
    | .auto => none
    | .netmask => some visit.state.value
    | _ => stanzaNetmask rest

def Visit.edits (host : Host) (visit : Visit) : List Edit :=
  match handleLine host skip visit.state with
  | some (_, own) => own.edits.drop visit.state.edits.length
  | none => []

/-- An address is declared with the netmask of its stanza, and inherited with it. -/
def declareEdit (host : Host) (netmask : Option Str) (addresses : Str → List LifAddress) : Edit → Str → List LifAddress
  | .change ifname (.addressAdd address) =>
    Function.update addresses ifname (addresses ifname ++
      (lifAddressParse host.inetPton address).toList.map (prefixed host.inetPton netmask))
  | .inherit ifname parent => Function.update addresses ifname (addresses ifname ++ addresses parent)
  | _ => addresses

/-- The addresses that these lines declare, each with the netmask of the stanza that it stands in. -/
def declared (host : Host) : Option Str → (Str → List LifAddress) → List Visit → Str → List LifAddress
  | _, addresses, [] => addresses
  | netmask, addresses, visit :: rest =>
    let netmask := if visit.state.sort = .iface then stanzaNetmask rest else netmask
    declared host netmask ((visit.edits host).foldl (declareEdit host netmask) addresses) rest

inductive Place where
  | between
  | stanza (masked : Bool)
  deriving DecidableEq

/-- A file of `iface` stanzas with `auto` lines between them: no files are included, addresses and netmasks stand in
stanzas, and each stanza has at most one netmask, which is valid. -/
def Stanzas (host : Host) : Place → List Visit → Prop
  | _, [] => True
  | place, visit :: rest =>
    match visit.state.sort with
    | .iface => Stanzas host (.stanza false) rest
    | .auto => Stanzas host .between rest
    | .address => place ≠ .between ∧ Stanzas host place rest
    | .netmask => place = .stanza false ∧ 0 < countSetBits host.inetPton visit.state.value ∧ Stanzas host (.stanza true) rest
    | .source => False
    | .other => Stanzas host place rest

/-- The interface waits for no netmask, and keeps none for addresses to come. -/
def Settled (iface : LifInterface) : Prop := iface.netmasks = [] ∧ ∀ addr ∈ iface.addresses, addr.netmask ≠ 0

def Visit.sources (host : Host) (visit : Visit) : List Str :=
  (if visit.state.sort = .iface then [visit.state.ifaceName] else []) ++ (visit.edits host).filterMap fun edit =>
    match edit with
    | .inherit _ parent => some parent
    | _ => none

/-- The line goes on with, and inherits from, the current interface and settled ones alone. -/
def Visit.Clean (host : Host) (visit : Visit) : Prop :=
  ∀ name ∈ visit.sources host, some name = visit.state.curIface ∨ Settled (visit.state.collection.iface name)

/-- Each address has, or waits for, the prefix that is declared for it. In the stanza that is being read the netmask
may be still to come. -/
structure Paired (inetPton : InetPton) (collection : Collection) (stanza netmask : Option Str)
    (declared : Str → List LifAddress) : Prop where
  addresses : ∀ x, (collection.iface x).addresses.map
    (prefixed inetPton (if stanza = some x then netmask else (collection.iface x).netmasks.head?)) = declared x
  single : ∀ x, (collection.iface x).netmasks.length ≤ 1
  valid : ∀ x, ∀ text ∈ (collection.iface x).netmasks, 0 < countSetBits inetPton text

section
variable {host : Host} {inetPton : InetPton} {collection collection' : Collection} {stanza netmask : Option Str}
  {addresses : Str → List LifAddress} {ifname x : Str}

theorem settled_prefixed {iface : LifInterface} (settled : Settled iface) (netmask : Option Str) :
    iface.addresses.map (prefixed inetPton netmask) = iface.addresses :=
  List.map_congr_left (fun addr member => prefixed_set (settled.2 addr member)) |>.trans (List.map_id _)

theorem SameBook.settled {iface iface' : LifInterface} (same : SameBook iface iface') (settled : Settled iface) :
    Settled iface' := by
  unfold Settled
  rw [same.1, same.2]
  exact settled

theorem Paired.same (paired : Paired inetPton collection stanza netmask addresses)
    (same : ∀ x, SameBook (collection.iface x) (collection'.iface x)) :
    Paired inetPton collection' stanza netmask addresses := by
  refine ⟨fun x => ?_, fun x => ?_, fun x => ?_⟩
  · rw [(same x).1, (same x).2]
    exact paired.addresses x
  · rw [(same x).2]
    exact paired.single x
  · rw [(same x).2]
    exact paired.valid x

theorem declareEdit_light {edit : Edit} (light : edit.Light) (netmask : Option Str) (addresses : Str → List LifAddress) :
    declareEdit host netmask addresses edit = addresses := by
  unfold declareEdit
  split
  · exact light.elim
  · exact light.elim
  · rfl

theorem Paired.inherit {config : LifConfig} {parent : Str} (paired : Paired inetPton collection stanza netmask addresses)
    (h : lifInterfaceCollectionInherit config collection ifname parent = some collection')
    (known : parent = ifname ∨ Settled (collection.iface parent)) :
    Paired inetPton collection' stanza netmask
      (Function.update addresses ifname (addresses ifname ++ addresses parent)) := by
  have masks (x : Str) := inherit_netmasks (x := x) h (known.imp_right And.left)
  refine ⟨fun x => ?_, fun x => ?_, fun x => ?_⟩
  · rw [masks, inherit_addresses h]
    by_cases own : ifname = x
    · subst own
      rw [if_pos rfl, Function.update_self, List.map_append, paired.addresses]
      refine congrArg (addresses ifname ++ ·) ?_
      rcases known with rfl | settled
      · exact paired.addresses parent
      · rw [← paired.addresses parent, settled_prefixed settled, settled_prefixed settled]
    · rw [if_neg own, Function.update_of_ne (Ne.symm own)]
      exact paired.addresses x
  · rw [masks]
    exact paired.single x
  · rw [masks]
    exact paired.valid x

theorem inherit_settled {config : LifConfig} {parent y : Str}
    (h : lifInterfaceCollectionInherit config collection ifname parent = some collection')
    (known : parent = ifname ∨ Settled (collection.iface parent)) (settled : Settled (collection.iface y)) :
    Settled (collection'.iface y) := by
  have masks := inherit_netmasks (x := y) h (known.imp_right And.left)
  refine ⟨masks.trans settled.1, fun addr member => ?_⟩
  rw [inherit_addresses h] at member
  split at member
  · rename_i own
    rcases List.mem_append.mp member with here | copied
    · exact settled.2 addr here
    · rcases known with rfl | parents
      · rw [own] at copied
        exact settled.2 addr copied
      · exact parents.2 addr copied
  · exact settled.2 addr member

/-- A line that enters a stanza, or adds neither addresses nor netmasks to one, keeps the pairing. -/
theorem Paired.enters {made : List Edit} (paired : Paired host.inetPton collection stanza netmask addresses) (netmask' : Option Str)
    (enters : ∀ edit ∈ made, edit.Enters ifname) (h : applyEdits host collection made = some collection')
    (known : ∀ parent, .inherit ifname parent ∈ made → parent = ifname ∨ Settled (collection.iface parent)) :
    Paired host.inetPton collection' stanza netmask (made.foldl (declareEdit host netmask') addresses) ∧
      (∀ y, (collection'.iface y).netmasks = (collection.iface y).netmasks) ∧
      (Settled (collection.iface ifname) → Settled (collection'.iface ifname)) := by
  induction made generalizing collection addresses with
  | nil =>
    cases h
    exact ⟨paired, fun y => rfl, id⟩
  | cons edit rest ih =>
    rw [applyEdits_cons] at h
    obtain ⟨next, step, later⟩ := Option.bind_eq_some_iff.mp h
    obtain ⟨first, others⟩ := List.forall_mem_cons.mp enters
    rw [List.foldl_cons]
    have proceed (kept : Paired host.inetPton next stanza netmask (declareEdit host netmask' addresses edit))
        (masks : ∀ y, (next.iface y).netmasks = (collection.iface y).netmasks)
        (settles : ∀ y, Settled (collection.iface y) → Settled (next.iface y)) := by
      obtain ⟨paired', masks', settles'⟩ := ih kept others later fun parent member =>
        (known parent (List.mem_cons_of_mem _ member)).imp_right (settles parent)
      exact (⟨paired', fun y => (masks' y).trans (masks y), fun settled => settles' (settles ifname settled)⟩ : _ ∧ _ ∧ _)
    rcases first with light | ⟨parent, rfl⟩
    · have books := edit_light light step
      refine proceed ?_ (fun y => (books y).2) fun y => (books y).settled
      rw [declareEdit_light light]
      exact paired.same books
    · have parents := known parent List.mem_cons_self
      exact proceed (paired.inherit step parents)
        (fun y => inherit_netmasks step (parents.imp_right And.left)) fun y => inherit_settled step parents

theorem Paired.finalize (paired : Paired inetPton collection none netmask addresses) (netmask' : Option Str) (y : Str)
    (keeps : ∀ iface, (lifInterfaceFinalize inetPton iface).ifname = iface.ifname) :
    Paired inetPton (collection.write y (lifInterfaceFinalize inetPton) keeps) none netmask' addresses ∧
      Settled ((collection.write y (lifInterfaceFinalize inetPton) keeps).iface y) ∧
      ∀ x, Settled (collection.iface x) → Settled ((collection.write y (lifInterfaceFinalize inetPton) keeps).iface x) := by
  have empty : (collection.iface y).netmasks.tail = [] := List.length_eq_zero_iff.mp (by
    have single := paired.single y
    rw [List.length_tail]
    omega)
  have set : ∀ addr ∈ (collection.iface y).addresses.map (prefixed inetPton (collection.iface y).netmasks.head?),
      addr.netmask ≠ 0 := by
    intro addr member
    obtain ⟨before, -, rfl⟩ := List.mem_map.mp member
    exact prefixed_netmask fun text head => paired.valid y text (List.mem_of_mem_head? head)
  have here : Settled (lifInterfaceFinalize inetPton (collection.iface y)) := by
    unfold Settled
    rw [finalize_netmasks, finalize_addresses]
    exact ⟨empty, set⟩
  have after (x : Str) : (collection.write y (lifInterfaceFinalize inetPton) keeps).iface x =
      if y = x then lifInterfaceFinalize inetPton (collection.iface x) else collection.iface x := iface_write ..
  refine ⟨⟨fun x => ?_, fun x => ?_, fun x => ?_⟩, ?_, fun x settled => ?_⟩
  · have before := paired.addresses x
    rw [if_neg (Option.some_ne_none x).symm] at before
    rw [after, if_neg (Option.some_ne_none x).symm]
    split
    · rename_i own
      subst own
      rw [settled_prefixed here, finalize_addresses]
      exact before
    · exact before
  · rw [after]
    split
    · rename_i own
      subst own
      rw [here.1]
      exact Nat.zero_le _
    · exact paired.single x
  · rw [after]
    split
    · rename_i own
      subst own
      rw [here.1]
      simp
    · exact paired.valid x
  · rw [after, if_pos rfl]
    exact here
  · rw [after]
    split
    · rename_i own
      subst own
      exact here
    · exact settled

theorem Paired.close (paired : Paired inetPton collection (some ifname) netmask addresses)
    (seen : (collection.iface ifname).netmasks = netmask.toList) (netmask' : Option Str) :
    Paired inetPton collection none netmask' addresses := by
  refine ⟨fun x => ?_, paired.single, paired.valid⟩
  have before := paired.addresses x
  rw [if_neg (Option.some_ne_none x).symm]
  split at before
  · rename_i own
    rw [← Option.some_inj.mp own, seen, Option.head?_toList]
    rwa [← Option.some_inj.mp own] at before
  · exact before

theorem Paired.enter (paired : Paired inetPton collection none netmask addresses) (settled : Settled (collection.iface ifname))
    (netmask' : Option Str) : Paired inetPton collection (some ifname) netmask' addresses := by
  refine ⟨fun x => ?_, paired.single, paired.valid⟩
  have before := paired.addresses x
  rw [if_neg (Option.some_ne_none x).symm] at before
  split
  · rename_i own
    rw [← Option.some_inj.mp own] at before ⊢
    rw [← before, settled_prefixed settled, settled_prefixed settled]
  · exact before

theorem addressAdd_book (iface : LifInterface) (address : Str) :
    (lifInterfaceAddressAdd inetPton iface address).addresses = iface.addresses ++ (lifAddressParse inetPton address).toList ∧
      (lifInterfaceAddressAdd inetPton iface address).netmasks = iface.netmasks := by
  unfold LifInterface.addresses LifInterface.netmasks
  rw [addressAdd_data inetPton address (by decide), addressAdd_data inetPton address (by decide), if_pos rfl,
    if_neg (by decide), List.append_nil, List.filterMap_append]
  refine ⟨?_, rfl⟩
  cases lifAddressParse inetPton address <;> rfl

theorem Paired.address (paired : Paired host.inetPton collection (some ifname) netmask addresses) (address : Str)
    (added : collection' = collection.write ifname (fun iface => (Change.addressAdd address).apply host iface)
      (fun iface => Change.apply_ifname host iface _)) :
    Paired host.inetPton collection' (some ifname) netmask
        (declareEdit host netmask addresses (.change ifname (.addressAdd address))) ∧
      ∀ x, (collection'.iface x).netmasks = (collection.iface x).netmasks := by
  subst added
  have after (x : Str) : (collection.write ifname (fun iface => (Change.addressAdd address).apply host iface)
      (fun iface => Change.apply_ifname host iface _)).iface x =
        if ifname = x then lifInterfaceAddressAdd host.inetPton (collection.iface x) address else collection.iface x :=
    iface_write ..
  have masks (x : Str) : ((collection.write ifname (fun iface => (Change.addressAdd address).apply host iface)
      (fun iface => Change.apply_ifname host iface _)).iface x).netmasks = (collection.iface x).netmasks := by
    rw [after]
    split
    · exact (addressAdd_book _ _).2
    · rfl
  refine ⟨⟨fun x => ?_, fun x => ?_, fun x => ?_⟩, masks⟩
  · rw [masks, after, declareEdit]
    have before := paired.addresses x
    by_cases own : ifname = x
    · subst own
      rw [if_pos rfl] at before
      rw [if_pos rfl, if_pos rfl, (addressAdd_book _ _).1, List.map_append, before, Function.update_self]
    · rw [if_neg own, Function.update_of_ne (Ne.symm own)]
      exact before
  · rw [masks]
    exact paired.single x
  · rw [masks]
    exact paired.valid x

theorem Paired.mask {text : Str} (paired : Paired host.inetPton collection (some ifname) (some text) addresses)
    (first : (collection.iface ifname).netmasks = []) (valid : 0 < countSetBits host.inetPton text)
    (added : collection' = collection.write ifname (fun iface => (Change.triple (str "netmask") text).apply host iface)
      (fun iface => Change.apply_ifname host iface _)) :
    Paired host.inetPton collection' (some ifname) (some text) addresses ∧ (collection'.iface ifname).netmasks = [text] := by
  subst added
  have after (x : Str) : (collection.write ifname (fun iface => (Change.triple (str "netmask") text).apply host iface)
      (fun iface => Change.apply_ifname host iface _)).iface x =
        if ifname = x then (Change.triple (str "netmask") text).apply host (collection.iface x) else collection.iface x :=
    iface_write ..
  have own : ((Change.triple (str "netmask") text).apply host (collection.iface ifname)).netmasks = [text] := by
    unfold LifInterface.netmasks at first ⊢
    refine (congrArg _ dataAt_add).trans ?_
    rw [if_pos rfl, List.map_append, first]
    rfl
  have kept (iface : LifInterface) : ((Change.triple (str "netmask") text).apply host iface).addresses = iface.addresses := by
    unfold LifInterface.addresses
    refine (congrArg _ dataAt_add).trans ?_
    rw [if_neg (by decide), List.append_nil]
  refine ⟨⟨fun x => ?_, fun x => ?_, fun x => ?_⟩, ?_⟩
  · have before := paired.addresses x
    rw [after]
    split at before
    · rename_i current
      rw [if_pos current, if_pos (Option.some_inj.mp current), kept]
      exact before
    · rename_i other
      rw [if_neg other, if_neg fun same => other (congrArg some same)]
      exact before
  · rw [after]
    split
    · rename_i same
      subst same
      rw [own]
      exact Nat.le_refl _
    · exact paired.single x
  · rw [after]
    split
    · rename_i same
      subst same
      rw [own]
      simpa using valid
    · exact paired.valid x
  · rw [after, if_pos rfl]
    exact own

inductive Track (inetPton : InetPton) : Place → ParseState → Option Str → (Str → List LifAddress) → List Visit → Prop
  | between {state : ParseState} {netmask : Option Str} {addresses : Str → List LifAddress} {rest : List Visit} :
    Paired inetPton state.collection none netmask addresses → Track inetPton .between state netmask addresses rest
  | unmasked {state : ParseState} {netmask : Option Str} {addresses : Str → List LifAddress} {rest : List Visit} {ifname : Str} :
    state.curIface = some ifname → Paired inetPton state.collection (some ifname) netmask addresses →
      (state.collection.iface ifname).netmasks = [] → netmask = stanzaNetmask rest →
        Track inetPton (.stanza false) state netmask addresses rest
  | masked {state : ParseState} {text : Str} {addresses : Str → List LifAddress} {rest : List Visit} {ifname : Str} :
    state.curIface = some ifname → Paired inetPton state.collection (some ifname) (some text) addresses →
      (state.collection.iface ifname).netmasks = [text] → Track inetPton (.stanza true) state (some text) addresses rest

variable {place : Place} {state state' : ParseState} {rest : List Visit}

theorem Track.close (track : Track inetPton place state netmask addresses rest) (last : stanzaNetmask rest = none)
    (netmask' : Option Str) : Paired inetPton state.collection none netmask' addresses := by
  cases track with
  | between paired => exact ⟨fun x => paired.addresses x, paired.single, paired.valid⟩
  | unmasked current paired none ahead => exact paired.close (by rw [none, ahead, last]; rfl) netmask'
  | masked current paired seen => exact paired.close seen netmask'

theorem Track.same (track : Track inetPton place state netmask addresses rest) (same : Same state state') :
    Track inetPton place state' netmask addresses rest := by
  obtain ⟨current, collection, -⟩ := same
  cases track with
  | between paired => exact .between (by rw [collection]; exact paired)
  | unmasked cur paired none ahead =>
    exact .unmasked (current.trans cur) (by rw [collection]; exact paired) (by rw [collection]; exact none) ahead
  | masked cur paired seen =>
    exact .masked (current.trans cur) (by rw [collection]; exact paired) (by rw [collection]; exact seen)

theorem handleIface_line {own : ParseState} (kind : state.kind = .keyword .iface)
    (h : handleIface host (state.nextToken 0).2.2 (state.nextToken 0).1 (state.nextToken 0).2.1 = some own) :
    enterIface host (state.nextToken 0).1 state.ifaceName
      (ifaceTokens (state.nextToken 0).1 (state.calls.map Prod.fst)).2 state.clear = some own.clear := by
  have enters := (congrArg (Option.map ParseState.clear) h).symm.trans handleIface_enters
  rw [tokensFrom_calls (kind_token (by rw [kind]; simp))] at enters
  exact enters.symm

theorem handleGeneric_light {start : ParseState} (bufp : Nat) (grown : Grown host Edit.Light start state)
    (key : maybeRemapToken token ≠ str "address" ∧ maybeRemapToken token ≠ str "netmask") :
    Grown host Edit.Light start (handleGeneric host state token bufp) ∧
      (handleGeneric host state token bufp).curIface = state.curIface := by
  unfold handleGeneric
  split
  · exact ⟨grown, rfl⟩
  rename_i ifname current
  have added := fun value => grown.change ifname (.triple (maybeRemapToken token) value) key
  dsimp only
  split
  · exact ⟨added _, rfl⟩
  split
  · exact ⟨(added _).change ifname (.useExecutor _) trivial, rfl⟩
  · exact ⟨added _, rfl⟩

theorem handleInherit_enters (h : handleInherit host (state.nextToken 0).2.2 token (state.nextToken 0).2.1 = some state') :
    Grown host (Edit.Enters (state.curIface.getD [])) state state' ∧ state'.curIface = state.curIface := by
  rw [handleInherit_target] at h
  obtain ⟨target, found, rfl⟩ := Option.map_eq_some_iff.mp h
  cases current : state.curIface with
  | none =>
    unfold inheritTarget at found
    have outside : (state.nextToken 0).2.2.curIface = none := current
    rw [outside] at found
    cases found
    exact ⟨.same rfl rfl, outside⟩
  | some ifname =>
    have read : Grown host (Edit.Enters ifname) state (state.nextToken 0).2.2 := .same rfl rfl
    have inherited := inheritTarget_grown read current found
    exact inherited

theorem handleIface_nameless {P : Edit → Prop} (kind : state.kind = .keyword .iface) (nameless : state.ifaceName = [])
    (h : handleIface host (state.nextToken 0).2.2 (state.nextToken 0).1 (state.nextToken 0).2.1 = some state') :
    Grown host P state state' ∧ state'.curIface = state.curIface := by
  have enters := handleIface_line kind h
  unfold enterIface at enters
  rw [if_pos nameless] at enters
  have left := Option.some_inj.mp enters
  have current : state'.clear.curIface = state.curIface := by rw [← left]; rfl
  have collection : state'.clear.collection = state.collection := by rw [← left]; rfl
  have edits : state'.clear.edits = state.edits := by rw [← left]; rfl
  exact ⟨.same collection edits, current⟩

/-- A line that is nothing to the stanzas neither adds addresses or netmasks nor leaves the current interface. -/
theorem other_grown (sort : state.sort = .other) (h : handleLine host skip state = some (true, state')) :
    Grown host (Edit.Enters (state.curIface.getD [])) state state' ∧ state'.curIface = state.curIface := by
  have light {start state : ParseState} (x : Str) (grown : Grown host Edit.Light start state) :
      Grown host (Edit.Enters x) start state := grown.mono fun edit => Or.inl
  unfold ParseState.sort at sort
  cases kind : state.kind with
  | blank =>
    rw [handleLine_blank kind] at h
    cases h
    exact ⟨.same rfl rfl, rfl⟩
  | generic =>
    simp only [kind] at sort
    rw [handleLine_generic kind] at h
    cases h
    have fresh := maybeRemapToken_fresh (generic_unknown kind)
    have key : maybeRemapToken (state.nextToken 0).1 ≠ str "address" ∧ maybeRemapToken (state.nextToken 0).1 ≠ str "netmask" := by
      constructor
      · intro same
        rw [same] at fresh
        exact fresh (by decide)
      · intro same
        rw [if_pos same] at sort
        cases sort
    have read : Grown host Edit.Light state (state.nextToken 0).2.2 := .same rfl rfl
    obtain ⟨grown, current⟩ := handleGeneric_light (state.nextToken 0).2.1 read key
    exact ⟨light _ grown, current⟩
  | keyword parserkw =>
    simp only [kind] at sort
    have grown := handleLine_grown h
    rw [kind] at grown
    rw [handleLine_keyword kind] at h
    cases parserkw with
    | address | source | sourceDirectory => cases sort
    | hostname =>
      refine ⟨light _ (grown.mono fun edit => makes_light (by simp)), ?_⟩
      cases h
      unfold handleHostname
      dsimp only
      split <;> rfl
    | gateway =>
      refine ⟨light _ (grown.mono fun edit => makes_light (by simp)), ?_⟩
      cases h
      unfold handleGateway
      dsimp only
      split <;> rfl
    | use =>
      refine ⟨light _ (grown.mono fun edit => makes_light (by simp)), ?_⟩
      cases h
      unfold handleUse
      dsimp only
      split <;> rfl
    | auto =>
      by_cases nameless : state.argument = [] ∧ state.curIface = none
      · cases h
        unfold handleAuto
        dsimp only
        split
        · exact ⟨.same rfl rfl, rfl⟩
        · rename_i named
          exact absurd nameless named
      · dsimp only at sort
        rw [if_neg nameless] at sort
        cases sort
    | inherit =>
      obtain ⟨own, inherits, same⟩ := Option.map_eq_some_iff.mp h
      cases same
      exact handleInherit_enters inherits
    | iface =>
      obtain ⟨own, entered, same⟩ := Option.map_eq_some_iff.mp h
      cases same
      have nameless : state.ifaceName = [] := by
        by_contra named
        rw [if_neg named] at sort
        cases sort
      exact handleIface_nameless kind nameless entered

theorem finalize_paired (paired : Paired host.inetPton state.collection none netmask addresses) (netmask' : Option Str) :
    ∃ made, (state.finalize host).edits = state.edits ++ made ∧ made.foldl (declareEdit host netmask') addresses = addresses ∧
      (∀ ifname parent, .inherit ifname parent ∉ made) ∧
      Paired host.inetPton (state.finalize host).collection none netmask' addresses ∧
      ∀ name, some name = state.curIface ∨ Settled (state.collection.iface name) →
        Settled ((state.finalize host).collection.iface name) := by
  unfold ParseState.finalize
  split
  · rename_i outside
    refine ⟨[], by simp, rfl, by simp, ⟨fun x => paired.addresses x, paired.single, paired.valid⟩, fun name known => ?_⟩
    rw [outside] at known
    exact known.resolve_left (Option.some_ne_none name)
  · rename_i ifname current
    have keeps (iface : LifInterface) : (lifInterfaceFinalize host.inetPton iface).ifname = iface.ifname := rfl
    obtain ⟨finalized, here, others⟩ := paired.finalize netmask' ifname keeps
    refine ⟨[.change ifname .finalize], rfl, rfl, by simp, finalized, fun name known => ?_⟩
    rcases known with own | settled
    · rw [current] at own
      rw [Option.some_inj.mp own]
      exact here
    · exact others name settled

theorem edits_made {visit : Visit} {made : List Edit} {ok : Bool} (h : handleLine host skip visit.state = some (ok, state'))
    (edits : state'.edits = visit.state.edits ++ made) : visit.edits host = made := by
  unfold Visit.edits
  rw [h]
  dsimp only
  rw [edits, List.drop_left]

theorem address_added {visit : Visit} (kind : visit.state.kind = .keyword .address) (current : visit.state.curIface = some ifname)
    (h : handleLine host skip visit.state = some (true, state')) :
    state'.curIface = some ifname ∧
      state'.collection = visit.state.collection.write ifname
        (fun iface => (Change.addressAdd visit.state.argument).apply host iface) (fun iface => Change.apply_ifname host iface _) ∧
      visit.edits host = [.change ifname (.addressAdd visit.state.argument)] := by
  have handled := h
  rw [handleLine_keyword kind] at handled
  cases handled
  have inside : (visit.state.nextToken 0).2.2.curIface = some ifname := current
  have own : handleAddress host (visit.state.nextToken 0).2.2 (visit.state.nextToken 0).1 (visit.state.nextToken 0).2.1 =
      ((visit.state.nextToken 0).2.2.nextToken (visit.state.nextToken 0).2.1).2.2.change host ifname
        (.addressAdd visit.state.argument) := by
    unfold handleAddress
    dsimp only
    split
    · rename_i none
      cases none.symm.trans inside
    · rename_i same
      rw [Option.some_inj.mp (same.symm.trans inside)]
      rfl
  refine ⟨(congrArg ParseState.curIface own).trans current, congrArg ParseState.collection own, edits_made h ?_⟩
  exact congrArg ParseState.edits own

theorem netmask_added {visit : Visit} (kind : visit.state.kind = .generic)
    (key : maybeRemapToken (visit.state.nextToken 0).1 = str "netmask") (current : visit.state.curIface = some ifname)
    (h : handleLine host skip visit.state = some (true, state')) :
    state'.curIface = some ifname ∧
      state'.collection = visit.state.collection.write ifname
        (fun iface => (Change.triple (str "netmask") visit.state.value).apply host iface)
        (fun iface => Change.apply_ifname host iface _) ∧
      visit.edits host = [.change ifname (.triple (str "netmask") visit.state.value)] := by
  have handled := h
  rw [handleLine_generic kind] at handled
  cases handled
  have inside : (visit.state.nextToken 0).2.2.curIface = some ifname := current
  have own : handleGeneric host (visit.state.nextToken 0).2.2 (visit.state.nextToken 0).1 (visit.state.nextToken 0).2.1 =
      (visit.state.nextToken 0).2.2.change host ifname (.triple (str "netmask") visit.state.value) := by
    unfold handleGeneric
    split
    · rename_i none
      cases none.symm.trans inside
    · rename_i same
      rw [Option.some_inj.mp (same.symm.trans inside), key]
      have plain : ¬ 45 ∈ str "netmask" := by decide
      dsimp only
      rw [if_neg plain, ite_self]
      rfl
  exact ⟨(congrArg ParseState.curIface own).trans current, congrArg ParseState.collection own,
    edits_made h (congrArg ParseState.edits own)⟩

theorem sort_kind (state : ParseState) : match state.sort with
    | .iface => state.kind = .keyword .iface ∧ state.ifaceName ≠ []
    | .auto => state.kind = .keyword .auto
    | .address => state.kind = .keyword .address
    | .netmask => state.kind = .generic ∧ maybeRemapToken (state.nextToken 0).1 = str "netmask"
    | .source => True
    | .other => state.kind ≠ .keyword .source ∧ state.kind ≠ .keyword .sourceDirectory := by
  unfold ParseState.sort
  rcases kind : state.kind with _ | parserkw | _
  · simp
  · cases parserkw with
    | iface => by_cases named : state.ifaceName = [] <;> simp [named]
    | auto =>
      dsimp only
      by_cases nameless : state.argument = [] ∧ state.curIface = none
      · rw [if_pos nameless]
        simp
      · rw [if_neg nameless]
    | _ => simp
  · dsimp only
    by_cases netmask : maybeRemapToken (state.nextToken 0).1 = str "netmask" <;> simp [netmask]

/-- What the track says behind a line. -/
theorem Track.line {visit : Visit} (track : Track host.inetPton place visit.state netmask addresses (visit :: rest))
    (stanzas : Stanzas host place (visit :: rest)) (clean : visit.Clean host)
    (h : handleLine host skip visit.state = some (true, state')) :
    ∃ place', Stanzas host place' rest ∧ Track host.inetPton place' state'
      (if visit.state.sort = .iface then stanzaNetmask rest else netmask)
      ((visit.edits host).foldl (declareEdit host (if visit.state.sort = .iface then stanzaNetmask rest else netmask)) addresses)
      rest := by
  have kinds := sort_kind visit.state
  unfold Stanzas at stanzas
  have ahead : stanzaNetmask (visit :: rest) = match visit.state.sort with
      | .iface => none
      | .auto => none
      | .netmask => some visit.state.value
      | _ => stanzaNetmask rest := rfl
  have sources : ∀ ifname parent, .inherit ifname parent ∈ visit.edits host →
      some parent = visit.state.curIface ∨ Settled (visit.state.collection.iface parent) := by
    intro ifname parent member
    exact clean parent (List.mem_append_right _ (List.mem_filterMap.mpr ⟨_, member, rfl⟩))
  cases sort : visit.state.sort <;> simp only [sort, if_true, reduceCtorEq, if_false] at kinds stanzas ahead ⊢
  · obtain ⟨kind, named⟩ := kinds
    have handled := h
    rw [handleLine_keyword kind] at handled
    obtain ⟨own, entered, same⟩ := Option.map_eq_some_iff.mp handled
    cases same
    obtain ⟨⟨made, edits, reached, enters⟩, current⟩ := enterIface_grown named (handleIface_line kind entered)
    rw [← finalize_clear] at edits reached
    obtain ⟨finalized, before, folded, -, paired, settled⟩ :=
      finalize_paired (track.close ahead (stanzaNetmask rest)) (stanzaNetmask rest)
    have whole : visit.edits host = finalized ++ made := edits_made h (by
      rw [← List.append_assoc, ← before]
      exact edits)
    rw [whole] at sources ⊢
    have here : Settled ((visit.state.finalize host).collection.iface visit.state.ifaceName) := by
      refine settled _ (clean _ (List.mem_append_left _ ?_))
      rw [if_pos sort]
      exact List.mem_singleton_self _
    obtain ⟨paired', masks, settles⟩ := paired.enters (stanzaNetmask rest) enters reached fun parent member =>
      Or.inr (settled parent (sources _ parent (List.mem_append_right _ member)))
    rw [List.foldl_append, folded]
    exact ⟨.stanza false, stanzas, .unmasked current (paired'.enter (settles here) _) ((masks _).trans here.1) rfl⟩
  · obtain ⟨made, edits, reached, makes⟩ := handleLine_grown h
    rw [kinds] at makes
    have light : ∀ edit ∈ made, edit.Light := fun edit member => makes_light (Or.inl rfl) (makes edit member)
    rw [edits_made h edits]
    obtain ⟨paired, -⟩ := @Paired.enters host _ _ _ _ _ [] _ (track.close ahead netmask) netmask
      (fun edit member => Or.inl (light edit member)) reached fun parent member => (light _ member).elim
    exact ⟨.between, stanzas, .between paired⟩
  · obtain ⟨inside, later⟩ := stanzas
    cases track with
    | between paired => exact absurd rfl inside
    | @unmasked _ _ _ _ ifname cur paired none ahead' =>
      obtain ⟨current, collection, edits⟩ := address_added kinds cur h
      obtain ⟨paired', masks⟩ := paired.address _ collection
      rw [edits]
      exact ⟨_, later, .unmasked current paired' ((masks ifname).trans none) (ahead'.trans ahead)⟩
    | @masked _ text _ _ ifname cur paired seen =>
      obtain ⟨current, collection, edits⟩ := address_added kinds cur h
      obtain ⟨paired', masks⟩ := paired.address _ collection
      rw [edits]
      exact ⟨_, later, .masked current paired' ((masks ifname).trans seen)⟩
  · obtain ⟨rfl, valid, later⟩ := stanzas
    obtain ⟨kind, key⟩ := kinds
    cases track with
    | @unmasked _ _ _ _ ifname cur paired none ahead' =>
      obtain ⟨current, collection, edits⟩ := netmask_added kind key cur h
      have stored : netmask = some visit.state.value := ahead'.trans ahead
      subst stored
      obtain ⟨paired', seen⟩ := paired.mask none valid collection
      rw [edits]
      exact ⟨_, later, .masked current paired' seen⟩
  · obtain ⟨⟨made, edits, reached, enters⟩, current⟩ := other_grown sort h
    rw [edits_made h edits] at sources ⊢
    have known : ∀ parent, .inherit (visit.state.curIface.getD []) parent ∈ made →
        parent = visit.state.curIface.getD [] ∨ Settled (visit.state.collection.iface parent) := by
      intro parent member
      refine (sources _ parent member).imp_left fun own => ?_
      rw [← own]
      rfl
    refine ⟨place, stanzas, ?_⟩
    cases track with
    | between paired => exact .between (paired.enters netmask enters reached known).1
    | @unmasked _ _ _ _ ifname cur paired none ahead' =>
      obtain ⟨paired', masks, -⟩ := paired.enters netmask enters reached known
      exact .unmasked (current.trans cur) paired' ((masks ifname).trans none) (ahead'.trans ahead)
    | @masked _ text _ _ ifname cur paired seen =>
      obtain ⟨paired', masks, -⟩ := paired.enters (some text) enters reached known
      exact .masked (current.trans cur) paired' ((masks ifname).trans seen)

theorem Straight.track {lines : List Visit} {last : ParseState} (run : Straight host state lines last)
    (track : Track host.inetPton place state netmask addresses lines) (stanzas : Stanzas host place lines)
    (clean : ∀ visit ∈ lines, visit.Clean host) :
    Paired host.inetPton last.collection none none (declared host netmask addresses lines) := by
  induction run generalizing place netmask addresses with
  | done => exact track.close rfl none
  | line same handled _ ih =>
    obtain ⟨here, later⟩ := List.forall_mem_cons.mp clean
    obtain ⟨place', stanzas', track'⟩ := (track.same same).line stanzas here handled
    exact ih track' stanzas' later

theorem stanzas_plain {lines : List Visit} (stanzas : Stanzas host place lines) : ∀ visit ∈ lines, visit.state.Plain := by
  induction lines generalizing place with
  | nil => simp
  | cons visit rest ih =>
    have kinds := sort_kind visit.state
    unfold Stanzas at stanzas
    rw [List.forall_mem_cons]
    unfold ParseState.Plain
    cases sort : visit.state.sort <;> simp only [sort] at kinds stanzas
    · exact ⟨by rw [kinds.1]; simp, ih stanzas⟩
    · exact ⟨by rw [kinds]; simp, ih stanzas⟩
    · exact ⟨by rw [kinds]; simp, ih stanzas.2⟩
    · exact ⟨by rw [kinds.1]; simp, ih stanzas.2.2⟩
    · exact ⟨kinds, ih stanzas⟩

end

theorem init_data {x key : Str} (other : key ≠ str "use") : dataAt (lifInterfaceCollectionInit.iface x).vars key = [] := by
  have fresh (y : Str) : dataAt (lifInterfaceInit y).vars key = [] := by
    unfold lifInterfaceInit
    split <;> simp [useExecutor_data _ _ other]
  have none : (⟨[], by simp, by simp⟩ : Collection).iface x = lifInterfaceInit x := rfl
  unfold lifInterfaceCollectionInit
  rw [iface_write]
  split
  · rw [useExecutor_data _ _ other, none, fresh]
    simp
  · rw [none, fresh]

theorem paired_init {inetPton : InetPton} : Paired inetPton lifInterfaceCollectionInit none none fun _ => [] := by
  have empty (x : Str) : (lifInterfaceCollectionInit.iface x).addresses = [] ∧ (lifInterfaceCollectionInit.iface x).netmasks = [] := by
    unfold LifInterface.addresses LifInterface.netmasks
    rw [init_data (by decide), init_data (by decide)]
    exact ⟨rfl, rfl⟩
  refine ⟨fun x => ?_, fun x => ?_, fun x => ?_⟩
  · rw [(empty x).1]
    rfl
  · rw [(empty x).2]
    exact Nat.zero_le _
  · rw [(empty x).2]
    simp

/-- In a file of stanzas, each address is printed with the prefix of the stanza that it stands in, if no line goes on
with or inherits from an interface that an `auto` line has left unsettled. -/
theorem netmask_paired (host : Host) (fuel : Nat) (filename : Str) (ok : Bool) (state : ParseState)
    (parsed : lifInterfaceFileParse host fuel {} filename = some (ok, state))
    (stanzas : Stanzas host .between (visits host fuel {} filename))
    (clean : ∀ visit ∈ visits host fuel {} filename, visit.Clean host) (inetNtop : InetNtop) (buflen : Nat) (x : Str) :
    (state.collection.iface x).addresses.map
        (fun addr => lifAddressFormatCidr host.inetPton inetNtop (state.collection.iface x) addr buflen) =
      (declared host none (fun _ => []) (visits host fuel {} filename) x).map
        fun addr => lifAddressUnparse inetNtop addr buflen true := by
  obtain ⟨first, last, start, run, finished⟩ := parse_straight rfl (stanzas_plain stanzas) parsed
  have none_ : Paired host.inetPton first.collection none none fun _ => [] := by
    rw [start.collection]
    exact paired_init
  have paired := run.track (.between none_) stanzas clean
  obtain ⟨-, -, -, -, closed, -⟩ := finalize_paired paired none
  have resolved := closed.addresses x
  rw [if_neg (Option.some_ne_none x).symm, ← finished.collection] at resolved
  rw [← resolved, List.map_map]
  exact List.map_congr_left fun addr _ => format_prefixed inetNtop buflen

instance decidableStanzas (host : Host) : (lines : List Visit) → (place : Place) → Decidable (Stanzas host place lines)
  | [], _ => .isTrue trivial
  | visit :: rest, place =>
    have later := decidableStanzas host rest
    match sort : visit.state.sort with
    | .iface => decidable_of_iff (Stanzas host (.stanza false) rest) (by simp only [Stanzas, sort])
    | .auto => decidable_of_iff (Stanzas host .between rest) (by simp only [Stanzas, sort])
    | .address => decidable_of_iff (place ≠ .between ∧ Stanzas host place rest) (by simp only [Stanzas, sort])
    | .netmask => decidable_of_iff (place = .stanza false ∧ 0 < countSetBits host.inetPton visit.state.value ∧
        Stanzas host (.stanza true) rest) (by simp only [Stanzas, sort])
    | .source => .isFalse (by simp only [Stanzas, sort, not_false_eq_true])
    | .other => decidable_of_iff (Stanzas host place rest) (by simp only [Stanzas, sort])

instance (iface : LifInterface) : Decidable (Settled iface) := inferInstanceAs (Decidable (_ ∧ ∀ addr ∈ iface.addresses, _))

instance (host : Host) (visit : Visit) : Decidable (visit.Clean host) :=
  inferInstanceAs (Decidable (∀ name ∈ visit.sources host,
    some name = visit.state.curIface ∨ Settled (visit.state.collection.iface name)))

/-- Two stanzas of an interface, the first one with a netmask behind its address. -/
def maskedStanza : Host :=
  { oneFile "auto a\niface a\naddress 10.0.0.1\nnetmask 16\niface a\naddress 10.0.0.1\nauto a\n" with inetPton := onePton }

theorem netmask_paired_maskedStanza :
    lifInterfaceFileParse maskedStanza 2 {} (str "interfaces") = some (true, maskedStanza.read) ∧
      (maskedStanza.read.collection.iface (str "a")).addresses.map (fun addr =>
        lifAddressFormatCidr maskedStanza.inetPton oneNtop (maskedStanza.read.collection.iface (str "a")) addr 512) =
          [some (str "10.0.0.1/16"), some (str "10.0.0.1/24")] := by
  have declares : (declared maskedStanza none (fun _ => []) (visits maskedStanza 2 {} (str "interfaces")) (str "a")).map
      (fun addr => lifAddressUnparse oneNtop addr 512 true) = [some (str "10.0.0.1/16"), some (str "10.0.0.1/24")] := by decide +kernel
  have parsed : lifInterfaceFileParse maskedStanza 2 {} (str "interfaces") = some (true, maskedStanza.read) :=
    read_parsed (by decide +kernel)
  refine ⟨parsed, (netmask_paired maskedStanza 2 (str "interfaces") true maskedStanza.read parsed ?stanzas ?clean oneNtop 512
    (str "a")).trans declares⟩
  case stanzas => decide +kernel
  case clean => decide +kernel

/-- A stanza without a netmask, which an `auto` line ends, and another one of the same interface. -/
def unsettledStanza : Host := { oneFile "iface a\naddress 10.0.0.1\nauto b\niface a\nnetmask 16\n" with inetPton := onePton }

theorem netmask_paired_unsettledStanza :
    ¬ ∀ (host : Host) (fuel : Nat) (filename : Str) (ok : Bool) (state : ParseState),
      lifInterfaceFileParse host fuel {} filename = some (ok, state) →
      Stanzas host .between (visits host fuel {} filename) → ∀ (inetNtop : InetNtop) (buflen : Nat) (x : Str),
      (state.collection.iface x).addresses.map
          (fun addr => lifAddressFormatCidr host.inetPton inetNtop (state.collection.iface x) addr buflen) =
        (declared host none (fun _ => []) (visits host fuel {} filename) x).map
          fun addr => lifAddressUnparse inetNtop addr buflen true := by
  intro claim
  have parsed : lifInterfaceFileParse unsettledStanza 2 {} (str "interfaces") = some (true, unsettledStanza.read) :=
    read_parsed (by decide +kernel)
  have given : (unsettledStanza.read.collection.iface (str "a")).addresses.map (fun addr => lifAddressFormatCidr
      unsettledStanza.inetPton oneNtop (unsettledStanza.read.collection.iface (str "a")) addr 512) =
        [some (str "10.0.0.1/16")] := by decide +kernel
  have wanted : (declared unsettledStanza none (fun _ => []) (visits unsettledStanza 2 {} (str "interfaces")) (str "a")).map
      (fun addr => lifAddressUnparse oneNtop addr 512 true) = [some (str "10.0.0.1/24")] := by decide +kernel
  refine absurd (given.symm.trans ((claim unsettledStanza 2 (str "interfaces") true unsettledStanza.read parsed ?stanzas
    oneNtop 512 (str "a")).trans wanted)) ?other
  case stanzas => decide +kernel
  case other => decide

end Ifupdown
