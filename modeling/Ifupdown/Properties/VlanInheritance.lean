import Ifupdown.Model.Compat
import Mathlib.Data.List.Basic

/-! What the ports of a bridge inherit from it. -/
namespace Ifupdown

structure Gift where
  pvid : Option VarData
  vids : Option VarData
  port : Str

def Gift.data (gift : Gift) (key : Str) : Option VarData :=
  if key = str "bridge-pvid" then gift.pvid else if key = str "bridge-vids" then gift.vids else none

def LifInterface.gifts (bridge : LifInterface) : List Gift :=
  let pvid := lifDictFind bridge.vars (str "bridge-pvid")
  let vids := lifDictFind bridge.vars (str "bridge-vids")
  if pvid.isNone && vids.isNone then [] else bridge.ports.map fun port => ⟨pvid, vids, port⟩

def firstGift (gifts : List Gift) (port key : Str) : Option VarData :=
  gifts.findSome? fun gift => if gift.port = port then gift.data key else none

def give (config : LifConfig) (collection : Collection) (gift : Gift) : Collection :=
  pimpToken config gift.pvid gift.vids collection gift.port

/-- The variables with what has been added to fill gaps: at most one entry for a variable, which had none. -/
structure Filled (vars vars' : LifDict VarData) (offered : Str → Option VarData) : Prop where
  added : ∃ added, vars' = vars ++ added ∧ (lifDictKeys added).Nodup ∧
    ∀ entry ∈ added, lifDictFind vars entry.1 = none ∧ offered entry.1 = some entry.2
  found : ∀ key, lifDictFind vars' key = (lifDictFind vars key).or (offered key)

/-- A port that is not there is left out, unless it may be created. -/
def Takes (config : LifConfig) (collection : Collection) (x : Str) : Prop :=
  x ∈ lifDictKeys collection.entries ∨ config.compatCreateInterfaces = true

instance (config : LifConfig) (collection : Collection) (x : Str) : Decidable (Takes config collection x) :=
  inferInstanceAs (Decidable (_ ∨ _))

def Collection.gifts (collection : Collection) : List Gift := collection.entries.flatMap fun entry => entry.2.gifts

/-- The first value among the bridges of the collection that list the port and have one. -/
def Collection.inherited (collection : Collection) (port key : Str) : Option VarData :=
  collection.entries.findSome? fun entry => if port ∈ entry.2.ports then lifDictFind entry.2.vars key else none

/-- No bridge that has ports is a port of another one. -/
def Alone (collection : Collection) : Prop :=
  ∀ x y, (collection.iface x).ports ≠ [] → y ≠ x → x ∉ (collection.iface y).ports

section
variable {config : LifConfig} {collection : Collection} {gifts : List Gift} {gift : Gift} {vars vars' : LifDict VarData}
  {offered : Str → Option VarData} {x key : Str} {data : Option VarData} {bridge : LifInterface}

theorem pimpBridge_gifts : pimpBridge config collection bridge = bridge.gifts.foldl (give config) collection := by
  unfold pimpBridge LifInterface.gifts LifInterface.ports
  cases bridge.isBridge with
  | false => simp
  | true =>
    simp only [Bool.not_true, Bool.false_eq_true, if_false]
    split
    · rfl
    split
    · rfl
    split
    · rfl
    · rw [List.foldl_map]
      rfl

theorem filled_refl (vars : LifDict VarData) : Filled vars vars fun _ => none :=
  ⟨⟨[], (List.append_nil _).symm, List.nodup_nil, by simp⟩, fun key => (Option.or_none).symm⟩

theorem Filled.pimp (filled : Filled vars vars' offered) : Filled vars (maybePimp key data vars')
    (fun other => if other = key then (offered key).or data else offered other) := by
  obtain ⟨⟨added, rfl, distinct, gaps⟩, found⟩ := filled
  unfold maybePimp
  cases data with
  | none =>
    have same : (fun other => if other = key then (offered key).or none else offered other) = offered := by
      funext other
      split
      · rename_i hit
        rw [hit, Option.or_none]
      · rfl
    rw [same]
    exact ⟨⟨added, rfl, distinct, gaps⟩, found⟩
  | some data =>
    have here := found key
    dsimp only
    split
    · rename_i absent
      rw [Option.isNone_iff_eq_none] at absent
      rw [absent, eq_comm, Option.or_eq_none_iff] at here
      obtain ⟨gap, none⟩ := here
      refine ⟨⟨added ++ [(key, data)], ?_, ?_, ?_⟩, fun other => ?_⟩
      · rw [lifDictAdd, List.append_assoc]
      · rw [lifDictFind_none, lifDictKeys, List.map_append, List.mem_append, not_or] at absent
        rw [lifDictKeys, List.map_append, List.map_singleton]
        exact List.Nodup.append distinct (List.nodup_singleton _) (by simpa using absent.2)
      · rw [List.forall_mem_append, List.forall_mem_singleton]
        refine ⟨fun entry member => ?_, gap, by rw [if_pos rfl, none, Option.none_or]⟩
        obtain ⟨free, given⟩ := gaps entry member
        refine ⟨free, ?_⟩
        split
        · rename_i hit
          rw [hit, none] at given
          cases given
        · exact given
      · rw [lifDictFind_add, found other]
        by_cases hit : other = key
        · subst hit
          simp [gap, none]
        · simp [hit, Ne.symm hit]
    · rename_i present
      have taken : (lifDictFind vars key).or (offered key) ≠ none := by
        rw [← here]
        simpa using present
      refine ⟨⟨added, rfl, distinct, fun entry member => ?_⟩, fun other => ?_⟩
      · obtain ⟨free, given⟩ := gaps entry member
        refine ⟨free, ?_⟩
        split
        · rename_i hit
          rw [hit] at given
          rw [given, Option.some_or]
        · exact given
      · rw [found other]
        split
        · rename_i hit
          subst hit
          rw [← Option.or_assoc]
          obtain ⟨value, some_⟩ := Option.ne_none_iff_exists'.mp taken
          rw [some_, Option.some_or]
        · rfl

theorem Filled.pimpPort (filled : Filled vars vars' offered) (gift : Gift) : Filled vars
    (maybePimp (str "bridge-vids") gift.vids (maybePimp (str "bridge-pvid") gift.pvid vars'))
      fun key => (offered key).or (gift.data key) := by
  have other : str "bridge-vids" ≠ str "bridge-pvid" := by decide
  have both := @Filled.pimp _ _ _ (str "bridge-vids") gift.vids (@Filled.pimp _ _ _ (str "bridge-pvid") gift.pvid filled)
  refine cast (congrArg (Filled vars _) (funext fun key => ?_)) both
  unfold Gift.data
  by_cases pvid : key = str "bridge-pvid"
  · subst pvid
    rw [if_neg (Ne.symm other), if_pos rfl, if_pos rfl]
  · rw [if_neg pvid]
    by_cases vids : key = str "bridge-vids"
    · subst vids
      simp only [if_pos, if_neg other]
    · rw [if_neg vids, if_neg vids, if_neg pvid, Option.or_none]

theorem write_names {f : LifInterface → LifInterface} {keeps : ∀ interface, (f interface).ifname = interface.ifname} :
    lifDictKeys (collection.write x f keeps).entries =
      lifDictKeys collection.entries ++ if x ∈ lifDictKeys collection.entries then [] else [x] := by
  unfold Collection.write
  dsimp only
  rw [lifDictKeys_write, collectionFind_keys]
  by_cases present : x ∈ lifDictKeys collection.entries
  · have some_ : (lifDictFind collection.entries x).isSome = true := by
      rw [Option.isSome_iff_ne_none]
      exact fun none => lifDictFind_none.mp none present
    rw [if_pos present, if_pos some_]
  · rw [if_neg present, lifDictFind_none.mpr present]
    rfl

theorem give_taken (taken : Takes config collection gift.port) : give config collection gift =
    collection.write gift.port (pimpPort gift.pvid gift.vids) (pimpPort_ifname gift.pvid gift.vids) := by
  unfold give pimpToken
  refine if_pos ?_
  rw [Bool.or_eq_true]
  refine taken.imp_left fun present => ?_
  rw [Option.isSome_iff_ne_none]
  exact fun none => lifDictFind_none.mp none present

theorem give_left (left : ¬ Takes config collection gift.port) : give config collection gift = collection := by
  obtain ⟨absent, create⟩ := not_or.mp left
  unfold give pimpToken
  rw [lifDictFind_none.mpr absent, Bool.eq_false_iff.mpr create]
  rfl

theorem give_takes : Takes config (give config collection gift) x ↔ Takes config collection x := by
  by_cases taken : Takes config collection gift.port
  · rw [give_taken taken]
    unfold Takes
    rw [write_names]
    split
    · rw [List.append_nil]
    · rename_i absent
      have create := taken.resolve_left absent
      simp [create]
  · rw [give_left taken]

theorem gifts_fill (filled : Filled vars (collection.iface x).vars offered) :
    (∃ vars', (gifts.foldl (give config) collection).iface x = { collection.iface x with vars := vars' }) ∧
      Filled vars ((gifts.foldl (give config) collection).iface x).vars fun key =>
        (offered key).or (if Takes config collection x then firstGift gifts x key else none) := by
  induction gifts generalizing collection offered with
  | nil =>
    refine ⟨⟨_, rfl⟩, cast (congrArg (Filled vars _) (funext fun key => ?_)) filled⟩
    simp [firstGift]
  | cons gift gifts ih =>
    rw [List.foldl_cons]
    by_cases taken : Takes config collection gift.port
    · have after : (give config collection gift).iface x =
          if gift.port = x then pimpPort gift.pvid gift.vids (collection.iface x) else collection.iface x := by
        rw [give_taken taken, iface_write]
      by_cases here : gift.port = x
      · rw [if_pos here] at after
        have given : Filled vars ((give config collection gift).iface x).vars fun key => (offered key).or (gift.data key) := by
          rw [after]
          exact filled.pimpPort gift
        obtain ⟨⟨vars', same⟩, later⟩ := ih given
        refine ⟨⟨vars', by rw [same, after]; rfl⟩, cast (congrArg (Filled vars _) (funext fun key => ?_)) later⟩
        rw [here] at taken
        simp only [give_takes, taken, if_true, firstGift, List.findSome?_cons, here]
        rw [Option.or_assoc]
        cases gift.data key <;> rfl
      · rw [if_neg here] at after
        obtain ⟨⟨vars', same⟩, later⟩ := @ih (give config collection gift) offered (by rw [after]; exact filled)
        refine ⟨⟨vars', by rw [same, after]⟩, cast (congrArg (Filled vars _) (funext fun key => ?_)) later⟩
        simp [give_takes, firstGift, here]
    · rw [give_left taken]
      obtain ⟨same, later⟩ := ih filled
      refine ⟨same, cast (congrArg (Filled vars _) (funext fun key => ?_)) later⟩
      by_cases here : gift.port = x
      · rw [here] at taken
        simp [taken]
      · simp [firstGift, here]

theorem gifts_takes : Takes config (gifts.foldl (give config) collection) x ↔ Takes config collection x := by
  induction gifts generalizing collection with
  | nil => rfl
  | cons gift gifts ih => rw [List.foldl_cons, ih, give_takes]

theorem give_keys : ∃ new, lifDictKeys (give config collection gift).entries = lifDictKeys collection.entries ++ new ∧ new.length ≤ 1 ∧
    (∀ y ∈ new, config.compatCreateInterfaces = true ∧ gift.port = y) ∧
    (config.compatCreateInterfaces = true → gift.port ∈ lifDictKeys collection.entries ++ new) := by
  by_cases taken : Takes config collection gift.port
  · rw [give_taken taken, write_names]
    refine ⟨_, rfl, by split <;> simp, fun y member => ?_, fun _ => ?_⟩
    · split at member
      · cases member
      · rename_i absent
        exact ⟨taken.resolve_left absent, (List.mem_singleton.mp member).symm⟩
    · split
      · rw [List.append_nil]
        assumption
      · simp
  · rw [give_left taken]
    exact ⟨[], by simp, by simp, by simp, fun create => absurd (Or.inr create) taken⟩

/-- Interfaces are only created for gifts, and then for all. -/
theorem gifts_keys : ∃ created, lifDictKeys (gifts.foldl (give config) collection).entries = lifDictKeys collection.entries ++ created ∧
    created.length ≤ gifts.length ∧ (∀ y ∈ created, config.compatCreateInterfaces = true ∧ ∃ gift ∈ gifts, gift.port = y) ∧
    (config.compatCreateInterfaces = true → ∀ gift ∈ gifts, gift.port ∈ lifDictKeys collection.entries ++ created) := by
  induction gifts generalizing collection with
  | nil => exact ⟨[], by simp, by simp, by simp, by simp⟩
  | cons gift gifts ih =>
    rw [List.foldl_cons]
    obtain ⟨created, keys, bound, made, all⟩ := @ih (give config collection gift)
    obtain ⟨new, grown, single, fresh, here⟩ := @give_keys config collection gift
    rw [keys, grown, List.append_assoc]
    rw [grown, List.append_assoc] at all
    refine ⟨new ++ created, rfl, ?_, ?_, fun create => ?_⟩
    · rw [List.length_append, List.length_cons]
      omega
    · rw [List.forall_mem_append]
      refine ⟨fun y member => ⟨(fresh y member).1, gift, List.mem_cons_self, (fresh y member).2⟩, fun y member => ?_⟩
      obtain ⟨create, gift, given, same⟩ := made y member
      exact ⟨create, gift, List.mem_cons_of_mem _ given, same⟩
    · rw [List.forall_mem_cons]
      refine ⟨?_, all create⟩
      have present := here create
      rw [← List.append_assoc]
      exact List.mem_append_left _ present

theorem gift_other (pvid : key ≠ str "bridge-pvid") (vids : key ≠ str "bridge-vids") : gift.data key = none := by
  rw [Gift.data, if_neg pvid, if_neg vids]

theorem firstGift_other (pvid : key ≠ str "bridge-pvid") (vids : key ≠ str "bridge-vids") : firstGift gifts x key = none := by
  unfold firstGift
  rw [List.findSome?_eq_none_iff]
  intro gift _
  split
  · exact gift_other pvid vids
  · rfl

theorem firstGift_some {value : VarData} (found : firstGift gifts x key = some value) :
    ∃ gift ∈ gifts, gift.port = x ∧ gift.data key = some value := by
  obtain ⟨gift, member, given⟩ := List.exists_of_findSome?_eq_some found
  split at given
  · rename_i here
    exact ⟨gift, member, here, given⟩
  · cases given

theorem gifts_light : ((gifts.foldl (give config) collection).iface x).isBridge = (collection.iface x).isBridge ∧
    lifDictFind ((gifts.foldl (give config) collection).iface x).vars (str "bridge-ports") =
      lifDictFind (collection.iface x).vars (str "bridge-ports") := by
  obtain ⟨⟨vars', same⟩, filled⟩ := @gifts_fill config collection gifts _ _ x (filled_refl (collection.iface x).vars)
  refine ⟨by rw [same], ?_⟩
  rw [filled.found, firstGift_other (by decide) (by decide), ite_self, Option.none_or, Option.or_none]

theorem gifts_kept (content : ∀ gift ∈ gifts, gift.port = x → ∀ key, gift.data key ≠ none → lifDictFind (collection.iface x).vars key ≠ none) :
    (gifts.foldl (give config) collection).iface x = collection.iface x := by
  obtain ⟨⟨vars', same⟩, filled⟩ := @gifts_fill config collection gifts _ _ x (filled_refl (collection.iface x).vars)
  obtain ⟨added, kept, -, gaps⟩ := filled.added
  have none : added = [] := by
    refine List.eq_nil_iff_forall_not_mem.mpr fun entry member => ?_
    obtain ⟨gap, given⟩ := gaps entry member
    rw [Option.none_or] at given
    split at given
    · obtain ⟨gift, listed, here, data⟩ := firstGift_some given
      exact content gift listed here entry.1 (by rw [data]; simp) gap
    · cases given
  rw [same] at kept ⊢
  rw [none, List.append_nil] at kept
  rw [show vars' = _ from kept]

theorem LifInterface.gifts_plain (plain : bridge.ports = []) : bridge.gifts = [] := by
  unfold LifInterface.gifts
  dsimp only
  rw [plain]
  split <;> rfl

theorem LifInterface.gifts_mem (member : gift ∈ bridge.gifts) : gift.port ∈ bridge.ports ∧
    gift.pvid = lifDictFind bridge.vars (str "bridge-pvid") ∧ gift.vids = lifDictFind bridge.vars (str "bridge-vids") := by
  unfold LifInterface.gifts at member
  dsimp only at member
  split at member
  · cases member
  · obtain ⟨port, listed, rfl⟩ := List.mem_map.mp member
    exact ⟨listed, rfl, rfl⟩

theorem ports_same {iface iface' : LifInterface} (bridge : iface'.isBridge = iface.isBridge)
    (ports : lifDictFind iface'.vars (str "bridge-ports") = lifDictFind iface.vars (str "bridge-ports")) : iface'.ports = iface.ports := by
  unfold LifInterface.ports
  rw [bridge, ports]

theorem gifts_ports : ((gifts.foldl (give config) collection).iface x).ports = (collection.iface x).ports :=
  ports_same gifts_light.1 gifts_light.2

theorem alone_gifts (alone : Alone collection) : Alone (gifts.foldl (give config) collection) := by
  intro x y
  rw [gifts_ports, gifts_ports]
  exact alone x y

/-- What an interface gives is not changed by gifts that are not for it, or that it has itself. -/
theorem gifts_steady (content : (collection.iface x).ports ≠ [] → ∀ gift ∈ gifts, gift.port = x → ∀ key, gift.data key ≠ none →
    lifDictFind (collection.iface x).vars key ≠ none) :
    ((gifts.foldl (give config) collection).iface x).gifts = (collection.iface x).gifts := by
  by_cases plain : (collection.iface x).ports = []
  · rw [LifInterface.gifts_plain plain, LifInterface.gifts_plain (gifts_ports.trans plain)]
  · rw [gifts_kept (content plain)]

theorem pimpBridge_idle (idle : bridge.gifts = []) : pimpBridge config collection bridge = collection := by
  rw [pimpBridge_gifts, idle]
  rfl

theorem loop_idle {fuel : Nat} {names : List Str} (idle : ∀ y ∈ names, (collection.iface y).gifts = []) (enough : names.length ≤ fuel) :
    compatIfupdown2BridgePortsInheritVlans config fuel collection names = some collection := by
  induction names generalizing fuel with
  | nil => cases fuel <;> rfl
  | cons y names ih =>
    obtain ⟨fuel, rfl⟩ := Nat.exists_eq_add_of_lt (Nat.lt_of_lt_of_le (Nat.zero_lt_succ _) enough)
    obtain ⟨first, later⟩ := List.forall_mem_cons.mp idle
    have none : (lifDictKeys collection.entries).drop collection.entries.length = [] := by simp
    rw [Nat.zero_add, compatIfupdown2BridgePortsInheritVlans, pimpBridge_idle first, none, List.append_nil]
    exact ih later (by rw [List.length_cons] at enough; omega)

theorem absent_plain (absent : x ∉ lifDictKeys collection.entries) : (collection.iface x).ports = [] := by
  have plain : (lifInterfaceInit x).isBridge = false := by
    unfold lifInterfaceInit
    split <;> rfl
  unfold Collection.iface LifInterface.ports
  rw [lifDictFind_none.mpr absent]
  exact if_pos (by simp [plain])

theorem created_plain {result : Collection} {created : List Str}
    (keys : lifDictKeys result.entries = lifDictKeys collection.entries ++ created) :
    ∀ y ∈ created, (collection.iface y).ports = [] := by
  intro y member
  have distinct := result.distinct
  rw [keys, List.nodup_append] at distinct
  exact absent_plain fun present => distinct.2.2 y present y member rfl

/-- The loop gives what the bridges give that have been there before it. -/
theorem loop_gifts {fuel : Nat} {names created : List Str} (alone : Alone collection) (distinct : names.Nodup)
    (plain : ∀ y ∈ created, (collection.iface y).ports = [])
    (enough : names.length + created.length + (names.flatMap fun y => (collection.iface y).gifts).length ≤ fuel) :
    compatIfupdown2BridgePortsInheritVlans config fuel collection (names ++ created) =
      some ((names.flatMap fun y => (collection.iface y).gifts).foldl (give config) collection) := by
  induction names generalizing collection created fuel with
  | nil => exact loop_idle (fun y member => LifInterface.gifts_plain (plain y member)) (by simpa using enough)
  | cons x names ih =>
    obtain ⟨fuel, rfl⟩ : ∃ n, fuel = n + 1 := ⟨fuel - 1, by rw [List.length_cons] at enough; omega⟩
    obtain ⟨fresh, distinct⟩ := List.nodup_cons.mp distinct
    obtain ⟨new, keys, bound, made, -⟩ := @gifts_keys config collection (collection.iface x).gifts
    rw [List.cons_append, compatIfupdown2BridgePortsInheritVlans, pimpBridge_gifts]
    have left : (lifDictKeys ((collection.iface x).gifts.foldl (give config) collection).entries).drop collection.entries.length = new := by
      rw [keys, List.drop_left' (by simp)]
    have steady : ∀ y ∈ names, (((collection.iface x).gifts.foldl (give config) collection).iface y).gifts = (collection.iface y).gifts := by
      intro y member
      refine gifts_steady fun ports gift given same => ?_
      have other : x ≠ y := by
        rintro rfl
        exact fresh member
      refine absurd ?_ (alone y x ports other)
      rw [← same]
      exact (LifInterface.gifts_mem given).1
    have whole : (names.flatMap fun y => (((collection.iface x).gifts.foldl (give config) collection).iface y).gifts) =
        names.flatMap fun y => (collection.iface y).gifts := List.flatMap_congr steady
    rw [left, List.append_assoc, List.flatMap_cons, List.foldl_append, ← whole]
    refine ih (alone_gifts alone) distinct ?plain ?enough
    case plain =>
      rw [List.forall_mem_append]
      exact ⟨fun y member => gifts_ports.trans (plain y member), fun y member => gifts_ports.trans (created_plain keys y member)⟩
    case enough =>
      rw [whole, List.length_append]
      rw [List.flatMap_cons, List.length_append, List.length_cons] at enough
      omega

theorem gifts_names : collection.gifts = (lifDictKeys collection.entries).flatMap fun y => (collection.iface y).gifts := by
  unfold Collection.gifts
  rw [List.flatMap_map]
  exact List.flatMap_congr fun entry member => by rw [iface_of_mem member]

theorem gifts_bound : collection.entries.length + collection.gifts.length ≤
    (collection.entries.flatMap fun entry => entry.1 :: entry.2.ports).length := by
  unfold Collection.gifts
  induction collection.entries with
  | nil => simp
  | cons entry entries ih =>
    have fewer : entry.2.gifts.length ≤ entry.2.ports.length := by
      unfold LifInterface.gifts
      dsimp only
      split
      · exact Nat.zero_le _
      · rw [List.length_map]
    rw [List.flatMap_cons, List.flatMap_cons, List.length_append, List.length_append, List.length_cons, List.length_cons]
    omega

theorem apply_gifts (alone : Alone collection)
    (set : config.compatIfupdown2BridgePortsInheritVlans = true) :
    lifCompatApply config collection = some (collection.gifts.foldl (give config) collection) := by
  have loop := @loop_gifts config collection (collection.entries.flatMap fun entry => entry.1 :: entry.2.ports).length
    (lifDictKeys collection.entries) [] alone collection.distinct (by simp) (by
      rw [← gifts_names, List.length_map, List.length_nil, Nat.add_zero]
      exact gifts_bound)
  rw [List.append_nil, ← gifts_names] at loop
  rw [lifCompatApply, if_pos set, loop]

theorem firstGift_bridge (bridge : LifInterface) (x : Str) (which : key = str "bridge-pvid" ∨ key = str "bridge-vids") :
    firstGift bridge.gifts x key = if x ∈ bridge.ports then lifDictFind bridge.vars key else none := by
  have other : str "bridge-vids" ≠ str "bridge-pvid" := by decide
  have data (port : Str) : Gift.data ⟨lifDictFind bridge.vars (str "bridge-pvid"), lifDictFind bridge.vars (str "bridge-vids"), port⟩ key =
      lifDictFind bridge.vars key := by
    unfold Gift.data
    rcases which with rfl | rfl
    · rw [if_pos rfl]
    · rw [if_neg other, if_pos rfl]
  unfold LifInterface.gifts
  dsimp only
  split
  · rename_i empty
    rw [Bool.and_eq_true, Option.isNone_iff_eq_none, Option.isNone_iff_eq_none] at empty
    have none : lifDictFind bridge.vars key = none := by
      rcases which with rfl | rfl
      · exact empty.1
      · exact empty.2
    rw [none, ite_self]
    rfl
  · unfold firstGift
    induction bridge.ports with
    | nil => rfl
    | cons port ports ih =>
      rw [List.map_cons, List.findSome?_cons]
      dsimp only
      rw [ih]
      by_cases here : port = x
      · have listed : x ∈ port :: ports := here ▸ List.mem_cons_self
        rw [if_pos here, data, if_pos listed]
        cases lifDictFind bridge.vars key <;> simp
      · rw [if_neg here]
        simp [Ne.symm here]

theorem firstGift_inherited (x : Str) (which : key = str "bridge-pvid" ∨ key = str "bridge-vids") :
    firstGift collection.gifts x key = collection.inherited x key := by
  unfold Collection.gifts Collection.inherited
  induction collection.entries with
  | nil => rfl
  | cons entry entries ih =>
    have split_ : firstGift (entry.2.gifts ++ entries.flatMap fun entry => entry.2.gifts) x key =
        (firstGift entry.2.gifts x key).or (firstGift (entries.flatMap fun entry => entry.2.gifts) x key) := List.findSome?_append
    rw [List.flatMap_cons, split_, ih, firstGift_bridge entry.2 x which, List.findSome?_cons]
    cases (if x ∈ entry.2.ports then lifDictFind entry.2.vars key else none) <;> rfl

theorem maybePimp_full (full : data ≠ none → lifDictFind vars key ≠ none) : maybePimp key data vars = vars := by
  unfold maybePimp
  cases data with
  | none => rfl
  | some data =>
    refine if_neg fun empty => full (by simp) ?_
    rwa [Option.isNone_iff_eq_none] at empty

theorem write_same {f : LifInterface → LifInterface} {keeps : ∀ interface, (f interface).ifname = interface.ifname}
    (present : x ∈ lifDictKeys collection.entries) (same : f (collection.iface x) = collection.iface x) :
    collection.write x f keeps = collection := by
  cases found : lifDictFind collection.entries x with
  | none => exact absurd present (lifDictFind_none.mp found)
  | some interface =>
    have here : collection.iface x = interface := by
      unfold Collection.iface
      rw [found]
      rfl
    have found_ : (lifInterfaceCollectionFind collection x).2 = collection := by
      unfold lifInterfaceCollectionFind
      split
      · rfl
      · rename_i none
        rw [found] at none
        cases none
    have written : (collection.write x f keeps).entries = lifDictWrite (lifInterfaceCollectionFind collection x).2.entries x f := rfl
    have entries : (collection.write x f keeps).entries = collection.entries := by
      rw [written, found_]
      exact lifDictWrite_fixed found (by rw [← here, same])
    generalize collection.write x f keeps = written at entries
    cases written
    cases collection
    cases entries
    rfl

theorem give_same (full : Takes config collection gift.port → gift.port ∈ lifDictKeys collection.entries ∧
      ∀ key, gift.data key ≠ none → lifDictFind (collection.iface gift.port).vars key ≠ none) :
    give config collection gift = collection := by
  by_cases taken : Takes config collection gift.port
  · obtain ⟨present, full⟩ := full taken
    have other : str "bridge-vids" ≠ str "bridge-pvid" := by decide
    have pvid : gift.data (str "bridge-pvid") = gift.pvid := if_pos rfl
    have vids : gift.data (str "bridge-vids") = gift.vids := (if_neg other).trans (if_pos rfl)
    rw [give_taken taken]
    refine write_same present ?_
    unfold pimpPort
    rw [@maybePimp_full _ (str "bridge-pvid") _ (pvid ▸ full _), @maybePimp_full _ (str "bridge-vids") _ (vids ▸ full _)]
  · exact give_left taken

theorem collection_gifts_mem : gift ∈ collection.gifts ↔ ∃ entry ∈ collection.entries, gift ∈ entry.2.gifts := List.mem_flatMap

/-- The gifts of a collection do not change what it gives. -/
theorem gifts_again (alone : Alone collection) : (collection.gifts.foldl (give config) collection).gifts = collection.gifts := by
  obtain ⟨created, keys, -, -, -⟩ := @gifts_keys config collection collection.gifts
  have new : ∀ y ∈ created, ((collection.gifts.foldl (give config) collection).iface y).gifts = [] := by
    intro y member
    exact LifInterface.gifts_plain (gifts_ports.trans (created_plain keys y member))
  have old : ∀ x ∈ lifDictKeys collection.entries,
      ((collection.gifts.foldl (give config) collection).iface x).gifts = (collection.iface x).gifts := by
    intro x _
    refine gifts_steady fun ports gift given here key some_ => ?_
    obtain ⟨entry, member, given⟩ := collection_gifts_mem.mp given
    have known := iface_of_mem member
    obtain ⟨listed, pvid, vids⟩ := LifInterface.gifts_mem given
    by_cases own : entry.1 = x
    · rw [own] at known
      unfold Gift.data at some_
      split at some_
      · rename_i which
        rwa [known, which, ← pvid]
      · split at some_
        · rename_i which
          rwa [known, which, ← vids]
        · cases some_ rfl
    · refine absurd ?_ (alone x entry.1 ports own)
      rwa [known, ← here]
  rw [gifts_names, keys, List.flatMap_append, List.flatMap_congr old, ← gifts_names, List.flatMap_eq_nil_iff.mpr new, List.append_nil]

theorem firstGift_given (given : gift ∈ gifts) (some_ : gift.data key ≠ none) : firstGift gifts gift.port key ≠ none := by
  intro none
  refine some_ ?_
  have first := List.findSome?_eq_none_iff.mp none gift given
  rwa [if_pos rfl] at first

theorem gifts_idle : collection.gifts.foldl (give config) (collection.gifts.foldl (give config) collection) =
    collection.gifts.foldl (give config) collection := by
  obtain ⟨created, keys, -, -, all⟩ := @gifts_keys config collection collection.gifts
  have same : ∀ gift ∈ collection.gifts,
      give config (collection.gifts.foldl (give config) collection) gift = collection.gifts.foldl (give config) collection := by
    intro gift given
    refine give_same fun taken => ⟨?_, fun key some_ => ?_⟩
    · rw [gifts_takes] at taken
      rw [keys]
      exact taken.elim (List.mem_append_left _) fun create => all create gift given
    · rw [gifts_takes] at taken
      obtain ⟨-, filled⟩ := @gifts_fill config collection collection.gifts _ _ gift.port (filled_refl (collection.iface gift.port).vars)
      rw [filled.found, if_pos taken, Option.none_or]
      exact fun none => firstGift_given given some_ (Option.or_eq_none_iff.mp none).2
  generalize collection.gifts.foldl (give config) collection = result at same
  generalize collection.gifts = gifts at same
  induction gifts with
  | nil => rfl
  | cons gift gifts ih =>
    obtain ⟨first, later⟩ := List.forall_mem_cons.mp same
    rw [List.foldl_cons, first, ih later]

/-- Where no bridge with ports is a port of another bridge, gaps of ports are filled, with what the first bridge has that lists the
port. No flag and no variable changes, and a second time changes nothing. -/
theorem vlans_inherited (config : LifConfig) (collection : Collection)
    (alone : ∀ entry ∈ collection.entries, entry.2.ports ≠ [] →
      ∀ other ∈ collection.entries, other.1 ≠ entry.1 → entry.1 ∉ other.2.ports) :
    ∃ result, lifCompatApply config collection = some result ∧
      (∀ x, ∃ added, result.iface x = { collection.iface x with vars := (collection.iface x).vars ++ added } ∧
        (lifDictKeys added).Nodup ∧
        ∀ entry ∈ added, (entry.1 = str "bridge-pvid" ∨ entry.1 = str "bridge-vids") ∧
          lifDictFind (collection.iface x).vars entry.1 = none ∧ collection.inherited x entry.1 = some entry.2) ∧
      (config.compatIfupdown2BridgePortsInheritVlans = true → ∀ x ∈ lifDictKeys result.entries,
        ∀ key, key = str "bridge-pvid" ∨ key = str "bridge-vids" →
          lifDictFind (result.iface x).vars key = (lifDictFind (collection.iface x).vars key).or (collection.inherited x key)) ∧
      (∃ created, lifDictKeys result.entries = lifDictKeys collection.entries ++ created ∧
        ∀ x ∈ created, config.compatCreateInterfaces = true ∧ ∃ entry ∈ collection.entries, x ∈ entry.2.ports) ∧
      lifCompatApply config result = some result := by
  cases set : config.compatIfupdown2BridgePortsInheritVlans with
  | false =>
    have unset (collection : Collection) : lifCompatApply config collection = some collection := by
      rw [lifCompatApply, if_neg (by simp [set])]
    refine ⟨collection, unset collection, fun x => ⟨[], by rw [List.append_nil], by simp, by simp⟩, by simp, ⟨[], by simp, by simp⟩, unset collection⟩
  | true =>
    have apart : Alone collection := by
      intro x y ports other listed
      by_cases here : x ∈ lifDictKeys collection.entries
      · by_cases there : y ∈ lifDictKeys collection.entries
        · obtain ⟨entry, member, rfl⟩ := List.mem_map.mp here
          obtain ⟨listing, inside, rfl⟩ := List.mem_map.mp there
          rw [iface_of_mem member] at ports
          rw [iface_of_mem inside] at listed
          exact alone entry member ports listing inside other listed
        · rw [absent_plain there] at listed
          cases listed
      · exact ports (absent_plain here)
    have which {key : Str} {value : VarData} {x : Str} (given : firstGift collection.gifts x key = some value) :
        key = str "bridge-pvid" ∨ key = str "bridge-vids" := by
      by_contra neither
      obtain ⟨pvid, vids⟩ := not_or.mp neither
      rw [firstGift_other pvid vids] at given
      cases given
    refine ⟨_, apply_gifts apart set, fun x => ?_, fun _ x present key both => ?_, ?_, ?_⟩
    · obtain ⟨⟨vars', same⟩, filled⟩ := @gifts_fill config collection collection.gifts _ _ x (filled_refl (collection.iface x).vars)
      obtain ⟨added, kept, distinct, gaps⟩ := filled.added
      rw [same] at kept
      refine ⟨added, by rw [same, show vars' = _ from kept], distinct, fun entry member => ?_⟩
      obtain ⟨gap, given⟩ := gaps entry member
      rw [Option.none_or] at given
      split at given
      · refine ⟨which given, gap, ?_⟩
        rwa [← firstGift_inherited x (which given)]
      · cases given
    · have taken : Takes config collection x := gifts_takes.mp (Or.inl present)
      obtain ⟨-, filled⟩ := @gifts_fill config collection collection.gifts _ _ x (filled_refl (collection.iface x).vars)
      rw [filled.found, if_pos taken, Option.none_or, firstGift_inherited x both]
    · obtain ⟨created, keys, -, made, -⟩ := @gifts_keys config collection collection.gifts
      refine ⟨created, keys, fun x member => ?_⟩
      obtain ⟨create, gift, given, rfl⟩ := made x member
      obtain ⟨entry, inside, given⟩ := collection_gifts_mem.mp given
      exact ⟨create, entry, inside, (LifInterface.gifts_mem given).1⟩
    · rw [apply_gifts (alone_gifts apart) set, gifts_again apart, gifts_idle]

end

def pimpedBridge : Collection :=
  { entries := [
      (str "br0", { ifname := str "br0", isBridge := true, vars := [(str "bridge-ports", .text (str "eth0 eth1")),
        (str "bridge-pvid", .text (str "100"))] }),
      (str "eth0", { ifname := str "eth0", vars := [(str "bridge-pvid", .text (str "7"))] })]
    named := by decide
    distinct := by decide }

example : (lifCompatApply {} pimpedBridge).map (fun result => result.entries.map fun entry =>
    (entry.1, lifDictFind entry.2.vars (str "bridge-pvid"))) =
      some [(str "br0", some (.text (str "100"))), (str "eth0", some (.text (str "7"))), (str "eth1", some (.text (str "100")))] := by
  decide

theorem vlans_inherited_bridge : ∃ result, lifCompatApply {} pimpedBridge = some result ∧ lifCompatApply {} result = some result := by
  obtain ⟨result, applied, -, -, -, again⟩ := vlans_inherited {} pimpedBridge (by decide)
  exact ⟨result, applied, again⟩

end Ifupdown
