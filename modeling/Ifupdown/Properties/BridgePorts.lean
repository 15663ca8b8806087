import Ifupdown.Executors.Environment

/-! Which ports an executor gets to see of a bridge. -/
namespace Ifupdown

def envName (s : Str) : Str := s.takeWhile fun c => c != 61

def named (name : Str) (env : List Str) : List Str := env.filter fun s => envName s == name

def portVars (iface : LifInterface) (entry : Str × VarData) : List Str :=
  (if entry.1 = str "requires" ∧ iface.isBridge = true then [envText (str "IF_BRIDGE_PORTS", entry.2.value)] else []) ++
    if envName (environmentKey entry.1) = str "IF_BRIDGE_PORTS" then [envText (environmentKey entry.1, entry.2.value)] else []

section
variable {libc : Libc} {opts : LifExecuteOpts} {iface : LifInterface} {vars : LifDict VarData} {key name val : Str} {data : VarData}

theorem envName_text (short : name.length ≤ 4095) : envName (envText (name, val)) = envName name := by
  have stops : (name ++ str "=" ++ val).takeWhile (fun c => c != 61) = name.takeWhile fun c => c != 61 := by
    rw [List.append_assoc, List.takeWhile_append]
    split
    · rename_i whole
      rw [(List.takeWhile_prefix _).eq_of_length whole]
      exact List.append_nil _
    · rfl
  unfold envText envName strlcpy
  rw [← List.take_takeWhile, stops, List.take_of_length_le]
  exact Nat.le_trans (List.takeWhile_sublist _).length_le short

theorem environmentKey_length : (environmentKey key).length ≤ 4095 := by
  have front : (str "IF_").length = 3 := rfl
  unfold environmentKey strlcat
  simp only [List.length_append, List.length_map, List.length_take, List.length_drop, front]
  omega

theorem named_append (first second : List Str) : named name (first ++ second) = named name first ++ named name second :=
  List.filter_append ..

theorem named_text {var : Str × Str} (short : var.1.length ≤ 4095) :
    named name [envText var] = if envName var.1 = name then [envText var] else [] := by
  unfold named
  rw [List.filter_singleton, envName_text short]
  simp

/-- Nothing but the entries for the ports, and the dependencies of a bridge, makes a variable of that name. -/
theorem entryVars_named (didAddress didGateway : Bool) :
    named (str "IF_BRIDGE_PORTS") ((entryVars libc iface didAddress didGateway vars).map envText) = vars.flatMap (portVars iface) := by
  induction vars generalizing didAddress didGateway with
  | nil => rfl
  | cons entry rest ih =>
    obtain ⟨key, data⟩ := entry
    rw [entryVars, List.flatMap_cons]
    by_cases address : key = str "address"
    · have silent : portVars iface (key, data) = [] := by
        subst address
        have name : envName (environmentKey (str "address")) ≠ str "IF_BRIDGE_PORTS" := by decide
        have other : str "address" ≠ str "requires" := by decide
        simp [portVars, other, name]
      rw [if_pos address, silent, List.nil_append]
      cases cidrText libc iface data with
      | none => exact ih ..
      | some text =>
        have name : envName (str "IF_ADDRESS") ≠ str "IF_BRIDGE_PORTS" := by decide
        have short : (str "IF_ADDRESS").length ≤ 4095 := by decide
        cases didAddress with
        | true => exact ih ..
        | false =>
          show named _ ([envText (str "IF_ADDRESS", text)] ++ (entryVars libc iface true didGateway rest).map envText) = _
          rw [named_append, named_text short, if_neg name, List.nil_append, ih]
    rw [if_neg address]
    by_cases gateway : key = str "gateway"
    · have name : envName (environmentKey key) ≠ str "IF_BRIDGE_PORTS" := by
        subst gateway
        decide
      have silent : portVars iface (key, data) = [] := by
        have other : key ≠ str "requires" := by
          subst gateway
          decide
        simp [portVars, other, name]
      rw [if_pos gateway, silent, List.nil_append]
      cases didGateway with
      | true => exact ih ..
      | false =>
        show named _ ([envText (environmentKey key, data.value)] ++ (entryVars libc iface didAddress true rest).map envText) = _
        rw [named_append, named_text environmentKey_length, if_neg name, List.nil_append, ih]
    · have ports : envName (str "IF_BRIDGE_PORTS") = str "IF_BRIDGE_PORTS" := by decide
      have short : (str "IF_BRIDGE_PORTS").length ≤ 4095 := by decide
      have own : named (str "IF_BRIDGE_PORTS") [envText (environmentKey key, data.value)] = _ := named_text environmentKey_length
      have split_ (front : List Str) (later : List Str) : front ++ envText (environmentKey key, data.value) :: later =
          front ++ ([envText (environmentKey key, data.value)] ++ later) := rfl
      rw [if_neg gateway, List.map_append, List.map_cons, split_, named_append, named_append, ih, own]
      unfold portVars
      by_cases requires : key = str "requires" ∧ iface.isBridge = true
      · have first : named (str "IF_BRIDGE_PORTS") [envText (str "IF_BRIDGE_PORTS", data.value)] = _ := named_text short
        rw [if_pos requires, if_pos requires, List.map_singleton, first, if_pos ports, List.append_assoc]
      · rw [if_neg requires, if_neg requires]
        rfl

theorem named_none {vars : List (Str × Str)} (other : ∀ n ∈ vars.map Prod.fst, n.length ≤ 4095 ∧ envName n ≠ name) :
    named name (vars.map envText) = [] := by
  unfold named
  rw [List.filter_eq_nil_iff]
  intro s member
  obtain ⟨var, inside, rfl⟩ := List.mem_map.mp member
  obtain ⟨short, other⟩ := other var.1 (List.mem_map_of_mem inside)
  rw [envName_text short, beq_iff_eq]
  exact other

theorem frontVars_named {lifname phase mode : Str} :
    named (str "IF_BRIDGE_PORTS") ((frontVars libc opts lifname phase mode).map envText) = [] := by
  have names : (frontVars libc opts lifname phase mode).map Prod.fst =
      [str "PATH", str "IFACE", str "PHASE", str "MODE", str "METHOD"] ++ (if opts.verbose then [str "VERBOSE"] else []) ++
        opts.interfacesFile.toList.map fun _ => str "INTERFACES_FILE" := by
    unfold frontVars
    cases opts.verbose <;> cases opts.interfacesFile <;> rfl
  refine named_none ?_
  rw [names, List.forall_mem_append, List.forall_mem_append]
  refine ⟨⟨by decide, ?_⟩, fun n member => ?_⟩
  · split <;> decide
  · obtain ⟨_, -, rfl⟩ := List.mem_map.mp member
    decide

theorem strings_named {lifname : Option Str} {phase mode : Str} :
    named (str "IF_BRIDGE_PORTS") (buildEnvironmentStrings libc opts iface lifname phase mode) = iface.vars.flatMap (portVars iface) := by
  have lists : named (str "IF_BRIDGE_PORTS") ([(str "IF_ADDRESSES", spaced (iface.cidrs libc)), (str "IF_GATEWAYS", spaced iface.gateways)].map
      envText) = [] := by
    have others : ∀ n ∈ [str "IF_ADDRESSES", str "IF_GATEWAYS"], n.length ≤ 4095 ∧ envName n ≠ str "IF_BRIDGE_PORTS" := by decide
    exact named_none others
  rw [strings_vars]
  unfold environmentVars
  rw [List.map_append, List.map_append, named_append, named_append, frontVars_named, entryVars_named, lists, List.append_nil,
    List.nil_append]

theorem surrounded_singleton {front behind : List Str} {x y : Str} :
    front ++ ([x] ++ behind) = [y] ↔ (front = [] ∧ behind = []) ∧ x = y := by
  constructor
  · intro same
    cases front with
    | nil =>
      obtain ⟨rfl, none⟩ := List.cons_eq_cons.mp same
      exact ⟨⟨rfl, none⟩, rfl⟩
    | cons head front =>
      obtain ⟨-, none⟩ := List.cons_eq_cons.mp same
      exact absurd none (by simp)
  · rintro ⟨⟨rfl, rfl⟩, rfl⟩
    rfl

theorem portVars_none (entry : Str × VarData) : portVars iface entry = [] ↔
    ¬ (entry.1 = str "requires" ∧ iface.isBridge = true) ∧ envName (environmentKey entry.1) ≠ str "IF_BRIDGE_PORTS" := by
  unfold portVars
  rw [List.append_eq_nil_iff]
  simp

end

/-- Executors see the ports of a bridge, and nothing else under that name, just if the interface has no dependencies that pass for
its ports and no other option with that name, and the ports fit one string of the environment. -/
theorem ports_seen (libc : Libc) (opts : LifExecuteOpts) (iface : LifInterface) (lifname : Option Str) (phase mode : Str)
    (front behind : LifDict VarData) (data : VarData) (given : iface.vars = front ++ (str "bridge-ports", data) :: behind)
    (single : ∀ entry ∈ front ++ behind, entry.1 ≠ str "bridge-ports") :
    named (str "IF_BRIDGE_PORTS") (buildEnvironmentStrings libc opts iface lifname phase mode) =
        [str "IF_BRIDGE_PORTS" ++ str "=" ++ data.value] ↔
      (iface.isBridge = true → str "requires" ∉ lifDictKeys iface.vars) ∧
        (∀ key ∈ lifDictKeys iface.vars, key ≠ str "bridge-ports" → envName (environmentKey key) ≠ str "IF_BRIDGE_PORTS") ∧
          data.value.length ≤ 4079 := by
  have requires : str "bridge-ports" ≠ str "requires" := by decide
  have own : portVars iface (str "bridge-ports", data) = [envText (str "IF_BRIDGE_PORTS", data.value)] := by
    have key : environmentKey (str "bridge-ports") = str "IF_BRIDGE_PORTS" := by decide
    have name : envName (str "IF_BRIDGE_PORTS") = str "IF_BRIDGE_PORTS" := by decide
    simp [portVars, requires, key, name]
  have whole : envText (str "IF_BRIDGE_PORTS", data.value) = str "IF_BRIDGE_PORTS" ++ str "=" ++ data.value ↔
      data.value.length ≤ 4079 := by
    have name : (str "IF_BRIDGE_PORTS" ++ str "=").length = 16 := rfl
    unfold envText strlcpy
    dsimp only
    rw [List.take_eq_self_iff, List.length_append, name]
    omega
  have silent : front.flatMap (portVars iface) = [] ∧ behind.flatMap (portVars iface) = [] ↔
      (iface.isBridge = true → str "requires" ∉ lifDictKeys iface.vars) ∧
        ∀ key ∈ lifDictKeys iface.vars, key ≠ str "bridge-ports" → envName (environmentKey key) ≠ str "IF_BRIDGE_PORTS" := by
    rw [List.flatMap_eq_nil_iff, List.flatMap_eq_nil_iff, ← List.forall_mem_append]
    simp only [portVars_none]
    rw [given]
    constructor
    · intro none
      constructor
      · intro bridge listed
        obtain ⟨entry, member, same⟩ := List.mem_map.mp listed
        rcases List.mem_append.mp member with member | member
        · exact (none entry (List.mem_append_left _ member)).1 ⟨same, bridge⟩
        rcases List.mem_cons.mp member with rfl | member
        · exact requires same
        · exact (none entry (List.mem_append_right _ member)).1 ⟨same, bridge⟩
      · intro key listed other
        obtain ⟨entry, member, rfl⟩ := List.mem_map.mp listed
        rcases List.mem_append.mp member with member | member
        · exact (none entry (List.mem_append_left _ member)).2
        rcases List.mem_cons.mp member with rfl | member
        · exact absurd rfl other
        · exact (none entry (List.mem_append_right _ member)).2
    · rintro ⟨bridge, others⟩ entry member
      have listed : entry.1 ∈ lifDictKeys (front ++ (str "bridge-ports", data) :: behind) := by
        refine List.mem_map_of_mem ?_
        rcases List.mem_append.mp member with member | member
        · exact List.mem_append_left _ member
        · exact List.mem_append_right _ (List.mem_cons_of_mem _ member)
      exact ⟨fun ⟨same, set⟩ => bridge set (same ▸ listed), others entry.1 listed (single entry member)⟩
  rw [strings_named, ← and_assoc, ← silent, ← whole, given, List.flatMap_append, List.flatMap_cons, own, surrounded_singleton]

def learnedBridge (requires : List Str) : LifInterface :=
  { ifname := str "br0"
    isBridge := true
    vars := [(str "use", .text (str "link")), (str "bridge-ports", .text (str "eth0")), (str "use", .text (str "bridge"))] ++
      requires.map fun names => (str "requires", .text names) }

theorem ports_seen_alone : named (str "IF_BRIDGE_PORTS")
    (buildEnvironmentStrings oneLibc {} (learnedBridge []) none (str "pre-up") (str "start")) =
      [str "IF_BRIDGE_PORTS" ++ str "=" ++ str "eth0"] :=
  (ports_seen oneLibc {} (learnedBridge []) none (str "pre-up") (str "start") [(str "use", .text (str "link"))]
    [(str "use", .text (str "bridge"))] (.text (str "eth0")) rfl (by decide)).mpr (by decide)

theorem ports_seen_requires :
    ¬ ∀ (libc : Libc) (opts : LifExecuteOpts) (iface : LifInterface) (lifname : Option Str) (phase mode : Str)
      (front behind : LifDict VarData) (data : VarData), iface.vars = front ++ (str "bridge-ports", data) :: behind →
      (∀ entry ∈ front ++ behind, entry.1 ≠ str "bridge-ports") →
      named (str "IF_BRIDGE_PORTS") (buildEnvironmentStrings libc opts iface lifname phase mode) =
        [str "IF_BRIDGE_PORTS" ++ str "=" ++ data.value] := by
  intro claim
  have seen := claim oneLibc {} (learnedBridge [str "vrf1 eth0 "]) none (str "pre-up") (str "start")
    [(str "use", .text (str "link"))] [(str "use", .text (str "bridge")), (str "requires", .text (str "vrf1 eth0 "))]
    (.text (str "eth0")) rfl (by decide)
  rw [strings_named] at seen
  exact absurd seen (by decide)

end Ifupdown
