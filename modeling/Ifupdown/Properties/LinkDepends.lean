import Ifupdown.Executors.Link

/-! The devices that the link executor makes, and those that it says they depend on. -/
namespace Ifupdown

def LinkDevice.needs : LinkDevice → Option Str
  | .dummy => none
  | .veth peer => peer
  | .vlan rawDevice .. => some rawDevice

def dependLine : Option Str → Str
  | none => []
  | some name => name ++ str "\n"

section
variable {shell : Shell} {env vlan : LinkEnvironment}

theorem dependLine_inj {a b : Option Str} : dependLine a = dependLine b ↔ a = b := by
  have line : str "\n" ≠ [] := by decide
  unfold dependLine
  cases a <;> cases b <;> simp [line]

@[simp] theorem vlanDevice_needs : (vlanDevice shell env).needs = some env.vlanRawDevice := by
  unfold vlanDevice
  split <;> rfl

theorem depend_vlan (given : isVlan env = some vlan) : linkDepend env = dependLine (some vlan.vlanRawDevice) := by
  rw [linkDepend, given]
  rfl

theorem depend_other (other : isVlan env = none) : linkDepend env =
    dependLine (if env.linkType = str "veth" ∧ env.vethPeerName ≠ [] then some env.vethPeerName else none) := by
  rw [linkDepend, other]
  dsimp only
  split <;> rfl

theorem depends_created {device : Option LinkDevice} (created : linkCreate shell env = .ok device) :
    (∀ device, linkCreate shell env = .ok device → linkDepend env = dependLine (device.bind LinkDevice.needs)) ↔
      linkDepend env = dependLine (device.bind LinkDevice.needs) := by
  constructor
  · intro depends
    exact depends device created
  · intro depends device' made
    rw [created] at made
    cases made
    exact depends

theorem create_dummy (new : shell.isDir (sysClassNet env.iface) = false) (dummy : env.linkType = str "dummy") :
    linkCreate shell env = .ok (some .dummy) := by
  unfold linkCreate
  rw [new, if_neg (by simp), if_pos dummy]

theorem create_veth (new : shell.isDir (sysClassNet env.iface) = false) (veth : env.linkType = str "veth") :
    linkCreate shell env = .ok (some (.veth (if env.vethPeerName = [] then none else some env.vethPeerName))) := by
  have other : env.linkType ≠ str "dummy" := by
    rw [veth]
    decide
  unfold linkCreate
  rw [new, if_neg (by simp), if_neg other, if_pos veth]

theorem create_vlan (new : shell.isDir (sysClassNet env.iface) = false) (dummy : env.linkType ≠ str "dummy")
    (veth : env.linkType ≠ str "veth") {device : Option LinkDevice} (made : linkCreate shell env = .ok device) :
    device = (isVlan env).map (vlanDevice shell) := by
  unfold linkCreate at made
  rw [new, if_neg (by simp), if_neg dummy, if_neg veth] at made
  cases given : isVlan env with
  | none =>
    rw [given] at made
    cases made
    rfl
  | some vlan =>
    rw [given] at made
    dsimp only at made
    split at made
    · cases made
    · cases made
      rfl

end

/-- The executor prints what the device depends on that it makes just if the name and the options make no VLAN, or the link type asks
for nothing else, but for a veth whose peer is the raw device. -/
theorem link_depends (shell : Shell) (env : LinkEnvironment) (new : shell.isDir (sysClassNet env.iface) = false) :
    (∀ device, linkCreate shell env = .ok device → linkDepend env = dependLine (device.bind LinkDevice.needs)) ↔
      ∀ vlan, isVlan env = some vlan → env.linkType ≠ str "dummy" ∧
        (env.linkType = str "veth" → env.vethPeerName ≠ [] ∧ vlan.vlanRawDevice = env.vethPeerName) := by
  have types : str "dummy" ≠ str "veth" := by decide
  by_cases dummy : env.linkType = str "dummy"
  · rw [depends_created (create_dummy new dummy)]
    cases given : isVlan env with
    | none =>
      rw [depend_other given, dependLine_inj, if_neg (by simp [dummy, types])]
      simp [LinkDevice.needs]
    | some vlan =>
      rw [depend_vlan given, dependLine_inj]
      simp [dummy, LinkDevice.needs]
  by_cases veth : env.linkType = str "veth"
  · rw [depends_created (create_veth new veth)]
    cases given : isVlan env with
    | none =>
      rw [depend_other given, dependLine_inj]
      by_cases peer : env.vethPeerName = [] <;> simp [veth, peer, LinkDevice.needs]
    | some vlan =>
      rw [depend_vlan given, dependLine_inj]
      by_cases peer : env.vethPeerName = [] <;> simp [veth, peer, types.symm, LinkDevice.needs]
  · have whole : ∀ device, linkCreate shell env = .ok device → linkDepend env = dependLine (device.bind LinkDevice.needs) := by
      intro device made
      rw [create_vlan new dummy veth made]
      cases given : isVlan env with
      | none =>
        rw [depend_other given, if_neg (by simp [veth])]
        rfl
      | some vlan =>
        rw [depend_vlan given]
        simp
    exact iff_of_true whole fun _ _ => ⟨dummy, fun type => absurd type veth⟩

theorem link_destroyed {shell shell' : Shell} {env : LinkEnvironment} {device : LinkDevice}
    (made : linkCreate shell env = .ok (some device)) (there : shell'.isDir (sysClassNet env.iface) = true) :
    linkDestroy shell' env = true := by
  unfold linkDestroy
  rw [there, Bool.true_and]
  unfold linkCreate at made
  split at made
  · cases made
  split at made
  · rename_i dummy
    simp [dummy]
  split at made
  · rename_i veth
    simp [veth]
  · cases given : isVlan env with
    | none =>
      rw [given] at made
      cases made
    | some vlan => simp

def oneDevice : Shell where
  isDir path := path == sysClassNet (str "eth0")
  fields := lifTokens
  lower words := words.flatten

theorem link_depends_guessed :
    linkDepend { iface := str "eth0.8" } = dependLine ((some (vlanDevice oneDevice
      { iface := str "eth0.8", vlanRawDevice := str "eth0", vlanId := str "8" })).bind LinkDevice.needs) :=
  (link_depends oneDevice { iface := str "eth0.8" } (by decide)).mpr (by decide) _ (by decide)

theorem link_depends_dummy :
    ¬ ∀ (shell : Shell) (env : LinkEnvironment), shell.isDir (sysClassNet env.iface) = false →
      ∀ device, linkCreate shell env = .ok device → linkDepend env = dependLine (device.bind LinkDevice.needs) := by
  intro claim
  have wrong := claim oneDevice { iface := str "eth0.8", linkType := str "dummy" } (by decide) (some .dummy) (by decide)
  exact absurd wrong (by decide)

end Ifupdown
