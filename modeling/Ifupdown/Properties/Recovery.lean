import Ifupdown.Session.Forced
import Ifupdown.Session.Stanzas
import Ifupdown.Resolver.Recovery
import Ifupdown.Resolver.VisitOnce

/-! `ifdown --force` after an `ifup` that has failed, as the init script has it. -/
namespace Ifupdown

open Successors

/-- Interfaces that were configured before keep their counts and are not taken down. -/
def Unharmed (sys between after : System) : Prop :=
  ∀ d, 0 < sys.refcount d → after.refcount d = sys.refcount d ∧
    ∀ phase ∈ downPhases, d ∉ starts phase (after.trace.drop between.trace.length)

/-- How an `ifup` fails: `f` does, or is a template, or nothing is run. -/
def FailsAt (G : DepGraph Str) (c : Str → Nat) (iface : Str) (fails : List Str) (stack : List (Str × List Str)) : Prop :=
  (∃ f, (fails = [f] ∧ G.template f = false ∨ fails = [] ∧ G.template f = true) ∧ Halts G c f [] iface stack) ∨
    fails = [] ∧ stack = [(iface, [])]

theorem ifup_fails (name : Name iface) (plain : opts.force = false) (sound : sys.saved.Sound)
    (failed : (ifupdownMain env opts interfaces (upCommand iface) sys).1 = false) {between : System}
    (main : (ifupdownMain env opts interfaces (upCommand iface) sys).2 = between) :
    between.saved.Sound ∧
      (∀ opts', (between.load interfaces).collection.graph opts' = (sys.load interfaces).collection.graph opts') ∧
      ∃ stack entered up, FailsAt ((sys.load interfaces).collection.graph opts) sys.refcount iface
          (failures (between.trace.drop sys.trace.length)) stack ∧
        Halfway (((sys.load interfaces).collection.graph opts).upTo stack) sys.refcount iface stack entered up
          between.refcount := by
  subst main
  by_cases able : Able env opts interfaces sys iface
  · have ready := load_ready sound interfaces
    have main : ifupdownMain env opts interfaces (upCommand iface) sys = _ := single_able name able true
    rcases result : changeInterface env opts (sys.load interfaces) iface iface true true with ⟨ok, w⟩
    have changed := changeInterface_changed plain ready.pending result
    rw [result] at main
    rw [main] at failed ⊢
    obtain rfl : ok = false := failed
    have fresh (x : Str) (zero : (sys.load interfaces).count x = 0) :
        ((sys.load interfaces).collection.iface x).isExplicit = (interfaces.collection.iface x).isExplicit := load_explicit sound zero
    cases changed with
    | untouched =>
      refine ⟨ready_sound ready, fun _ => reload_graph ready (fun _ _ => rfl) fresh, [(iface, [])], {iface}, ∅, Or.inr ⟨?_, rfl⟩, ?_⟩
      · rw [show (sys.load interfaces).save.trace = sys.trace from rfl, List.drop_length]
        rfl
      · rw [save_refcount ready, load_count sound]
        exact progress_start
    | up _ _ run =>
      have after := follows_up_ready ready name.short run
      obtain ⟨ev, run, evolves⟩ := run
      rw [load_count sound] at run
      have explicit (x) : (w.collection.iface x).isExplicit = ((sys.load interfaces).collection.iface x).isExplicit :=
        show (w.collection.iface x).config.isExplicit = _ by rw [evolves.config x]; rfl
      obtain ⟨f, stack, cause, halts, progress⟩ := up_progress run
      refine ⟨ready_sound after, fun _ => reload_graph after (fun x _ => explicit x) fun x zero => fresh x ?_,
        stack, ups ev ∪ (stack.map Prod.fst).toFinset, ups ev, Or.inl ⟨f, ?_, halts⟩, ?_⟩
      · have low := up_mono run x
        have zero : w.count x = 0 := zero
        rw [load_count sound]
        omega
      · rw [show w.save.trace = w.trace from rfl, evolves.trace, show (sys.load interfaces).trace = sys.trace from rfl, List.drop_left]
        exact cause
      · rw [save_refcount after]
        exact progress
  · rw [show (ifupdownMain env opts interfaces (upCommand iface) sys).2 = sys from (single_unable name sound true able).1]
    refine ⟨sound, fun _ => rfl, [(iface, [])], {iface}, ∅, Or.inr ⟨?_, rfl⟩, progress_start⟩
    rw [List.drop_length]
    rfl

theorem forced_covers (force : opts'.force = true) (collection : Collection) {c : Str → Nat} {fails : List Str}
    {stack : List (Str × List Str)} (halt : FailsAt (collection.graph opts) c iface fails stack) (u : Str) :
    (((collection.graph opts).upTo stack).req u).Sublist ((collection.graph opts').req u) := by
  have parts : ∀ entry ∈ stack, entry.2.Sublist ((collection.graph opts).req entry.1) := by
    rcases halt with ⟨f, -, halts⟩ | ⟨-, rfl⟩
    · exact halts.sublist
    · exact List.forall_mem_singleton.mpr (List.nil_sublist _)
  have more : ((collection.graph opts).req u).Sublist ((collection.graph opts').req u) := by
    refine List.monotone_filter_right _ fun d _ => ?_
    rw [Collection.usable, force]
    simp
  exact (upTo_sublist parts u).trans more

/-- `tun0` needs `eth0`, and does not come up itself. -/
def brokenTunnel : Interfaces :=
  interfacesFile [(str "tun0", [(str "requires", str "eth0"), (str "up", str "fail")]), (str "eth0", [])]
    (by decide) (by decide) (by decide)

def uplinkUp : System := runSession brokenTunnel [ifup ["eth0"]] freshSystem

/-- `br0` and `tun0` share the port `eth1`, and the other port of `tun0` does not come up. -/
def halfTunnel : Interfaces :=
  interfacesFile [(str "br0", [(str "requires", str "eth1")]), (str "tun0", [(str "requires", str "eth0 eth1")]),
    (str "eth0", [(str "up", str "fail")]), (str "eth1", [])] (by decide) (by decide) (by decide)

def halfTunnelUp : System := runSession halfTunnel [ifup ["br0"]] freshSystem

end Ifupdown
