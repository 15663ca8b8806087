import Ifupdown.Resolver.Nodes

/-! The reordering of the collection as a stable sort of its nodes. -/
namespace Ifupdown

open Segments Buckets

section
variable {A : Type} {m : EntryMemory A} {list : LifList A} {nodes others : List (A × Str × LifInterface)}

abbrev nodeDepth (node : A × Str × LifInterface) : Nat := node.2.2.rdependsCount

theorem ssize_small {n : Nat} (small : n < 2 ^ 63) : ssize n = n := by
  unfold ssize Int.bmod
  dsimp only
  split <;> omega

theorem ssize_large {n : Nat} (large : 2 ^ 63 ≤ n) (fits : n < 2 ^ 64) : ssize n < 0 := by
  unfold ssize Int.bmod
  dsimp only
  split <;> omega

theorem maxDepthNodes_eq {fuel : Nat} {before : Option A} (enough : nodes.length ≤ fuel) (seg : Seg m before nodes none) :
    maxDepthNodes m fuel (first nodes none) 0 = some (maxDepth (nodes.map Prod.snd)) := by
  have general {fuel least : Nat} {before : Option A} {nodes : List (A × Str × LifInterface)} (enough : nodes.length ≤ fuel)
      (seg : Seg m before nodes none) : maxDepthNodes m fuel (first nodes none) least =
        some ((nodes.map Prod.snd).foldl (fun maxdepth entry =>
          if entry.2.rdependsCount > maxdepth then entry.2.rdependsCount else maxdepth) least) := by
    induction nodes generalizing fuel least before with
    | nil => cases fuel <;> rfl
    | cons node nodes ih =>
      obtain ⟨a, name, iface⟩ := node
      obtain ⟨fuel, rfl⟩ : ∃ n, fuel = n + 1 := ⟨fuel - 1, by rw [List.length_cons] at enough; omega⟩
      have here := seg.1
      dsimp only [first]
      unfold maxDepthNodes
      rw [here]
      exact ih (Nat.le_of_succ_le_succ enough) seg.2
  exact general enough seg

theorem maxDepth_lt {entries : LifDict LifInterface} (below : ∀ entry ∈ entries, entry.2.rdependsCount < 2 ^ 63) :
    maxDepth entries < 2 ^ 63 := by
  have general (least : Nat) (start : least < 2 ^ 63) : entries.foldl (fun maxdepth entry =>
      if entry.2.rdependsCount > maxdepth then entry.2.rdependsCount else maxdepth) least < 2 ^ 63 := by
    induction entries generalizing least with
    | nil => exact start
    | cons entry entries ih =>
      obtain ⟨here, below⟩ := List.forall_mem_cons.mp below
      refine ih below _ ?_
      dsimp only
      split
      · exact here
      · exact start
  exact general 0 (by decide)

theorem swap_hold {s : TwoLists A (Str × LifInterface)} {xs ys : List (A × Str × LifInterface)} (hold : s.Hold xs ys) :
    TwoLists.Hold ⟨s.memory, s.target, s.source⟩ ys xs :=
  ⟨hold.target, hold.source, fun a here there => hold.apart a there here⟩

variable [DecidableEq A] {s : TwoLists A (Str × LifInterface)}

theorem pass_hold {fuel : Nat} (c : Nat) (small : ∀ node ∈ nodes, nodeDepth node < 2 ^ 63) (enough : nodes.length ≤ fuel)
    (hold : s.Hold nodes.reverse others) : ∃ s', foreachSafe (fun entry => ssize entry.2.rdependsCount = c) fuel s = some s' ∧
      s'.Hold (nodes.filter fun node => nodeDepth node ≠ c).reverse ((nodes.filter fun node => nodeDepth node = c) ++ others) := by
  obtain ⟨s', passed, held⟩ := @foreachSafe_hold _ _ nodes.reverse others _ s
    (fun entry => ssize entry.2.rdependsCount = c) fuel (by rwa [List.length_reverse]) hold
  refine ⟨s', passed, ?_⟩
  have depth {node : A × Str × LifInterface} (member : node ∈ nodes) : ssize node.2.2.rdependsCount = c ↔ nodeDepth node = c := by
    rw [ssize_small (small node member), Int.ofNat_inj]
  rw [List.filter_reverse, List.filter_reverse, List.reverse_reverse] at held
  have chosen : (nodes.filter fun node => decide (ssize node.2.2.rdependsCount = c)) = nodes.filter fun node => nodeDepth node = c :=
    List.filter_congr fun node member => decide_eq_decide.mpr (depth member)
  have left : (nodes.filter fun node => !decide (ssize node.2.2.rdependsCount = c)) = nodes.filter fun node => nodeDepth node ≠ c := by
    refine List.filter_congr fun node member => ?_
    rw [← decide_not]
    exact decide_eq_decide.mpr (not_congr (depth member))
  rwa [chosen, left] at held

/-- The passes put the buckets in front of what is there, the deepest first. -/
theorem readdNodes_hold {fuel rounds c : Nat} (small : ∀ node ∈ nodes, nodeDepth node < 2 ^ 63) (enough : nodes.length ≤ fuel)
    (lasts : c < rounds) (hold : s.Hold nodes.reverse others) :
    ∃ s' left, readdNodes fuel rounds c s = some s' ∧ s'.Hold left (buckets nodeDepth c nodes ++ others) := by
  induction c generalizing rounds nodes others s with
  | zero =>
    obtain ⟨rounds, rfl⟩ : ∃ n, rounds = n + 1 := ⟨rounds - 1, by omega⟩
    obtain ⟨s', passed, held⟩ := pass_hold 0 small enough hold
    refine ⟨s', (nodes.filter fun node => nodeDepth node ≠ 0).reverse, ?_, ?_⟩
    · unfold readdNodes
      rw [if_pos (by omega)]
      dsimp only
      rw [passed]
      cases rounds <;> rfl
    · simpa [buckets] using held
  | succ c ih =>
    obtain ⟨rounds, rfl⟩ : ∃ n, rounds = n + 1 := ⟨rounds - 1, by omega⟩
    obtain ⟨s', passed, held⟩ := pass_hold (c + 1) small enough hold
    have fewer : (nodes.filter fun node => nodeDepth node ≠ c + 1).length ≤ fuel :=
      Nat.le_trans (List.length_filter_le ..) enough
    obtain ⟨last, left, readded, whole⟩ := @ih _ _ s' rounds (fun node member => small node (List.mem_filter.mp member).1) fewer
      (by omega) held
    refine ⟨last, left, ?_, ?_⟩
    · unfold readdNodes
      rw [if_pos (by omega)]
      dsimp only
      rw [passed]
      have lower : ((c + 1 : Nat) : Int) - 1 = c := by omega
      dsimp only
      rw [lower]
      exact readded
    · rwa [buckets_filter, ← List.append_assoc, ← buckets_succ] at whole

theorem moved_hold {fuel : Nat} (holds : list.Holds m nodes) (enough : nodes.length ≤ fuel) :
    ∃ s, foreachSafe (fun _ => true) fuel ⟨m, list, {}⟩ = some s ∧ s.Hold [] nodes.reverse := by
  have start : TwoLists.Hold ⟨m, list, {}⟩ nodes ([] : List (A × Str × LifInterface)) := ⟨holds, holds_empty m, by simp⟩
  obtain ⟨s, moved, held⟩ := @foreachSafe_hold _ _ nodes [] _ _ (fun _ => true) fuel enough start
  exact ⟨s, moved, by simpa using held⟩

theorem reorderNodes_hold {fuel : Nat} (holds : list.Holds m nodes) (small : ∀ node ∈ nodes, nodeDepth node < 2 ^ 63)
    (enough : nodes.length ≤ fuel) (lasts : maxDepth (nodes.map Prod.snd) < fuel) :
    ∃ m' list', reorderNodes fuel m list = some (maxDepth (nodes.map Prod.snd), m', list') ∧
      list'.Holds m' (buckets nodeDepth (maxDepth (nodes.map Prod.snd)) nodes) := by
  have deepest : maxDepth (nodes.map Prod.snd) < 2 ^ 63 := by
    refine maxDepth_lt fun entry member => ?_
    obtain ⟨node, inside, rfl⟩ := List.mem_map.mp member
    exact small node inside
  obtain ⟨moved, move, held⟩ := moved_hold holds enough
  obtain ⟨last, left, readded, whole⟩ := readdNodes_hold small enough lasts (swap_hold held)
  refine ⟨last.memory, last.target, ?_, by simpa using whole.target⟩
  unfold reorderNodes
  rw [holds.head, maxDepthNodes_eq enough holds.seg]
  dsimp only
  rw [move]
  dsimp only
  rw [ssize_small deepest, readded]

/-- A depth that is no `ssize_t` leaves the collection empty. -/
theorem reorderNodes_lost {fuel : Nat} (holds : list.Holds m nodes) (large : 2 ^ 63 ≤ maxDepth (nodes.map Prod.snd))
    (fits : maxDepth (nodes.map Prod.snd) < 2 ^ 64) (enough : nodes.length ≤ fuel) :
    ∃ m' list', reorderNodes fuel m list = some (maxDepth (nodes.map Prod.snd), m', list') ∧ list'.Holds m' [] := by
  obtain ⟨moved, move, held⟩ := moved_hold holds enough
  have none : ¬ ssize (maxDepth (nodes.map Prod.snd)) > -1 := by
    have negative := ssize_large large fits
    omega
  refine ⟨moved.memory, moved.source, ?_, held.source⟩
  unfold reorderNodes
  rw [holds.head, maxDepthNodes_eq enough holds.seg]
  dsimp only
  rw [move]
  dsimp only
  unfold readdNodes
  rw [if_neg none]

/-- The reordering ends with the same nodes, in ascending order, and equal ones as they were. -/
def Reordered (m : EntryMemory A) (list : LifList A) (nodes : List (A × Str × LifInterface)) : Prop :=
  ∃ nodes' bound, nodes'.Perm nodes ∧ nodes'.Pairwise (Ahead nodeDepth nodes) ∧
    ∀ fuel, bound ≤ fuel → ∃ maxdepth m' list', reorderNodes fuel m list = some (maxdepth, m', list') ∧ list'.Holds m' nodes'

end

/-- The nodes of a collection are sorted by their depths, and stay in order where these are equal, if a signed size
can hold the depths. -/
theorem nodes_reordered {A : Type} [DecidableEq A] (m : EntryMemory A) (list : LifList A) (nodes : List (A × Str × LifInterface))
    (holds : list.Holds m nodes) (small : ∀ node ∈ nodes, nodeDepth node < 2 ^ 63) : Reordered m list nodes := by
  have bound : ∀ node ∈ nodes, nodeDepth node ≤ maxDepth (nodes.map Prod.snd) := fun node member =>
    le_maxDepth _ node.2 (List.mem_map_of_mem member)
  refine ⟨buckets nodeDepth (maxDepth (nodes.map Prod.snd)) nodes, nodes.length + maxDepth (nodes.map Prod.snd) + 1,
    buckets_perm bound, pairwise_buckets _ _, fun fuel enough => ?_⟩
  obtain ⟨m', list', reordered, sorted⟩ := @reorderNodes_hold _ _ _ _ _ fuel holds small (by omega) (by omega)
  exact ⟨_, m', list', reordered, sorted⟩

/-- A list with one node. -/
def oneNode (depth : Nat) : EntryMemory Nat × LifList Nat :=
  lifNodeInsertTail 0 (some (str "lo", { ifname := str "lo", rdependsCount := depth })) (fun _ => {}) {}

theorem oneNode_holds (depth : Nat) :
    (oneNode depth).2.Holds (oneNode depth).1 [(0, str "lo", { ifname := str "lo", rdependsCount := depth })] :=
  insertTail_holds (holds_empty _) (by simp) rfl rfl

def addNode (memory : EntryMemory Nat × LifList Nat) (a : Nat) (name : Str) (depth : Nat) : EntryMemory Nat × LifList Nat :=
  lifNodeInsertTail a (some (name, { ifname := name, rdependsCount := depth })) memory.1 memory.2

/-- Five interfaces, with the depths 2, 0, 2, 1 and 0. -/
def fiveNodes : EntryMemory Nat × LifList Nat :=
  addNode (addNode (addNode (addNode (addNode (fun _ => {}, {}) 0 (str "eth0") 2) 1 (str "lo") 0) 2 (str "eth1") 2)
    3 (str "bond0") 1) 4 (str "br0") 0

def fiveEntries : List (Nat × Str × LifInterface) :=
  [(0, str "eth0", { ifname := str "eth0", rdependsCount := 2 }), (1, str "lo", { ifname := str "lo", rdependsCount := 0 }),
    (2, str "eth1", { ifname := str "eth1", rdependsCount := 2 }), (3, str "bond0", { ifname := str "bond0", rdependsCount := 1 }),
    (4, str "br0", { ifname := str "br0", rdependsCount := 0 })]

theorem fiveNodes_holds : fiveNodes.2.Holds fiveNodes.1 fiveEntries :=
  ⟨by decide, rfl, rfl, rfl, rfl, rfl, rfl, rfl, rfl, trivial⟩

theorem nodes_reordered_five : Reordered fiveNodes.1 fiveNodes.2 fiveEntries :=
  nodes_reordered _ _ _ fiveNodes_holds (by decide)

example : (buckets nodeDepth 2 fiveEntries).map Prod.fst = [1, 4, 3, 0, 2] := by decide

theorem nodes_lost :
    ¬ ∀ (m : EntryMemory Nat) (list : LifList Nat) (nodes : List (Nat × Str × LifInterface)), list.Holds m nodes →
      Reordered m list nodes := by
  intro claim
  obtain ⟨nodes', bound, same, -, reordered⟩ := claim _ _ _ (oneNode_holds (2 ^ 63))
  obtain ⟨maxdepth, m', list', result, held⟩ := reordered (bound + 1) (Nat.le_succ bound)
  obtain ⟨m'', list'', empty, none⟩ := @reorderNodes_lost _ _ _ _ _ (bound + 1) (oneNode_holds (2 ^ 63)) (by decide) (by decide)
    (Nat.succ_le_succ (Nat.zero_le bound))
  rw [result] at empty
  cases empty
  have length := held.length
  rw [none.length, same.length_eq] at length
  cases length

end Ifupdown
