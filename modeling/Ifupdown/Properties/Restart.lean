import Ifupdown.Session.Requests
import Ifupdown.Session.Single
import Ifupdown.Session.Stanzas
import Ifupdown.Properties.StateRoundTrip
import Mathlib.Logic.Relator

/-! What the state file says of the interfaces after a restart is what the process knew of them. -/
namespace Ifupdown

def StateDict.countsOf (state : StateDict) (x : Str) : List Nat :=
  (state.records.filter (fun entry => entry.2.mappedIf = x)).map (fun entry => entry.2.refcount)

/-- The records and the counts say the same, and the records of names in `named` only. -/
structure Books.Consistent (named : Str → Str → Prop) (books : Books) : Prop where
  named : ∀ entry ∈ books.state.records, named entry.1 entry.2.mappedIf
  counted : ∀ entry ∈ books.state.records,
    entry.2.refcount = books.count entry.2.mappedIf ∧ 0 < entry.2.refcount
  recorded : ∀ x, 0 < books.count x → ∃ entry ∈ books.state.records, entry.2.mappedIf = x

section
variable {named : Str → Str → Prop} {books : Books} {k x : Str}

theorem Books.Consistent.apart (consistent : books.Consistent named) (unique : Relator.BiUnique named) (write : named k x)
    {entry : Str × LifStateRecord} (member : entry ∈ books.state.records) : entry.1 ≠ k ↔ entry.2.mappedIf ≠ x := by
  have own := consistent.named entry member
  constructor
  · intro other same
    rw [same] at own
    exact other (unique.1 own write)
  · intro other same
    rw [same] at own
    exact other (unique.2 own write)

theorem consistent_write (flag : Bool) (unique : Relator.BiUnique named) (write : named k x) (consistent : books.Consistent named)
    {after : Books} (others : ∀ y, y ≠ x → after.count y = books.count y)
    (records : ∀ entry, entry ∈ after.state.records ↔ (entry ∈ books.state.records ∧ entry.1 ≠ k) ∨
      (0 < after.count x ∧ entry = (k, ⟨x, after.count x, flag⟩))) : after.Consistent named where
  named entry member := by
    rcases (records entry).mp member with ⟨before, -⟩ | ⟨-, rfl⟩
    · exact consistent.named entry before
    · exact write
  counted entry member := by
    rcases (records entry).mp member with ⟨before, other⟩ | ⟨positive, rfl⟩
    · rw [others _ ((consistent.apart unique write before).mp other)]
      exact consistent.counted entry before
    · exact ⟨rfl, positive⟩
  recorded y counted := by
    by_cases same : y = x
    · subst same
      exact ⟨_, (records _).mpr (Or.inr ⟨counted, rfl⟩), rfl⟩
    · rw [others y same] at counted
      obtain ⟨entry, member, rfl⟩ := consistent.recorded y counted
      exact ⟨entry, (records entry).mpr (Or.inl ⟨member, (consistent.apart unique write member).mpr same⟩), rfl⟩

theorem consistent_post (unique : Relator.BiUnique named) (write : named k x) (consistent : books.Consistent named)
    (up : Bool) : (books.post up (k, x)).Consistent named := by
  cases up with
  | true =>
    refine consistent_write (books.explicit x) unique write consistent (fun y other => ?_) fun entry => ?_
    · show ref books.count x y = books.count y
      rw [ref_apply, if_neg other]
      rfl
    · have own : (books.post true (k, x)).count x = books.count x + 1 := ref_self books.count x
      rw [own]
      exact mem_upsert.trans (or_congr_right (by simp [Books.iface]))
  | false =>
    by_cases zero : books.count x = 0
    · rwa [post_uncounted zero]
    have own : (books.post false (k, x)).count x = books.count x - 1 := unref_self books.count x
    refine consistent_write (books.explicit x) unique write consistent (fun y other => ?_) fun entry => ?_
    · show unref books.count x y = books.count y
      rw [unref_apply, if_neg other]
      rfl
    · rw [own]
      have positive : (books.iface x).refcount ≠ 0 := zero
      simp only [Books.post, lifStateUnrefIf, Bool.false_eq_true, if_false, if_neg positive]
      by_cases last : books.count x - 1 = 0
      · rw [if_pos (show (books.iface x).refcount - 1 = 0 from last), last]
        simpa using mem_delete
      · rw [if_neg (show ¬ (books.iface x).refcount - 1 = 0 from last)]
        exact mem_upsert.trans (or_congr_right (by simp [Books.iface, Nat.pos_of_ne_zero last]))

theorem consistent_mark (unique : Relator.BiUnique named) (write : named k x) (counted : 0 < books.count x)
    (consistent : books.Consistent named) : (books.mark k x).Consistent named := by
  refine consistent_write true unique write consistent (fun _ _ => rfl) fun entry => ?_
  exact mem_upsert.trans (or_congr_right (by simp [Books.iface, Books.mark, counted]))

theorem consistent_congr {after : Books} (state : after.state = books.state) (count : after.count = books.count)
    (consistent : books.Consistent named) : after.Consistent named where
  named := by
    rw [state]
    exact consistent.named
  counted := by
    rw [state, count]
    exact consistent.counted
  recorded := by
    rw [state, count]
    exact consistent.recorded

/-- An interface gets the refcount that its records agree on. -/
theorem sync_count {records : LifDict LifStateRecord} {n : Nat} (collection : Collection)
    (agree : ∀ entry ∈ records, entry.2.mappedIf = x → entry.2.refcount = n) :
    ((records.foldl (fun collection entry => syncRecord collection entry.2) collection).iface x).refcount =
      if ∃ entry ∈ records, entry.2.mappedIf = x then n else (collection.iface x).refcount := by
  induction records generalizing collection with
  | nil => simp
  | cons entry rest ih =>
    obtain ⟨head, tail⟩ := List.forall_mem_cons.mp agree
    rw [List.foldl_cons, ih (syncRecord collection entry.2) tail, syncRecord, iface_write]
    by_cases later : ∃ entry ∈ rest, entry.2.mappedIf = x
    · obtain ⟨other, member, same⟩ := later
      rw [if_pos ⟨other, member, same⟩, if_pos ⟨other, List.mem_cons_of_mem _ member, same⟩]
    · rw [if_neg later]
      by_cases same : entry.2.mappedIf = x
      · rw [if_pos same, if_pos ⟨entry, List.mem_cons_self, same⟩]
        exact head same
      · rw [if_neg same, if_neg]
        intro found
        obtain ⟨other, member, same'⟩ := found
        rcases List.mem_cons.mp member with rfl | member
        · exact same same'
        · exact later ⟨other, member, same'⟩

/-- What is loaded is what was counted. -/
theorem consistent_reload (consistent : books.Consistent named) (interfaces : Interfaces) (x : Str) :
    ((lifStateSync books.state interfaces.collection).iface x).refcount = books.count x := by
  have agree : ∀ entry ∈ books.state.records, entry.2.mappedIf = x → entry.2.refcount = books.count x := by
    intro entry member same
    rw [← same]
    exact (consistent.counted entry member).1
  rw [lifStateSync, sync_count interfaces.collection agree]
  split
  · rfl
  · rename_i none
    rw [(interfaces_idle interfaces x).1]
    by_contra counted
    exact none (consistent.recorded x (by omega))

theorem entry_unique {dict : LifDict α} (distinct : (lifDictKeys dict).Nodup) {a b : Str × α} (ha : a ∈ dict) (hb : b ∈ dict)
    (key : a.1 = b.1) : a = b := by
  have found := lifDictFind_of_mem distinct ha
  rw [key, lifDictFind_of_mem distinct hb] at found
  exact Prod.ext key (Option.some.inj found).symm

theorem consistent_countsOf (unique : Relator.BiUnique named) (consistent : books.Consistent named) (x : Str) :
    books.state.countsOf x = if books.count x = 0 then [] else [books.count x] := by
  unfold StateDict.countsOf
  have distinct : (books.state.records.filter (fun entry => entry.2.mappedIf = x)).Nodup :=
    (List.Nodup.of_map _ books.state.distinct).filter _
  have listed : ∀ entry ∈ books.state.records.filter (fun entry => entry.2.mappedIf = x),
      entry ∈ books.state.records ∧ entry.2.mappedIf = x := by
    intro entry member
    simpa using member
  split
  · rename_i zero
    rw [List.map_eq_nil_iff, List.eq_nil_iff_forall_not_mem]
    intro entry member
    obtain ⟨recorded, same⟩ := listed entry member
    have counted := consistent.counted entry recorded
    rw [same] at counted
    omega
  · rename_i positive
    obtain ⟨entry, recorded, same⟩ := consistent.recorded x (Nat.pos_of_ne_zero positive)
    have only : books.state.records.filter (fun entry => entry.2.mappedIf = x) = [entry] := by
      refine List.perm_singleton.mp ((List.perm_ext_iff_of_nodup distinct (List.nodup_singleton _)).mpr fun other => ?_)
      rw [List.mem_singleton]
      constructor
      · intro member
        obtain ⟨recorded', same'⟩ := listed other member
        have key : other.1 = entry.1 := by
          by_contra apart
          exact (consistent.apart unique (consistent.named entry recorded) recorded').mp apart (same'.trans same.symm)
        exact entry_unique books.state.distinct recorded' recorded key
      · intro same'
        rw [same']
        simpa using ⟨recorded, same⟩
    rw [only, List.map_singleton, (consistent.counted entry recorded).1, same]

end

/-- The books can be told from the state alone: every record has its own interface. -/
def Books.Faithful (books : Books) : Prop := ∃ named, Relator.BiUnique named ∧ books.Consistent named

/-- Each name that the records or the call use stands for one interface, which has no other name. -/
def Request.Apart (r : Request) : Prop :=
  Relator.BiUnique fun k x => r.before.state.mapped k = some x ∨ r.Writes k x

theorem request_faithful {r : Request} (pending : r.before.Pending []) (apart : r.Apart)
    (faithful : r.before.books.Faithful) : r.result.2.books.Faithful := by
  obtain ⟨_, -, consistent⟩ := faithful
  refine ⟨_, apart, request_invariant r pending (fun books k x writes before => ?_) (fun books writes counted before => ?_) ?_⟩
  · exact consistent_post apart (Or.inr writes) before r.up
  · exact consistent_mark apart (Or.inr writes) counted before
  · exact ⟨fun entry member => Or.inl (mapped_of_mem member), consistent.counted, consistent.recorded⟩

theorem load_faithful {w : World} (faithful : w.books.Faithful) (interfaces : Interfaces) :
    (w.save.load interfaces).books.Faithful := by
  obtain ⟨named, unique, consistent⟩ := faithful
  have same : (w.save.load interfaces).books.count = w.books.count :=
    funext fun x => consistent_reload consistent interfaces x
  exact ⟨named, unique, consistent_congr (by exact rfl) same consistent⟩

theorem command_faithful {w : World} (pending : w.Pending []) (faithful : w.books.Faithful)
    (apart : ∀ r ∈ commandRequests env opts cmd w, r.Apart) : (changeInterfaces env opts cmd w).2.books.Faithful := by
  refine (command_invariant (p := fun w => w.Pending [] ∧ w.books.Faithful) (fun r member before => ?_)
    ⟨pending, faithful⟩).2
  exact ⟨request_pending r before.1, request_faithful before.1 (apart r member) before.2⟩

theorem session_faithful (interfaces : Interfaces) {session : List Invocation} (sys : System)
    (apart : ∀ r ∈ sessionRequests interfaces session sys, r.Apart) (start : (sys.load interfaces).books.Faithful) :
    ((runSession interfaces session sys).load interfaces).books.Faithful := by
  induction session generalizing sys with
  | nil => exact start
  | cons inv rest ih =>
    unfold sessionRequests at apart
    refine ih (runInvocation interfaces sys inv) (fun r member => apart r (List.mem_append_right _ member)) ?_
    unfold runInvocation ifupdownMain updateStateFileAndExit
    split
    · exact start
    by_cases mock : inv.opts.mock = true
    · simp only [mock, if_true]
      exact start
    · simp only [mock, if_false, Bool.false_eq_true]
      exact load_faithful (command_faithful (load_pending sys interfaces) start
        fun r member => apart r (List.mem_append_left _ (by rwa [if_neg mock]))) interfaces

theorem fresh_faithful (interfaces : Interfaces) : (freshSystem.load interfaces).books.Faithful := by
  refine ⟨fun _ _ => False, ⟨fun _ _ _ h => h.elim, fun _ _ _ h => h.elim⟩, ?_, ?_, fun x counted => ?_⟩
  · intro entry member
    cases member
  · intro entry member
    cases member
  · have zero : (freshSystem.load interfaces).books.count x = 0 := (interfaces_idle interfaces x).1
    omega

/-- As long as the names that a call uses and those in the records stand for one interface each, and each
interface has one name, the saved state gives every interface the refcount that it had in memory. -/
theorem restart_consistent (interfaces : Interfaces) (session : List Invocation) (inv : Invocation)
    (real : inv.opts.mock = false)
    (apart : ∀ r ∈ sessionRequests interfaces (session ++ [inv]) freshSystem, r.Apart) :
    let before := runSession interfaces session freshSystem
    let memory := (changeInterfaces inv.env inv.opts inv.command (before.load interfaces)).2
    let saved := (runInvocation interfaces before inv).saved
    (∀ x, saved.countsOf x = if memory.count x = 0 then [] else [memory.count x]) ∧
      ((∀ entry ∈ saved.records, Writable entry.1 entry.2) → ∀ linebuf x,
        ((lifStateSync (lifStateRead linebuf StateDict.empty (lifStateWrite saved)) interfaces.collection).iface x).refcount =
          memory.count x) := by
  intro before memory saved
  rw [sessionRequests_append] at apart
  have start := session_faithful interfaces freshSystem (fun r member => apart r (List.mem_append_left _ member))
    (fresh_faithful interfaces)
  have faithful : memory.books.Faithful := by
    refine command_faithful (load_pending before interfaces) start fun r member => apart r (List.mem_append_right _ ?_)
    simpa [sessionRequests, real] using member
  obtain ⟨named, unique, consistent⟩ := faithful
  have state : saved = memory.books.state := runInvocation_saved real interfaces before
  refine ⟨fun x => ?_, fun writable linebuf x => ?_⟩
  · rw [state]
    exact consistent_countsOf unique consistent x
  · rw [state_round_trip linebuf saved writable, state]
    exact consistent_reload consistent interfaces x

/-- The records that a call finds, and those for the interface and for `names`, have different names
and different interfaces. -/
def Request.ApartOn (names : List Str) (r : Request) : Prop :=
  let pairs := r.before.state.records.map (fun entry => (entry.1, entry.2.mappedIf)) ++
    (r.lifname, r.iface) :: names.map (fun d => (d, d))
  (∀ i ∈ r.iface :: names, ∀ d ∈ (r.before.collection.graph r.opts).req i, d ∈ names) ∧
    ∀ a ∈ pairs, ∀ b ∈ pairs, a.1 = b.1 ↔ a.2 = b.2

instance (names : List Str) (r : Request) : Decidable (r.ApartOn names) := inferInstanceAs (Decidable (_ ∧ _))

/-- It is enough to look at the names that the interface requires, directly or not. -/
theorem apartOn_apart {names : List Str} {r : Request} (h : r.ApartOn names) : r.Apart := by
  obtain ⟨closed, unique⟩ := h
  have reached : ∀ {j}, Relation.ReflTransGen (Entered (r.before.collection.graph r.opts) r.up r.before.count) r.iface j →
      j ∈ r.iface :: names := by
    intro j walk
    induction walk with
    | refl => exact List.mem_cons_self
    | tail _ edge ih => exact List.mem_cons_of_mem _ (closed _ ih _ edge.1)
  have listed : ∀ {k x}, r.before.state.mapped k = some x ∨ r.Writes k x →
      (k, x) ∈ r.before.state.records.map (fun entry => (entry.1, entry.2.mappedIf)) ++
        (r.lifname, r.iface) :: names.map (fun d => (d, d)) := by
    intro k x related
    obtain record | ⟨-, rfl, rfl⟩ | ⟨-, -, ⟨rfl, rfl⟩ | ⟨rfl, j, walk, required⟩⟩ := related
    · obtain ⟨rec, found, rfl⟩ := Option.map_eq_some_iff.mp record
      exact List.mem_append_left _ (List.mem_map.mpr ⟨_, lifDictFind_mem found, rfl⟩)
    · exact List.mem_append_right _ List.mem_cons_self
    · exact List.mem_append_right _ List.mem_cons_self
    · exact List.mem_append_right _ (List.mem_cons_of_mem _ (List.mem_map_of_mem (closed j (reached walk) k required)))
  exact ⟨fun a x b first second => (unique _ (listed first) _ (listed second)).mpr rfl,
    fun k a b first second => (unique _ (listed first) _ (listed second)).mp rfl⟩

/-- At home, the wireless card needs the wired one. -/
def homeNetwork : Interfaces :=
  interfacesFile [(str "home", [(str "requires", str "eth0")]), (str "eth0", [])] (by decide) (by decide) (by decide)

theorem restart_consistent_home :
    let before := runSession homeNetwork [ifup ["wlan0=home"], ifup ["eth0"]] freshSystem
    let memory := (changeInterfaces calm {} (ifdown ["wlan0"]).command (before.load homeNetwork)).2
    let saved := (runInvocation homeNetwork before (ifdown ["wlan0"])).saved
    (∀ x, saved.countsOf x = if memory.count x = 0 then [] else [memory.count x]) ∧
      ((∀ entry ∈ saved.records, Writable entry.1 entry.2) → ∀ linebuf x,
        ((lifStateSync (lifStateRead linebuf StateDict.empty (lifStateWrite saved)) homeNetwork.collection).iface x).refcount =
          memory.count x) := by
  have apart : ∀ r ∈ sessionRequests homeNetwork ([ifup ["wlan0=home"], ifup ["eth0"]] ++ [ifdown ["wlan0"]]) freshSystem,
      r.ApartOn [str "eth0"] := by decide
  exact restart_consistent homeNetwork _ (ifdown ["wlan0"]) rfl fun r member => apartOn_apart (apart r member)

/-- Brought up as `wlan0=home` and taken down as `home`, an interface is still in the state file. -/
theorem restart_inconsistent :
    ¬ ∀ (interfaces : Interfaces) (session : List Invocation) (inv : Invocation), inv.opts.mock = false →
      failures (runSession interfaces (session ++ [inv]) freshSystem).trace = [] →
      let before := runSession interfaces session freshSystem
      let memory := (changeInterfaces inv.env inv.opts inv.command (before.load interfaces)).2
      let saved := (runInvocation interfaces before inv).saved
      ∀ x, saved.countsOf x = if memory.count x = 0 then [] else [memory.count x] := by
  intro claim
  have result := claim homeNetwork [ifup ["wlan0=home"]] (ifdown ["home"]) rfl (by decide) (str "home")
  revert result
  decide

end Ifupdown
