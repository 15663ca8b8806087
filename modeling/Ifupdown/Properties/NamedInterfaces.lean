import Ifupdown.Parser.Lookups

/-! Which names the interfaces of a parsed file have. -/
namespace Ifupdown

/-- An `auto` line without a name inside a stanza. -/
def Visit.Nameless (visit : Visit) : Prop :=
  visit.state.kind = .keyword .auto ∧ visit.state.argument = [] ∧ visit.state.curIface ≠ none

/-- The name is `lo`, `defaults` or a word of one of the lines. -/
def Written (lines : List Visit) (name : Str) : Prop :=
  name = str "lo" ∨ name = str "defaults" ∨ ∃ visit ∈ lines, name ∈ visit.line.splitOnP endsWord

section
variable {host : Host} {state state' : ParseState} {lookup : Str × Nat}

theorem init_has {x : Str} : lifInterfaceCollectionInit.Has x ↔ x = str "lo" := by
  unfold lifInterfaceCollectionInit
  rw [write_has]
  simp

theorem wordCalls_solid {fuel p : Nat} {text : Str} {call : Str × Nat} (member : call ∈ wordCalls fuel p text) :
    Solid call.1 := by
  induction fuel generalizing p text with
  | zero => cases member
  | succ fuel ih =>
    unfold wordCalls at member
    rcases List.mem_cons.mp member with rfl | later
    · exact nextWord_solid text
    split at later
    · cases later
    · exact ih later

theorem hintTargets_call {calls : List (Str × Nat)} (member : lookup ∈ hintTargets calls) : lookup ∈ calls ∧ lookup.1 ≠ [] := by
  induction calls with
  | nil => cases member
  | cons call rest ih =>
    unfold hintTargets at member
    split at member
    · cases member
    split at member
    · rcases List.mem_append.mp member with here | later
      · obtain ⟨first, some_⟩ := List.mem_filter.mp here
        exact ⟨List.mem_cons_of_mem _ (List.mem_of_head? (Option.mem_toList.mp first)), of_decide_eq_true some_⟩
      · exact (ih later).imp_left (List.mem_cons_of_mem _)
    · exact (ih member).imp_left (List.mem_cons_of_mem _)

/-- Every name that is looked up comes from a token call, and only a nameless `auto` line looks up the empty one. -/
theorem lookups_call {line : Str} (member : lookup ∈ state.lookups) :
    lookup ∈ state.calls ∧ (lookup.1 = [] → Visit.Nameless ⟨line, state⟩) := by
  unfold ParseState.lookups at member
  split at member
  · rename_i kind
    obtain ⟨first, some_⟩ := List.mem_filter.mp member
    have some_ : (state.nextToken 0).1 ≠ [] := kind_token (by rw [kind]; simp)
    obtain ⟨last, later, calls⟩ := calls_argument some_
    rw [calls, List.head?_cons, Option.toList_some, List.mem_singleton] at first
    subst first
    rw [calls]
    exact ⟨List.mem_cons_self, fun none => ⟨kind, none, (of_decide_eq_true some_).resolve_left (not_not.mpr none)⟩⟩
  · obtain ⟨first, some_⟩ := List.mem_filter.mp member
    exact ⟨List.mem_of_head? (Option.mem_toList.mp first), fun none => absurd none (of_decide_eq_true some_).1⟩
  · split at member
    · obtain ⟨call, some_⟩ := hintTargets_call member
      exact ⟨call, fun none => absurd none some_⟩
    split at member
    · cases member
    rename_i name hints calls
    rw [calls]
    split at member
    · cases member
    rename_i some_
    rcases List.mem_cons.mp member with rfl | later
    · exact ⟨List.mem_cons_self, fun none => absurd none some_⟩
    · obtain ⟨call, some_⟩ := hintTargets_call later
      exact ⟨List.mem_cons_of_mem _ call, fun none => absurd none some_⟩
  · cases member

theorem nameless_lookup {visit : Visit} (nameless : visit.Nameless) : ∃ last, ([], last) ∈ visit.state.lookups := by
  obtain ⟨kind, none, inside⟩ := nameless
  have some_ : (visit.state.nextToken 0).1 ≠ [] := kind_token (by rw [kind]; simp)
  obtain ⟨last, later, calls⟩ := calls_argument some_
  refine ⟨last, ?_⟩
  unfold ParseState.lookups
  rw [kind]
  dsimp only
  rw [calls, none, List.head?_cons, Option.toList_some, List.filter_cons_of_pos (by simpa using inside)]
  exact List.mem_cons_self

theorem Quiet.has (quiet : Quiet host state state') (held : state.Held) :
    state'.Held ∧ ∀ x, state'.collection.Has x ↔ state.collection.Has x := by
  induction quiet with
  | refl => exact ⟨held, fun x => Iff.rfl⟩
  | tail _ step ih =>
    obtain ⟨held, has⟩ := ih
    cases step with
    | same alike =>
      unfold ParseState.Held
      rw [alike.curIface, alike.collection]
      exact ⟨held, has⟩
    | finalize =>
      obtain ⟨held, finalized⟩ := @finalize_has host _ held
      exact ⟨held, fun x => (finalized x).trans (has x)⟩

/-- A run makes the interfaces that its lines look up, and no others but `defaults`. -/
theorem Run.has {lines : List Visit} (run : Run host state lines state') (held : state.Held) {x : Str} (other : x ≠ str "defaults") :
    state'.collection.Has x ↔ state.collection.Has x ∨ ∃ visit ∈ lines, x ∈ visit.state.lookups.map Prod.fst := by
  induction run with
  | done quiet =>
    rw [(quiet.has held).2 x]
    simp
  | line quiet handled _ ih =>
    obtain ⟨held, has⟩ := quiet.has held
    obtain ⟨held, looked⟩ := handleLine_has handled held
    rw [ih held, looked x other, has x, or_assoc]
    simp

end

/-- The interfaces of a parsed file have non-empty names that are written in it just if no `auto` line inside a stanza
is nameless, and every name that is read from behind the end of its line is written somewhere. -/
theorem interfaces_named (host : Host) (fuel : Nat) (filename : Str) (ok : Bool) (state : ParseState)
    (parsed : lifInterfaceFileParse host fuel {} filename = some (ok, state)) :
    (lifDictKeys state.collection.entries).Nodup ∧ (∀ entry ∈ state.collection.entries, entry.2.ifname = entry.1) ∧
      ((∀ key ∈ lifDictKeys state.collection.entries,
          key ≠ [] ∧ Solid key ∧ Written (visits host fuel {} filename) key) ↔
        ∀ visit ∈ visits host fuel {} filename, ¬ visit.Nameless ∧ ∀ lookup ∈ visit.state.lookups,
          lookup.2 ≤ visit.line.length ∨ Written (visits host fuel {} filename) lookup.1) := by
  refine ⟨state.collection.distinct, state.collection.named, ?_⟩
  have start : ParseState.Held {} := by simp [ParseState.Held]
  have first (x : Str) : (ParseState.collection {}).Has x ↔ x = str "lo" := init_has
  have has {x : Str} (other : x ≠ str "defaults") := (parse_run parsed).has start other
  constructor
  · intro keys visit member
    have known (lookup : Str × Nat) (looks : lookup ∈ visit.state.lookups) (other : lookup.1 ≠ str "defaults") :
        lookup.1 ∈ lifDictKeys state.collection.entries :=
      (has other).mpr (Or.inr ⟨visit, member, List.mem_map_of_mem looks⟩)
    constructor
    · intro nameless
      obtain ⟨last, looks⟩ := nameless_lookup nameless
      have other : ([] : Str) ≠ str "defaults" := by decide
      exact (keys [] (known ([], last) looks other)).1 rfl
    · intro lookup looks
      by_cases defaults : lookup.1 = str "defaults"
      · exact Or.inr (Or.inr (Or.inl defaults))
      · exact Or.inr (keys lookup.1 (known lookup looks defaults)).2.2
  · intro lines key member
    by_cases defaults : key = str "defaults"
    · subst defaults
      exact ⟨by decide, by decide, Or.inr (Or.inl rfl)⟩
    rcases (has defaults).mp member with lo | ⟨visit, visited, name⟩
    · rw [first] at lo
      subst lo
      exact ⟨by decide, by decide, Or.inl rfl⟩
    obtain ⟨lookup, looks, rfl⟩ := List.mem_map.mp name
    obtain ⟨named, written⟩ := lines visit visited
    obtain ⟨call, nameless⟩ : _ ∧ (_ → Visit.Nameless ⟨visit.line, visit.state⟩) := lookups_call looks
    have call := List.mem_of_mem_tail call
    refine ⟨fun none => named (nameless none), wordCalls_solid call, (written lookup looks).elim (fun inside => ?_) id⟩
    obtain ⟨behind, buffer⟩ := visits_buffer host fuel {} filename visit visited
    rw [buffer] at call
    exact Or.inr (Or.inr ⟨visit, visited, wordCalls_words call (by omega)⟩)

instance (visit : Visit) : Decidable visit.Nameless := inferInstanceAs (Decidable (_ ∧ _ ∧ _))

instance (lines : List Visit) (name : Str) : Decidable (Written lines name) :=
  inferInstanceAs (Decidable (_ ∨ _ ∨ ∃ visit ∈ lines, name ∈ visit.line.splitOnP endsWord))

/-- An interface that inherits from a template, and one that is only marked. -/
def namedLines : Host := oneFile "template base\niface eth0 inherits base\nauto eth1\n"

theorem interfaces_named_lines :
    lifInterfaceFileParse namedLines 2 {} (str "interfaces") = some (true, namedLines.read) ∧
      ∀ key ∈ lifDictKeys namedLines.read.collection.entries,
        key ≠ [] ∧ Solid key ∧ Written (visits namedLines 2 {} (str "interfaces")) key := by
  have parsed : lifInterfaceFileParse namedLines 2 {} (str "interfaces") = some (true, namedLines.read) :=
    read_parsed (by decide +kernel)
  have lines : ∀ visit ∈ visits namedLines 2 {} (str "interfaces"), ¬ visit.Nameless ∧ ∀ lookup ∈ visit.state.lookups,
      lookup.2 ≤ visit.line.length ∨ Written (visits namedLines 2 {} (str "interfaces")) lookup.1 := by decide +kernel
  exact ⟨parsed, (interfaces_named namedLines 2 (str "interfaces") true namedLines.read parsed).2.2.mpr lines⟩

/-- A stanza whose `auto` line lacks the name. -/
def namelessAuto : Host := oneFile "iface eth0\nauto\n"

theorem interfaces_named_namelessAuto :
    ¬ ∀ (host : Host) (fuel : Nat) (filename : Str) (state : ParseState),
      lifInterfaceFileParse host fuel {} filename = some (true, state) →
      ∀ key ∈ lifDictKeys state.collection.entries, key ≠ [] := by
  intro claim
  have parsed : lifInterfaceFileParse namelessAuto 2 {} (str "interfaces") = some (true, namelessAuto.read) :=
    read_parsed (by decide +kernel)
  have member : [] ∈ lifDictKeys namelessAuto.read.collection.entries := by decide +kernel
  exact claim namelessAuto 2 (str "interfaces") namelessAuto.read parsed [] member rfl

end Ifupdown
