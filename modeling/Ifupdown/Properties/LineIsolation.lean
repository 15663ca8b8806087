import Ifupdown.Parser.Isolation
import Ifupdown.Parser.Lockstep

/-! On what the lines of a file depend. -/
namespace Ifupdown

/-- Parses whose lines end in time do not part when their line buffers differ. -/
theorem isolated_lockstep (host : Host) (stack : Str → Buffer) : Lockstep host { host with stack := stack }
    (fun state state' => state'.clear = state.clear) Visit.Ends (fun _ => True) where
  handled same buffer buffer' ends := by
    obtain ⟨-, names, handled⟩ := @handleLine_isolated host _ _ _ _ _ same buffer buffer' ends
    have stacked := @handleLine_files host stack host.fopen
    refine ⟨names, fun _ _ => trivial, ?_⟩
    rw [stacked]
    revert handled
    generalize handleLine host skip _ = parsed, handleLine host skip _ = parsed'
    rcases parsed with _ | ⟨ok, next⟩ <;> rcases parsed' with _ | ⟨ok', next'⟩
    · exact fun _ => .none
    · exact fun alike => by cases alike
    · exact fun alike => by cases alike
    · intro alike
      obtain ⟨rfl, cleared⟩ : ok' = ok ∧ next'.clear = next.clear := by simpa using alike
      exact .some cleared
  load _ same := congrArg (fun state : ParseState => { state with curLineno := state.curLineno + 1 }) same
  known {state state' name} same _ := by
    have loaded : state'.clear.loaded = state.clear.loaded := by rw [same]
    exact congrArg (fun loaded => (lifDictFind loaded name).isSome) loaded
  found _ _ := rfl
  report err same := congrArg (fun state => reportError state err) same
  enter name same := congrArg (fun state : ParseState => { state with
    curFilename := name
    curLineno := 0
    loaded := lifDictAdd state.loaded name () }) same
  finalize same := by rw [finalize_clear, finalize_clear, same]; rfl
  leave {state state' old old'} same older := by
    have closed := congrArg (fun state : ParseState => (state.leave old).clear) same
    have places := congrArg (fun old : ParseState => (state'.leave old).clear) older
    exact places.trans closed

/-- The lines are handled in isolation just if each has what its handler asks for, and then the collection does not
depend on what the line buffers hold at first. -/
theorem lines_isolated (host : Host) (fuel : Nat) (state : ParseState) (filename : Str) :
    ((∀ visit ∈ visits host fuel state filename, visit.Isolated) ↔ ∀ visit ∈ visits host fuel state filename, visit.Ends) ∧
      ((∀ visit ∈ visits host fuel state filename, visit.Ends) → ∀ stack : Str → Buffer,
        (lifInterfaceFileParse { host with stack := stack } fuel state filename).map (Prod.map id ParseState.collection) =
          (lifInterfaceFileParse host fuel state filename).map (Prod.map id ParseState.collection)) := by
  constructor
  · refine forall₂_congr fun visit member => ?_
    obtain ⟨behind, buffer⟩ := visits_buffer host fuel state filename visit member
    exact isolated_iff buffer
  · intro ends stack
    have alike := parse_lockstep (isolated_lockstep host stack) rfl trivial ends
    revert alike
    generalize lifInterfaceFileParse host fuel state filename = parsed,
      lifInterfaceFileParse { host with stack := stack } fuel state filename = parsed'
    intro alike
    cases alike with
    | none => rfl
    | @some ok next next' cleared =>
      obtain ⟨linebuf, rfl⟩ := clear_exists cleared
      rfl

/-- An `iface` line with neither a newline nor a blank behind the name reads on behind its end. -/
theorem lines_isolated_staleHint :
    ¬ ∀ (host : Host) (fuel : Nat) (state : ParseState) (filename : Str) (stack : Str → Buffer),
      (lifInterfaceFileParse { host with stack := stack } fuel state filename).map (Prod.map id ParseState.collection) =
        (lifInterfaceFileParse host fuel state filename).map (Prod.map id ParseState.collection) := by
  intro claim
  have same := claim (oneFile "iface eth0") 2 {} (str "interfaces") fun _ => str "iface eth0 dhcp"
  have vars := congrArg (Option.map fun parsed => (parsed.2.iface (str "eth0")).vars) same
  revert vars
  decide +kernel

end Ifupdown
