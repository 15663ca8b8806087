import Ifupdown.Parser.Visits

/-! The line buffer, which keeps its size. -/
namespace Ifupdown

variable {host : Host} {state state' : ParseState} {token ifname : Str} {p : Nat}

def Sized (state state' : ParseState) : Prop := state'.linebuf.length = state.linebuf.length

theorem nextToken_sized (state : ParseState) (p : Nat) : Sized state (state.nextToken p).2.2 := List.length_set

theorem find_sized (state : ParseState) (ifname : Str) : Sized state (state.find ifname) := rfl

theorem handleAddress_sized : Sized state (handleAddress host state token p) := by
  unfold handleAddress
  dsimp only
  split <;> exact nextToken_sized state p

theorem handleAuto_sized : Sized state (handleAuto host state p) := by
  unfold handleAuto
  dsimp only
  split <;> exact nextToken_sized state p

theorem handleGateway_sized : Sized state (handleGateway host state token p) := by
  unfold handleGateway
  dsimp only
  split <;> exact nextToken_sized state p

theorem handleGeneric_sized : Sized state (handleGeneric host state token p) := by
  unfold handleGeneric
  split
  · rfl
  · dsimp only
    split
    · rfl
    · split <;> rfl

theorem handleHostname_sized : Sized state (handleHostname host state token p) := by
  unfold handleHostname
  dsimp only
  split <;> exact nextToken_sized state p

theorem handleUse_sized : Sized state (handleUse host state token p) := by
  unfold handleUse
  dsimp only
  split <;> exact nextToken_sized state p

theorem inherit_sized {parent : Str} (h : state.inherit host ifname parent = some state') : Sized state state' := by
  obtain ⟨collection, -, rfl⟩ := Option.map_eq_some_iff.mp h
  rfl

theorem handleInherit_sized (h : handleInherit host state token p = some state') : Sized state state' := by
  unfold handleInherit at h
  dsimp only at h
  split at h
  · cases h
    exact nextToken_sized state p
  split at h
  · cases h
    exact nextToken_sized state p
  split at h
  · cases h
    exact nextToken_sized state p
  · exact (inherit_sized h).trans (nextToken_sized state p)

theorem hintLoop_sized {fuel : Nat} (h : hintLoop host ifname fuel state p = some state') : Sized state state' := by
  induction fuel generalizing state p with
  | zero => cases h
  | succ fuel ih =>
    have read := nextToken_sized state p
    unfold hintLoop at h
    dsimp only at h
    split at h
    · cases h
      exact read
    split at h
    · exact (ih h).trans read
    split at h
    · split at h
      · cases h
      · rename_i inherited
        exact (ih h).trans ((handleInherit_sized inherited).trans read)
    split at h
    · exact (ih h).trans read
    · exact (ih h).trans read

theorem entered_sized {bufp : Nat} {entered : ParseState} (h : (match hintLoop host ifname (entered.linebuf.length + 1) entered bufp with
    | none => none
    | some state =>
      let iface := state.collection.iface ifname
      if !iface.isTemplate && !iface.noDefaults then (state.find (str "defaults")).inherit host ifname (str "defaults")
      else some state) = some state') : Sized entered state' := by
  split at h
  · cases h
  · rename_i last hinted
    dsimp only at h
    split at h
    · exact (inherit_sized h).trans ((find_sized last (str "defaults")).trans (hintLoop_sized hinted))
    · cases h
      exact hintLoop_sized hinted

theorem handleIface_sized (h : handleIface host state token p = some state') : Sized state state' := by
  unfold handleIface at h
  have finalized (read : ParseState) : Sized read (read.finalize host) := by
    unfold ParseState.finalize
    split <;> rfl
  have marked (read : ParseState) (ifname : Str) (sized : Sized state read) :
      Sized state (if token = str "template" ∨ token = str "defaults" then
        ({ (read.finalize host).find ifname with curIface := some ifname } : ParseState).change host ifname .markTemplate
        else { (read.finalize host).find ifname with curIface := some ifname }) := by
    split <;> exact (finalized read).trans sized
  dsimp only at h
  split at h
  · split at h
    · cases h
      rfl
    · exact (entered_sized h).trans (marked _ _ rfl)
  · split at h
    · cases h
      exact nextToken_sized state p
    · exact (entered_sized h).trans (marked _ _ (nextToken_sized state p))

section
variable {parse : ParseState → Str → Option (Bool × ParseState)} {ok : Bool}

theorem includeLoop_sized (parses : ∀ {state name ok state'}, parse state name = some (ok, state') → Sized state state')
    {strict : Bool} {names : List Str} {fine : Bool} (h : includeLoop parse strict names fine state = some (ok, state')) :
    Sized state state' := by
  induction names generalizing state fine with
  | nil =>
    cases h
    rfl
  | cons name rest ih =>
    unfold includeLoop at h
    split at h
    · cases h
    rename_i parsed
    split at h
    · cases h
      exact parses parsed
    · exact (ih h).trans (parses parsed)

theorem handleSource_sized (parses : ∀ {state name ok state'}, parse state name = some (ok, state') → Sized state state')
    (h : handleSource host parse state p = some (ok, state')) : Sized state state' := by
  have read := nextToken_sized state p
  unfold handleSource at h
  dsimp only at h
  split at h
  · cases h
    exact read
  split at h
  · cases h
    exact read
  · cases h
    exact read
  split at h
  · rw [sourceLoop_include] at h
    exact (includeLoop_sized parses h).trans read
  · cases h
    exact read

theorem handleSourceDirectory_sized
    (parses : ∀ {state name ok state'}, parse state name = some (ok, state') → Sized state state')
    (h : handleSourceDirectory host parse state p = some (ok, state')) : Sized state state' := by
  have read := nextToken_sized state p
  unfold handleSourceDirectory at h
  dsimp only at h
  split at h
  · cases h
    exact read
  split at h
  · cases h
    exact read
  · rw [directoryLoop_include] at h
    exact (includeLoop_sized parses h).trans read

theorem handleLine_sized (parses : ∀ {state name ok state'}, parse state name = some (ok, state') → Sized state state')
    (h : handleLine host parse state = some (ok, state')) : Sized state state' := by
  have read := nextToken_sized state 0
  unfold handleLine at h
  dsimp only at h
  split at h
  · cases h
    exact read
  split at h
  · rename_i parserkw _
    cases parserkw with
    | address =>
      cases h
      exact handleAddress_sized.trans read
    | auto =>
      cases h
      exact handleAuto_sized.trans read
    | hostname =>
      cases h
      exact handleHostname_sized.trans read
    | gateway =>
      cases h
      exact handleGateway_sized.trans read
    | use =>
      cases h
      exact handleUse_sized.trans read
    | iface =>
      obtain ⟨last, handled, same⟩ := Option.map_eq_some_iff.mp h
      cases same
      exact (handleIface_sized handled).trans read
    | inherit =>
      obtain ⟨last, handled, same⟩ := Option.map_eq_some_iff.mp h
      cases same
      exact (handleInherit_sized handled).trans read
    | source => exact (handleSource_sized parses h).trans read
    | sourceDirectory => exact (handleSourceDirectory_sized parses h).trans read
  · cases h
    exact handleGeneric_sized.trans read

end

/-- A parse leaves the buffer of the file that it is called from. -/
theorem parse_sized {fuel : Nat} {filename : Str} {ok : Bool} (h : lifInterfaceFileParse host fuel state filename = some (ok, state')) :
    Sized state state' := by
  cases fuel with
  | zero => cases h
  | succ fuel =>
    unfold lifInterfaceFileParse at h
    split at h
    · cases h
      rfl
    split at h
    · cases h
      rfl
    · dsimp only at h
      split at h
      all_goals cases h
      all_goals rfl

theorem fgetlineLoop_bound {room : Nat} {quoted joined : Bool} {line : Str} (stream : Str) (bound : line.length ≤ room + 1) :
    (fgetlineLoop room quoted joined line stream).1.length ≤ room + 1 := by
  fun_induction fgetlineLoop room quoted joined line stream
  all_goals first
    | exact bound
    | (rename_i ih; apply ih; simp only [List.length_append]; split <;> simp <;> omega)
    | (simp only [List.length_append, List.length_singleton]; omega)
    | (rename_i ih; exact ih bound)
    | (rename_i ih; apply ih; simp only [List.length_append, List.length_singleton]; omega)

theorem lifFgetline_bound {buf linebuf : Buffer} {stream rest : Str} (bound : buf.length ≤ 4096)
    (h : lifFgetline buf 4096 stream = (some linebuf, rest)) : linebuf.length ≤ 4096 := by
  have stored : (fgetlineLoop (4096 - 2) false false [] stream).1.length ≤ 4095 := fgetlineLoop_bound stream (Nat.zero_le _)
  unfold lifFgetline at h
  dsimp only at h
  split at h
  · cases h
  · cases h
    rw [List.length_append, terminate_length, List.length_drop]
    omega

/-- All lines are read into the 4096 bytes of a line buffer. -/
theorem visits_bound (stack : ∀ filename, (host.stack filename).length ≤ 4096) {fuel : Nat} {filename : Str} :
    ∀ visit ∈ visits host fuel state filename, visit.state.linebuf.length ≤ 4096 := by
  induction fuel generalizing state filename with
  | zero => simp [visits]
  | succ fuel ih =>
    have included (strict : Bool) (names : List Str) (state : ParseState) :
        ∀ visit ∈ includeVisits (lifInterfaceFileParse host fuel) (visits host fuel) strict names state,
          visit.state.linebuf.length ≤ 4096 := by
      induction names generalizing state with
      | nil => simp [includeVisits]
      | cons name rest next =>
        unfold includeVisits
        intro visit member
        rcases List.mem_append.mp member with here | later
        · exact ih visit here
        split at later
        · cases later
        split at later
        · cases later
        · exact next _ visit later
    have lines (count : Nat) (stream : Str) (state : ParseState) (bound : state.linebuf.length ≤ 4096) :
        ∀ visit ∈ lineVisits host (lifInterfaceFileParse host fuel) (visits host fuel) count stream state,
          visit.state.linebuf.length ≤ 4096 := by
      induction count generalizing stream state with
      | zero => simp [lineVisits]
      | succ count next =>
        unfold lineVisits
        split
        · simp
        rename_i linebuf rest taken
        have filled := lifFgetline_bound bound taken
        intro visit member
        rcases List.mem_cons.mp member with rfl | inside
        · exact filled
        rcases List.mem_append.mp inside with nested | later
        · split at nested
          · cases nested
          · exact included _ _ _ visit nested
        · split at later
          · rename_i handled
            refine next _ _ ?_ visit later
            exact (handleLine_sized parse_sized handled).trans_le filled
          · cases later
    unfold visits
    split
    · simp
    split
    · simp
    · exact lines _ _ _ (stack filename)

end Ifupdown
