import Mathlib.Data.Finset.Card
import Ifupdown.Parser.Handling

/-! Which files a parse opens, and where it stands before and behind them. -/
namespace Ifupdown

structure Placed (state state' : ParseState) : Prop where
  curFilename : state'.curFilename = state.curFilename
  curLineno : state'.curLineno = state.curLineno
  loaded : state'.loaded = state.loaded

def Visit.place (visit : Visit) : Str × Nat := (visit.state.curFilename, visit.state.curLineno)

/-- Between the two states these files have been loaded, none of them for a second time. -/
structure Loads (state : ParseState) (opened : List Str) (state' : ParseState) : Prop where
  loaded : lifDictKeys state'.loaded = lifDictKeys state.loaded ++ opened
  once : opened.Nodup
  fresh : ∀ name ∈ opened, name ∉ lifDictKeys state.loaded

/-- These lines of the opened files have been visited, and the parse is back where it was. -/
structure Reads (state : ParseState) (opened : List Str) (lines : List Visit) (state' : ParseState) : Prop
    extends Loads state opened state' where
  curFilename : state'.curFilename = state.curFilename
  curLineno : state'.curLineno = state.curLineno
  inside : ∀ visit ∈ lines, visit.state.curFilename ∈ opened
  distinct : (lines.map Visit.place).Nodup

/-- These lines behind the one where the parse stands, and lines of the opened files, have been visited. -/
structure ReadsOn (state : ParseState) (opened : List Str) (lines : List Visit) (state' : ParseState) : Prop
    extends Loads state opened state' where
  curFilename : state'.curFilename = state.curFilename
  inside : ∀ visit ∈ lines, (visit.state.curFilename = state.curFilename ∧ state.curLineno < visit.state.curLineno) ∨
    visit.state.curFilename ∈ opened
  distinct : (lines.map Visit.place).Nodup

section
variable {host : Host} {state state' state'' : ParseState} {ifname token : Str}

theorem Placed.refl (state : ParseState) : Placed state state := ⟨rfl, rfl, rfl⟩

theorem Placed.trans (first : Placed state state') (second : Placed state' state'') : Placed state state'' :=
  ⟨second.curFilename.trans first.curFilename, second.curLineno.trans first.curLineno, second.loaded.trans first.loaded⟩

theorem change_placed (ifname : Str) (step : Change) : Placed state (state.change host ifname step) := ⟨rfl, rfl, rfl⟩

theorem inherit_placed {parent : Str} (h : state.inherit host ifname parent = some state') : Placed state state' := by
  obtain ⟨collection, -, rfl⟩ := Option.map_eq_some_iff.mp h
  exact ⟨rfl, rfl, rfl⟩

theorem finalize_placed (state : ParseState) : Placed state (state.finalize host) := by
  unfold ParseState.finalize
  split <;> exact ⟨rfl, rfl, rfl⟩

theorem inheritTarget_placed {target : Str} (h : inheritTarget host state token target = some state') : Placed state state' := by
  unfold inheritTarget at h
  split at h
  · cases h
    exact ⟨rfl, rfl, rfl⟩
  split at h
  · cases h
    exact ⟨rfl, rfl, rfl⟩
  dsimp only at h
  split at h
  · cases h
    exact ⟨rfl, rfl, rfl⟩
  · have found : Placed state (state.find target) := ⟨rfl, rfl, rfl⟩
    exact found.trans (inherit_placed h)

theorem takeHints_placed {hints : List Str} (h : takeHints host ifname hints state = some state') : Placed state state' := by
  induction hints generalizing state with
  | nil =>
    cases h
    exact .refl _
  | cons hint rest ih =>
    unfold takeHints at h
    split at h
    · cases h
      exact .refl _
    split at h
    · exact (change_placed _ _).trans (ih h)
    split at h
    · obtain ⟨next, target, later⟩ := Option.bind_eq_some_iff.mp h
      exact (inheritTarget_placed target).trans (ih later)
    split at h
    · exact (change_placed _ _).trans (ih h)
    · exact ih h

theorem enterIface_placed {hints : List Str} (h : enterIface host token ifname hints state = some state') :
    Placed state state' := by
  unfold enterIface at h
  split at h
  · cases h
    exact ⟨rfl, rfl, rfl⟩
  obtain ⟨hinted, takes, left⟩ := Option.bind_eq_some_iff.mp h
  have found : Placed (state.finalize host) { (state.finalize host).find ifname with curIface := some ifname } :=
    ⟨rfl, rfl, rfl⟩
  have hinted_ : Placed state hinted := by
    refine ((finalize_placed state).trans found).trans ?_
    split at takes
    · exact (change_placed ifname .markTemplate).trans (takeHints_placed takes)
    · exact takeHints_placed takes
  dsimp only at left
  split at left
  · have defaults : Placed hinted (hinted.find (str "defaults")) := ⟨rfl, rfl, rfl⟩
    exact (hinted_.trans defaults).trans (inherit_placed left)
  · cases left
    exact hinted_

theorem handleLine_placed {ok : Bool} (h : handleLine host skip state = some (ok, state')) : Placed state state' := by
  cases kind : state.kind with
  | blank =>
    rw [handleLine_blank kind] at h
    cases h
    exact ⟨rfl, rfl, rfl⟩
  | generic =>
    rw [handleLine_generic kind] at h
    cases h
    unfold handleGeneric
    dsimp only
    repeat' split
    all_goals exact ⟨rfl, rfl, rfl⟩
  | keyword parserkw =>
    rw [handleLine_keyword kind] at h
    cases parserkw with
    | iface =>
      obtain ⟨own, entered, same⟩ := Option.map_eq_some_iff.mp h
      cases same
      have enters := (congrArg (Option.map ParseState.clear) entered).symm.trans handleIface_enters
      have placed := enterIface_placed enters.symm
      exact ⟨placed.curFilename, placed.curLineno, placed.loaded⟩
    | inherit =>
      obtain ⟨own, inherits, same⟩ := Option.map_eq_some_iff.mp h
      cases same
      rw [handleInherit_target] at inherits
      obtain ⟨target, found, rfl⟩ := Option.map_eq_some_iff.mp inherits
      have placed := inheritTarget_placed found
      exact ⟨placed.curFilename, placed.curLineno, placed.loaded⟩
    | address | auto | hostname | gateway | use =>
      cases h
      simp only [handleAddress, handleAuto, handleGateway, handleHostname, handleUse]
      split <;> exact ⟨rfl, rfl, rfl⟩
    | source =>
      simp only [Keyword.handle, handleSource, sourceLoop_include, includeLoop_skip] at h
      repeat' split at h
      all_goals
        cases h
        exact ⟨rfl, rfl, rfl⟩
    | sourceDirectory =>
      simp only [Keyword.handle, handleSourceDirectory, directoryLoop_include, includeLoop_skip] at h
      repeat' split at h
      all_goals
        cases h
        exact ⟨rfl, rfl, rfl⟩

theorem Loads.trans {opened more : List Str} (first : Loads state opened state') (second : Loads state' more state'') :
    Loads state (opened ++ more) state'' := by
  have apart (name : Str) (member : name ∈ more) : name ∉ lifDictKeys state.loaded ∧ name ∉ opened := by
    have fresh := second.fresh name member
    rwa [first.loaded, List.mem_append, not_or] at fresh
  refine ⟨by rw [second.loaded, first.loaded, List.append_assoc], ?_, ?_⟩
  · refine first.once.append second.once fun name old new => (apart name new).2 old
  · intro name member
    exact (List.mem_append.mp member).elim (first.fresh name) fun new => (apart name new).1

theorem Loads.none (loaded : state'.loaded = state.loaded) : Loads state [] state' :=
  ⟨by rw [loaded, List.append_nil], List.nodup_nil, by simp⟩

theorem Loads.filename {filename : Str} (fresh : ¬ (lifDictFind state.loaded filename).isSome = true)
    (loaded : state'.loaded = lifDictAdd state.loaded filename ()) : Loads state [filename] state' := by
  refine ⟨by rw [loaded]; exact List.map_append, List.nodup_singleton _, fun name member => ?_⟩
  rw [List.mem_singleton.mp member, ← lifDictFind_none, ← Option.not_isSome_iff_eq_none]
  exact fresh

theorem Reads.none (placed : Placed state state') : Reads state [] [] state' :=
  ⟨.none placed.loaded, placed.curFilename, placed.curLineno, by simp, List.nodup_nil⟩

theorem Reads.append {opened more : List Str} {lines later : List Visit} (first : Reads state opened lines state')
    (second : Reads state' more later state'') : Reads state (opened ++ more) (lines ++ later) state'' := by
  refine ⟨first.toLoads.trans second.toLoads, second.curFilename.trans first.curFilename,
    second.curLineno.trans first.curLineno, ?_, ?_⟩
  · intro visit member
    exact List.mem_append.mpr ((List.mem_append.mp member).imp (first.inside visit) (second.inside visit))
  · rw [List.map_append]
    refine first.distinct.append second.distinct fun place old new => ?_
    obtain ⟨visit, member, rfl⟩ := List.mem_map.mp old
    obtain ⟨visit', member', same⟩ := List.mem_map.mp new
    have filename : visit'.state.curFilename = visit.state.curFilename := congrArg Prod.fst same
    have fresh := second.fresh _ (second.inside visit' member')
    rw [first.loaded, List.mem_append, not_or, filename] at fresh
    exact fresh.2 (first.inside visit member)

theorem ReadsOn.none (state : ParseState) : ReadsOn state [] [] state := ⟨.none rfl, rfl, by simp, List.nodup_nil⟩

/-- A line, the lines of the files that it includes, and the lines behind it. -/
theorem ReadsOn.line {opened more : List Str} {visit : Visit} {nested later : List Visit}
    (filename : visit.state.curFilename = state.curFilename) (lineno : visit.state.curLineno = state.curLineno + 1)
    (loaded : visit.state.loaded = state.loaded) (known : state.curFilename ∈ lifDictKeys state.loaded)
    (reads : Reads visit.state opened nested state') (rest : ReadsOn state' more later state'') :
    ReadsOn state (opened ++ more) (visit :: (nested ++ later)) state'' := by
  have loads : Loads state opened state' := ⟨by rw [reads.loaded, loaded], reads.once, by rw [← loaded]; exact reads.fresh⟩
  have own (name : Str) (member : name ∈ opened) : name ≠ state.curFilename := by
    rintro rfl
    exact loads.fresh _ member known
  have own' (name : Str) (member : name ∈ more) : name ≠ state.curFilename ∧ name ∉ opened := by
    have fresh := rest.fresh name member
    rw [loads.loaded, List.mem_append, not_or] at fresh
    refine ⟨?_, fresh.2⟩
    rintro rfl
    exact fresh.1 known
  have behind (visit : Visit) (member : visit ∈ later) : (visit.state.curFilename = state.curFilename ∧
      state.curLineno + 1 < visit.state.curLineno) ∨ visit.state.curFilename ∈ more := by
    have inside := rest.inside visit member
    rwa [reads.curFilename, reads.curLineno, filename, lineno] at inside
  refine ⟨loads.trans rest.toLoads, ?_, ?_, ?_⟩
  · rw [rest.curFilename, reads.curFilename, filename]
  · intro other member
    rw [List.mem_append]
    rcases List.mem_cons.mp member with rfl | inside
    · exact Or.inl ⟨filename, by omega⟩
    rcases List.mem_append.mp inside with here | there
    · exact Or.inr (Or.inl (reads.inside other here))
    · exact (behind other there).imp (fun after => ⟨after.1, by omega⟩) Or.inr
  · rw [List.map_cons, List.map_append, List.nodup_cons, List.mem_append, not_or]
    refine ⟨⟨?_, ?_⟩, reads.distinct.append rest.distinct ?_⟩
    · intro member
      obtain ⟨other, member, same⟩ := List.mem_map.mp member
      have filenames : other.state.curFilename = visit.state.curFilename := congrArg Prod.fst same
      exact own _ (reads.inside other member) (filenames.trans filename)
    · intro member
      obtain ⟨other, member, same⟩ := List.mem_map.mp member
      have filenames : other.state.curFilename = visit.state.curFilename := congrArg Prod.fst same
      have linenos : other.state.curLineno = visit.state.curLineno := congrArg Prod.snd same
      rcases behind other member with ⟨-, after⟩ | new
      · omega
      · exact (own' _ new).1 (filenames.trans filename)
    · intro place old new
      obtain ⟨first, member, rfl⟩ := List.mem_map.mp old
      obtain ⟨second, member', same⟩ := List.mem_map.mp new
      have filenames : second.state.curFilename = first.state.curFilename := congrArg Prod.fst same
      have inside := reads.inside first member
      rcases behind second member' with ⟨here, -⟩ | new
      · exact own _ inside (filenames.symm.trans here)
      · rw [filenames] at new
        exact (own' _ new).2 inside

section
variable {parse : ParseState → Str → Option (Bool × ParseState)} {inner : ParseState → Str → List Visit}
  (parses : ∀ (state : ParseState) (filename : Str) (ok : Bool) (state' : ParseState),
    parse state filename = some (ok, state') → ∃ opened, Reads state opened (inner state filename) state')
include parses

theorem includeLoop_reads {strict ok ok' : Bool} {names : List Str} (h : includeLoop parse strict names ok state = some (ok', state')) :
    ∃ opened, Reads state opened (includeVisits parse inner strict names state) state' := by
  induction names generalizing state ok with
  | nil =>
    cases h
    exact ⟨[], .none (.refl _)⟩
  | cons name rest ih =>
    unfold includeLoop at h
    unfold includeVisits
    split at h
    · cases h
    · rename_i parsed next result
      obtain ⟨opened, reads⟩ := parses _ _ _ _ result
      split at h
      · rename_i stop
        cases h
        rw [if_pos stop, List.append_nil]
        exact ⟨opened, reads⟩
      · rename_i go
        obtain ⟨more, later⟩ := ih h
        rw [if_neg go]
        exact ⟨opened ++ more, reads.append later⟩

/-- A line is visited, and then those of the files that it includes. -/
theorem handleLine_reads {ok : Bool} (h : handleLine host parse state = some (ok, state')) :
    ∃ fine own, handleLine host skip state = some (fine, own) ∧ ∃ opened, Reads state opened
      (includeVisits parse inner (includes host state).1 (includes host state).2 own) state' := by
  rw [handleLine_includes] at h
  obtain ⟨⟨fine, own⟩, handled, included⟩ := Option.bind_eq_some_iff.mp h
  obtain ⟨opened, reads⟩ := includeLoop_reads parses included
  exact ⟨fine, own, handled, [] ++ opened, (Reads.none (handleLine_placed handled)).append reads⟩

theorem lineLoop_reads {fuel : Nat} {stream : Str} {ok : Bool} (known : state.curFilename ∈ lifDictKeys state.loaded)
    (h : lineLoop (handleLine host parse) fuel stream state = some (ok, state')) :
    ∃ opened, ReadsOn state opened (lineVisits host parse inner fuel stream state) state' := by
  induction fuel generalizing state stream with
  | zero => cases h
  | succ fuel ih =>
    unfold lineLoop at h
    unfold lineVisits
    generalize lifFgetline state.linebuf 4096 stream = read at h ⊢
    rcases read with ⟨_ | linebuf, rest⟩
    · cases h
      exact ⟨[], .none rfl, rfl, by simp, List.nodup_nil⟩
    dsimp only at h ⊢
    generalize visited : ({ state with linebuf := linebuf, curLineno := state.curLineno + 1 } : ParseState) = line at h ⊢
    have filename : line.curFilename = state.curFilename := by rw [← visited]
    have lineno : line.curLineno = state.curLineno + 1 := by rw [← visited]
    have loaded : line.loaded = state.loaded := by rw [← visited]
    split at h
    · cases h
    · rename_i next result
      cases h
      obtain ⟨fine, own, handled, opened, reads⟩ := handleLine_reads parses result
      rw [result, handled]
      exact ⟨opened ++ [], .line filename lineno loaded known reads (.none state')⟩
    · rename_i next result
      obtain ⟨fine, own, handled, opened, reads⟩ := handleLine_reads parses result
      have stays : next.curFilename ∈ lifDictKeys next.loaded := by
        rw [reads.curFilename, reads.loaded, filename, loaded]
        exact List.mem_append_left _ known
      obtain ⟨more, later⟩ := ih stays h
      rw [result, handled]
      exact ⟨opened ++ more, .line filename lineno loaded known reads later⟩

end

/-- Every return from a parse restores the place, and no file has been opened for a second time. -/
theorem parse_reads {fuel : Nat} {filename : Str} {ok : Bool} (h : lifInterfaceFileParse host fuel state filename = some (ok, state')) :
    ∃ opened, Reads state opened (visits host fuel state filename) state' := by
  induction fuel generalizing state state' filename ok with
  | zero => cases h
  | succ fuel ih =>
    unfold lifInterfaceFileParse at h
    unfold visits
    split at h
    · rename_i known
      cases h
      rw [if_pos known]
      exact ⟨[], .none ⟨rfl, rfl, rfl⟩⟩
    rename_i fresh
    rw [if_neg fresh]
    generalize host.fopen filename = opened at h ⊢
    rcases opened with _ | f
    · cases h
      exact ⟨[], .none (.refl _)⟩
    dsimp only at h ⊢
    generalize visited : ({ state with
        curFilename := filename
        curLineno := 0
        loaded := lifDictAdd state.loaded filename ()
        linebuf := host.stack filename } : ParseState) = first at h ⊢
    have named : first.curFilename = filename := by rw [← visited]
    have added : Loads state [filename] first := .filename fresh (by rw [← visited])
    have whole {last : ParseState} {ok : Bool}
        (result : lineLoop (handleLine host (lifInterfaceFileParse host fuel)) (f.length + 1) f first = some (ok, last)) :
        ∃ opened, Loads state opened last ∧
          (∀ visit ∈ lineVisits host (lifInterfaceFileParse host fuel) (visits host fuel) (f.length + 1) f first,
            visit.state.curFilename ∈ opened) ∧
          ((lineVisits host (lifInterfaceFileParse host fuel) (visits host fuel) (f.length + 1) f first).map Visit.place).Nodup := by
      have member : first.curFilename ∈ lifDictKeys first.loaded := by
        rw [named, added.loaded]
        exact List.mem_append_right _ (List.mem_singleton_self _)
      obtain ⟨opened, reads⟩ := lineLoop_reads (fun _ _ _ _ => ih) member result
      refine ⟨[filename] ++ opened, added.trans reads.toLoads, fun visit visited => ?_, reads.distinct⟩
      rw [← named]
      exact List.mem_cons.mpr ((reads.inside visit visited).imp_left And.left)
    split at h
    · cases h
    · rename_i last result
      cases h
      obtain ⟨opened, loads, inside, distinct⟩ := whole result
      exact ⟨opened, ⟨loads.loaded, loads.once, loads.fresh⟩, rfl, rfl, inside, distinct⟩
    · rename_i last result
      cases h
      obtain ⟨opened, loads, inside, distinct⟩ := whole result
      have closed : (last.finalize host).loaded = last.loaded := (finalize_placed last).loaded
      refine ⟨opened, ⟨?_, loads.once, loads.fresh⟩, rfl, rfl, inside, distinct⟩
      rw [← loads.loaded, ← closed]
      rfl

end

end Ifupdown
