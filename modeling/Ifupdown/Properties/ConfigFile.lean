import Mathlib.Data.List.TakeWhile
import Ifupdown.Model.ConfigFile
import Ifupdown.Model.WholeLines
import Ifupdown.Model.LineCalls

/-! Which settings a configuration file leaves. -/
namespace Ifupdown

def wordEq (text : Str) : Str × Str :=
  let out := text.dropWhile isSeparator
  (out.takeWhile fun c => !isSeparator c, out.dropWhile fun c => !isSeparator c)

def settingOf (text : Str) : Str × Str := ((wordEq text).1, (wordEq (wordEq text).2).1)

def fileSettings (fd : Str) : List (Str × Str) := (logicalLines fd).map fun line => settingOf (lineText line)

/-- The setting that a line is about: it has a value and a key that is known. -/
def lineAbout (line : Str × Str) : Option Setting :=
  if line.1 = [] ∨ line.2 = [] then none else (handlers.find? fun hdl => hdl.1 = line.1).map Prod.snd

/-- A line about a setting has one of the values of a boolean. -/
def Valid (line : Str × Str) : Prop := (lineAbout line).isSome → (boolValue line.2).isSome

instance (line : Str × Str) : Decidable (Valid line) := inferInstanceAs (Decidable (_ → _))

def assigned (setting : Setting) (line : Str × Str) : Option Bool :=
  if lineAbout line = some setting then boolValue line.2 else none

/-- The warning about a line: it is no comment, and its key is not known. -/
def warningOf (filename : Str) (lineno : Nat) (line : Str × Str) : Option Str :=
  if line.1 = [] ∨ line.2 = [] ∨ line.1.head? = some 35 ∨ (lineAbout line).isSome then none
  else some (str "ifupdown-ng: " ++ filename ++ str ":" ++ decimal lineno ++ str ": warning: unknown config setting " ++ line.1)

section
variable {text pre post : Str} {p : Nat}

theorem wordEq_split (text : Str) : ∃ seps, text = seps ++ (wordEq text).1 ++ (wordEq text).2 ∧
    (∀ c ∈ seps, isSeparator c = true) ∧ (∀ c ∈ (wordEq text).1, isSeparator c = false) ∧
      (∀ c ∈ (wordEq text).2.head?, isSeparator c = true) ∧ ((wordEq text).1 = [] → (wordEq text).2 = []) := by
  have whole := List.takeWhile_append_dropWhile (p := fun c => !isSeparator c) (l := text.dropWhile isSeparator)
  refine ⟨text.takeWhile isSeparator, ?_, fun c => List.mem_takeWhile_imp, fun c member => ?_, fun c first => ?_, fun none => ?_⟩
  · rw [List.append_assoc]
    exact ((congrArg _ whole).trans List.takeWhile_append_dropWhile).symm
  · simpa using List.mem_takeWhile_imp (p := fun c => !isSeparator c) member
  · have stops := List.head?_dropWhile_not (fun c => !isSeparator c) (text.dropWhile isSeparator)
    change c ∈ ((text.dropWhile isSeparator).dropWhile fun c => !isSeparator c).head? at first
    rw [Option.mem_def.mp first] at stops
    simpa using stops
  · have starts := List.head?_dropWhile_not isSeparator text
    change (text.dropWhile isSeparator).takeWhile (fun c => !isSeparator c) = [] at none
    change (text.dropWhile isSeparator).dropWhile (fun c => !isSeparator c) = []
    cases out : text.dropWhile isSeparator with
    | nil => rfl
    | cons c rest =>
      rw [out] at none starts
      have word : isSeparator c = false := by simpa using starts
      rw [List.takeWhile_cons_of_pos (by rw [word]; rfl)] at none
      cases none

theorem lifNextTokenEqAt_text (at_ : pre.length = p) (zeros : 0 ∉ text) : ∃ seps,
    text = seps ++ (wordEq text).1 ++ (wordEq text).2 ∧
      lifNextTokenEqAt (pre ++ text ++ 0 :: post) p =
        (p + seps.length, (pre ++ seps ++ (wordEq text).1).length + 1,
          pre ++ seps ++ (wordEq text).1 ++ 0 :: ((wordEq text).2 ++ 0 :: post).tail) := by
  subst at_
  obtain ⟨seps, split, blank, solid, stop, empty⟩ := wordEq_split text
  refine ⟨seps, split, ?_⟩
  generalize (wordEq text).1 = word at *
  generalize (wordEq text).2 = rest at *
  subst split
  have start : ∀ c ∈ (word ++ (rest ++ 0 :: post)).head?, isSeparator c = false := by
    cases word with
    | nil =>
      rw [empty rfl]
      intro c first
      cases first
      rfl
    | cons d word =>
      intro c first
      cases first
      exact solid d List.mem_cons_self
  have skipped : (seps ++ (word ++ (rest ++ 0 :: post))).takeWhile isSeparator = seps := by
    rw [List.takeWhile_append_of_pos blank]
    cases front : word ++ (rest ++ 0 :: post) with
    | nil => rw [List.takeWhile_nil, List.append_nil]
    | cons c tail =>
      rw [front] at start
      rw [List.takeWhile_cons_of_neg (by rw [start c rfl]; exact Bool.false_ne_true), List.append_nil]
  have bytes : ∀ c ∈ word, (c != 0 && !isSeparator c) = true := by
    intro c member
    have inside : c ∈ seps ++ word ++ rest := List.mem_append_left _ (List.mem_append_right _ member)
    have zero : c ≠ 0 := fun same => zeros (same ▸ inside)
    rw [solid c member, bne_iff_ne.mpr zero]
    rfl
  have ends : (rest ++ 0 :: post).takeWhile (fun c => c != 0 && !isSeparator c) = [] := by
    cases rest with
    | nil => rfl
    | cons c rest =>
      rw [List.cons_append, List.takeWhile_cons_of_neg]
      rw [stop c rfl]
      simp
  have cut : (word ++ (rest ++ 0 :: post)).takeWhile (fun c => c != 0 && !isSeparator c) = word := by
    rw [List.takeWhile_append_of_pos bytes, ends, List.append_nil]
  have whole : pre ++ (seps ++ word ++ rest) ++ 0 :: post = pre ++ (seps ++ (word ++ (rest ++ 0 :: post))) := by simp
  have behind : (pre ++ (seps ++ (word ++ (rest ++ 0 :: post)))).drop (pre.length + seps.length) = word ++ (rest ++ 0 :: post) := by
    rw [← List.append_assoc, ← List.length_append, List.drop_left]
  unfold lifNextTokenEqAt
  dsimp only
  rw [whole, List.drop_left, skipped, behind, cut]
  have place : pre.length + seps.length + word.length = (pre ++ seps ++ word).length := by
    rw [List.length_append, List.length_append]
  have regroup : pre ++ (seps ++ (word ++ (rest ++ 0 :: post))) = pre ++ seps ++ word ++ (rest ++ 0 :: post) := by simp
  have first : (rest ++ 0 :: post).set 0 0 = 0 :: (rest ++ 0 :: post).tail := by cases rest <;> rfl
  rw [place, regroup, List.set_append_right _ _ (Nat.le_refl _), Nat.sub_self, first]

theorem wordEq_skip {c : UInt8} (separator : isSeparator c = true) (text : Str) : wordEq (c :: text) = wordEq text := by
  unfold wordEq
  rw [List.dropWhile_cons_of_pos separator]

/-- The two calls of the loop read the setting of a line that two NULs end. -/
theorem line_setting (zeros : 0 ∉ text) (behind : Buffer) :
    let (key, bufp, linebuf) := lifNextTokenEqAt (text ++ 0 :: 0 :: behind) 0
    let (value, _, linebuf) := lifNextTokenEqAt linebuf bufp
    (strAt linebuf key, strAt linebuf value) = settingOf text := by
  obtain ⟨seps, split, first⟩ := @lifNextTokenEqAt_text text [] (0 :: behind) 0 rfl zeros
  rw [List.nil_append] at first
  rw [first]
  dsimp only
  unfold settingOf
  obtain ⟨text', post, tail, zeros', same⟩ : ∃ text' post, ((wordEq text).2 ++ 0 :: 0 :: behind).tail = text' ++ 0 :: post ∧
      0 ∉ text' ∧ wordEq text' = wordEq (wordEq text).2 := by
    obtain ⟨_, whole, -, -, stop, -⟩ := wordEq_split text
    cases rest : (wordEq text).2 with
    | nil => exact ⟨[], behind, rfl, List.not_mem_nil, rfl⟩
    | cons c rest' =>
      rw [rest] at whole stop
      refine ⟨rest', 0 :: behind, rfl, fun member => zeros ?_, (wordEq_skip (stop c rfl) rest').symm⟩
      rw [whole]
      exact List.mem_append_right _ (List.mem_cons_of_mem c member)
  have solid : ∀ text : Str, 0 ∉ text → ∀ c ∈ (wordEq text).1, c ≠ 0 := by
    intro text zeros c member same
    obtain ⟨_, whole, -⟩ := wordEq_split text
    rw [whole] at zeros
    exact zeros (List.mem_append_left _ (List.mem_append_right _ (same ▸ member)))
  have key := solid text zeros
  have value := solid text' zeros'
  rw [tail, List.nil_append, Nat.zero_add, ← same]
  generalize (wordEq text).1 = word at *
  have regroup : seps ++ word ++ 0 :: (text' ++ 0 :: post) = (seps ++ word ++ [0]) ++ text' ++ 0 :: post := by simp
  obtain ⟨seps', -, second⟩ := @lifNextTokenEqAt_text text' (seps ++ word ++ [0]) post _ rfl zeros'
  have place : (seps ++ word).length + 1 = (seps ++ word ++ [0]).length := by simp [Nat.add_assoc]
  rw [regroup, place, second]
  dsimp only
  generalize (wordEq text').1 = word' at *
  generalize ((wordEq text').2 ++ 0 :: post).tail = tail'
  have front : seps ++ word ++ [0] ++ seps' ++ word' ++ 0 :: tail' = seps ++ word ++ 0 :: (seps' ++ word' ++ 0 :: tail') := by simp
  have readKey : strAt (seps ++ word ++ 0 :: (seps' ++ word' ++ 0 :: tail')) seps.length = word := strAt_append seps word _ rfl key
  have readValue : strAt (seps ++ word ++ [0] ++ seps' ++ word' ++ 0 :: tail') ((seps ++ word ++ [0]).length + seps'.length) = word' :=
    strAt_append _ word' tail' List.length_append value
  rw [readValue, front, readKey]

end

section
variable {fd : Str} {filename : Str}

theorem lines_bytes {scan : Scan} (zeros : 0 ∉ fd) (before : ∀ c ∈ scan.pieces.flatten, c ≠ 0 ∧ c ≠ 13)
    (lines : ∀ line ∈ scan.lines, ∃ pieces, line = pieces ++ [[10]] ∧ ∀ c ∈ pieces.flatten, c ≠ 0 ∧ c ≠ 13) :
    ∀ line ∈ (scan.run fd).lines, ∃ pieces, line = pieces ++ [[10]] ∧ ∀ c ∈ pieces.flatten, c ≠ 0 ∧ c ≠ 13 := by
  induction fd generalizing scan with
  | nil => exact lines
  | cons c fd ih =>
    obtain ⟨zero, zeros⟩ := not_or.mp (fun h => zeros (List.mem_cons.mpr h))
    have stored := @run_bytes scan [c] (by simpa using zero) before
    refine ih zeros stored ?_
    unfold Scan.step
    split
    · exact lines
    · exact lines
    · rw [List.forall_mem_append, List.forall_mem_singleton]
      exact ⟨lines, scan.pieces, rfl, before⟩

theorem lifFgetline_closed (buf : Buffer) (zeros : 0 ∉ fd) (terminated : Terminated fd)
    (short : ∀ line ∈ logicalLines fd, line.flatten.length < 4094) :
    (lifFgetline buf 4096 fd).1 = none ∧ logicalLines fd = [] ∨
      ∃ line rest behind, lifFgetline buf 4096 fd = (some (lineText line ++ 0 :: 0 :: behind), rest) ∧ 0 ∉ lineText line ∧
        logicalLines fd = line :: logicalLines rest ∧ 0 ∉ rest ∧ Terminated rest := by
  have outcome : Outcome 4094 {} fd (fgetlineLoop 4094 false false [] fd) :=
    @loopFrom_outcome fd .text [] [] 4094 (by simp) (by decide)
  unfold lifFgetline
  generalize fgetlineLoop (4096 - 2) false false [] fd = result at outcome
  cases outcome with
  | @finished used rest pieces mode ran room like =>
    rw [List.nil_append] at ran
    have bytes : ∀ c ∈ pieces.flatten, c ≠ 0 ∧ c ≠ 13 := by
      have line := @lines_bytes used {} (fun member => zeros (List.mem_append_left _ member)) (by simp) (by simp) (pieces ++ [[10]])
        (by rw [ran]; exact List.mem_cons_self)
      obtain ⟨pieces', same, bytes⟩ := line
      rwa [(List.append_inj_left' same rfl)]
    have cr : pieces.flatten.getLast? ≠ some 13 := fun last => (bytes 13 (List.mem_of_getLast? last)).2 rfl
    refine Or.inr ⟨pieces ++ [[10]], rest, buf.drop ((pieces.flatten ++ [10]).length + 1), ?_, ?_, logicalLines_finished ran like,
      fun member => zeros (List.mem_append_right _ member), ?_⟩
    · rw [lineText_closed bytes]
      dsimp only
      rw [terminate_newline cr]
      simp
    · rw [lineText_closed bytes]
      exact fun member => (bytes 0 member).1 rfl
    · unfold Terminated at terminated
      rw [run_append, ran] at terminated
      exact likeText_terminated like terminated
  | @ended _ pieces mode ran room =>
    unfold Terminated at terminated
    rw [ran] at terminated
    obtain ⟨none, text⟩ := terminated
    obtain rfl : pieces = [] := none
    obtain rfl : mode = .text := text
    refine Or.inl ⟨rfl, ?_⟩
    unfold logicalLines
    rw [ran]
    rfl
  | @full used rest pieces mode ran filled fits like =>
    have first : pieces ≠ [] := by
      rintro rfl
      simp at filled
    rcases front_lines first (logicalLines_open ran like) with ⟨lines, -⟩ | ⟨more, later, lines, -⟩
    · have long := short pieces (by rw [lines]; exact List.mem_cons_self)
      omega
    · have long := short (pieces ++ more) (by rw [lines]; exact List.mem_cons_self)
      rw [List.flatten_append, List.length_append] at long
      omega

def takeSettings (filename : Str) : Nat → ConfigState → List (Str × Str) → Bool × ConfigState
  | _, state, [] => (true, state)
  | lineno, state, (key, value) :: rest =>
    match handleSetting filename (lineno + 1) state key value with
    | none => (false, state)
    | some state => takeSettings filename (lineno + 1) state rest

theorem configLoop_settings {fuel lineno : Nat} {state : ConfigState} {buf : Buffer} (enough : fd.length < fuel) (zeros : 0 ∉ fd)
    (terminated : Terminated fd) (short : ∀ line ∈ logicalLines fd, line.flatten.length < 4094) :
    configLoop filename fuel lineno state buf fd = takeSettings filename lineno state (fileSettings fd) := by
  induction fuel generalizing fd lineno state buf with
  | zero => cases enough
  | succ fuel ih =>
    unfold configLoop
    rcases lifFgetline_closed buf zeros terminated short with ⟨ended, none⟩ | ⟨line, rest, behind, read, plain, lines, zeros', terminated'⟩
    · generalize lifFgetline buf 4096 fd = read at ended ⊢
      obtain ⟨line, rest⟩ := read
      subst ended
      rw [fileSettings, none]
      rfl
    · have setting := line_setting plain behind
      have shorter := lifFgetline_shorter (by decide) read
      have short' : ∀ line ∈ logicalLines rest, line.flatten.length < 4094 :=
        fun line member => short line (by rw [lines]; exact List.mem_cons_of_mem _ member)
      rw [read]
      dsimp only at setting ⊢
      rw [fileSettings, lines, List.map_cons, ← setting, takeSettings]
      split
      · rename_i failed
        rw [failed]
      · rename_i next handled
        rw [handled]
        exact ih (by omega) zeros' terminated' short'

theorem handlers_find (key : Str) : bsearch (fun hdl => strcmp key hdl.1) handlers = handlers.find? fun hdl => hdl.1 = key := by
  have sorted : handlers.Pairwise fun a b => strcmp a.1 b.1 = .lt := by decide +kernel
  exact bsearch_sorted sorted key

def LifConfigFile.settle (config : LifConfigFile) (line : Str × Str) : LifConfigFile :=
  match lineAbout line, boolValue line.2 with
  | some setting, some value => config.set setting value
  | _, _ => config

theorem handleSetting_valid (lineno : Nat) (state : ConfigState) (line : Str × Str) :
    handleSetting filename lineno state line.1 line.2 =
      if Valid line then
        some ⟨state.config.settle line, state.warnings ++ (warningOf filename lineno line).toList⟩
      else none := by
  obtain ⟨key, value⟩ := line
  unfold handleSetting
  dsimp only
  have ignored (about : lineAbout (key, value) = none) : Valid (key, value) ∧ state.config.settle (key, value) = state.config :=
    by simp [Valid, LifConfigFile.settle, about]
  by_cases empty : key = [] ∨ value = []
  · obtain ⟨valid, settle⟩ := ignored (if_pos empty)
    have quiet : warningOf filename lineno (key, value) = none := if_pos (or_assoc.mp (Or.inl empty))
    rw [if_pos empty, if_pos valid, settle, quiet, Option.toList_none, List.append_nil]
  have about : lineAbout (key, value) = (handlers.find? fun hdl => hdl.1 = key).map Prod.snd := if_neg empty
  obtain ⟨key_, value_⟩ := not_or.mp empty
  rw [if_neg empty, handlers_find]
  cases found : handlers.find? fun hdl => hdl.1 = key with
  | none =>
    rw [found] at about
    obtain ⟨valid, settle⟩ := ignored about
    rw [if_pos valid, settle]
    unfold warningOf
    rw [about]
    by_cases comment : key.head? = some 35 <;> simp [key_, value_, comment]
  | some hdl =>
    rw [found, Option.map_some] at about
    have named : ∀ hdl ∈ handlers, hdl.1.head? ≠ some 35 := by decide
    have same : hdl.1 = key := by simpa using List.find?_some found
    have word : key.head? ≠ some 35 := same ▸ named hdl (List.mem_of_find?_eq_some found)
    have quiet : warningOf filename lineno (key, value) = none := by
      unfold warningOf
      rw [about]
      simp
    rw [if_neg word, quiet, Option.toList_none, List.append_nil]
    have valid : Valid (key, value) ↔ (boolValue value).isSome := by simp [Valid, about]
    unfold setBoolValue
    cases read : boolValue value with
    | none =>
      rw [if_neg (by rw [valid, read]; simp)]
      rfl
    | some value =>
      rw [if_pos (valid.mpr (by rw [read]; rfl))]
      simp [LifConfigFile.settle, about, read]

theorem get_set (config : LifConfigFile) (setting other : Setting) (value : Bool) :
    (config.set other value).get setting = if other = setting then value else config.get setting := by
  cases other <;> cases setting <;> rfl

theorem get_settle (config : LifConfigFile) (setting : Setting) (line : Str × Str) :
    (config.settle line).get setting = (assigned setting line).getD (config.get setting) := by
  unfold LifConfigFile.settle assigned
  cases lineAbout line with
  | none => simp
  | some other =>
    cases boolValue line.2 with
    | none => simp
    | some value =>
      dsimp only
      rw [get_set]
      by_cases same : other = setting <;> simp [same]

/-- The lines are taken up to the first that is not valid. -/
theorem takeSettings_lines (lines : List (Str × Str)) (lineno : Nat) (state : ConfigState) :
    (takeSettings filename lineno state lines).1 = decide (∀ line ∈ lines, Valid line) ∧
      (∀ setting, (takeSettings filename lineno state lines).2.config.get setting =
        (((lines.takeWhile (Valid ·)).filterMap (assigned setting)).getLast?).getD (state.config.get setting)) ∧
      (takeSettings filename lineno state lines).2.warnings = state.warnings ++
        ((lines.takeWhile (Valid ·)).zipIdx (lineno + 1)).filterMap fun line => warningOf filename line.2 line.1 := by
  induction lines generalizing lineno state with
  | nil => simp [takeSettings]
  | cons line rest ih =>
    have handled := @handleSetting_valid filename (lineno + 1) state line
    unfold takeSettings
    by_cases valid : Valid line
    · rw [if_pos valid] at handled
      rw [handled]
      dsimp only
      obtain ⟨ok, config, warnings⟩ := ih (lineno + 1)
        ⟨state.config.settle line, state.warnings ++ (warningOf filename (lineno + 1) line).toList⟩
      have used : (line :: rest).takeWhile (Valid ·) = line :: rest.takeWhile (Valid ·) :=
        List.takeWhile_cons_of_pos (by simpa using valid)
      rw [used]
      refine ⟨?_, fun setting => ?_, ?_⟩
      · rw [ok]
        simp [valid]
      · rw [config setting, List.filterMap_cons, get_settle]
        cases assigned setting line with
        | none => rfl
        | some value =>
          dsimp only
          rw [List.getLast?_cons]
          cases ((rest.takeWhile (Valid ·)).filterMap (assigned setting)).getLast? <;> rfl
      · rw [warnings, List.zipIdx_cons, List.filterMap_cons, List.append_assoc]
        cases warningOf filename (lineno + 1) line <;> rfl
    · rw [if_neg valid] at handled
      have none : (line :: rest).takeWhile (Valid ·) = [] := List.takeWhile_cons_of_neg (by simpa using valid)
      rw [handled, none]
      simp [valid]

end

/-- For a file that ends with a newline and has no line too long for the buffer: reading it succeeds just if every line about a
setting has a value of a boolean. Up to the first line that has not, the last line about a setting decides, a setting without a line
keeps its value, and each other key with a value is warned about under the number of its line. -/
theorem config_settled (linebuf : Buffer) (filename : Str) (config : LifConfigFile) (fd : Str) (zeros : 0 ∉ fd)
    (terminated : Terminated fd) (short : ∀ line ∈ logicalLines fd, line.flatten.length < 4094) :
    ∃ ok state, lifConfigParseFile linebuf filename config fd = (ok, state) ∧
      (ok = true ↔ ∀ line ∈ fileSettings fd, Valid line) ∧
      (∀ setting, state.config.get setting =
        ((((fileSettings fd).takeWhile (Valid ·)).filterMap (assigned setting)).getLast?).getD (config.get setting)) ∧
      state.warnings = (((fileSettings fd).takeWhile (Valid ·)).zipIdx 1).filterMap fun line => warningOf filename line.2 line.1 := by
  have read := @configLoop_settings fd filename _ 0 { config := config } linebuf (Nat.lt_succ_self _) zeros terminated short
  obtain ⟨ok, settings, warnings⟩ := @takeSettings_lines filename (fileSettings fd) 0 { config := config }
  refine ⟨_, _, read, ?_, settings, warnings⟩
  rw [ok, decide_eq_true_iff]

/-- A comment, a setting that is set twice, an unknown key and a value that is no boolean. -/
def mixedConfig : Str := str "# defaults\nauto_executor_selection = yes\nspeed=fast\nauto_executor_selection=0\nuse_hostname_for_dhcp maybe\n"

theorem config_settled_mixed : ∃ ok state, lifConfigParseFile [] (str "f") {} mixedConfig = (ok, state) ∧
    (ok = true ↔ ∀ line ∈ fileSettings mixedConfig, Valid line) ∧
      (∀ setting, state.config.get setting =
        ((((fileSettings mixedConfig).takeWhile (Valid ·)).filterMap (assigned setting)).getLast?).getD
          (LifConfigFile.get {} setting)) ∧
      state.warnings =
        (((fileSettings mixedConfig).takeWhile (Valid ·)).zipIdx 1).filterMap fun line => warningOf (str "f") line.2 line.1 :=
  config_settled [] (str "f") {} mixedConfig (by decide +kernel) (by decide +kernel) (by decide +kernel)

end Ifupdown
