import Ifupdown.Parser.PrintedStanzas

/-! Variables that stand behind what their lines add. -/
namespace Ifupdown

/-- What the lines around a variable depend on: its key, and whom it uses. -/
abbrev Mark := Str × Option VarData

def mark (entry : Str × VarData) : Mark := (entry.1, if entry.1 = str "use" then some entry.2 else none)

def usedMark (executor : Str) : Mark := (str "use", some (.text executor))

def executorOf (key : Str) : Str := key.takeWhile fun c => c != 45

/-- The line of a variable would add nothing in front of it, and behind it only what comes next. -/
structure Supported (auto : Bool) (seen : List Mark) (own : Mark) (rest : List Mark) : Prop where
  static : own.1 = str "address" ∨ own.1 = str "gateway" → usedMark (str "static") ∈ seen
  use : own.1 = str "use" → own ∉ seen
  hostname : own.1 = str "dhcp-hostname" → ∀ other ∈ seen, other.1 ≠ own.1
  dashed : auto = true → 45 ∈ own.1 → own.1 ≠ str "dhcp-hostname" →
    usedMark (executorOf own.1) ∈ seen ∨ rest.head? = some (usedMark (executorOf own.1))

def WellPlaced (auto : Bool) (marks : List Mark) : Prop :=
  ∀ seen own rest, marks = seen ++ own :: rest → Supported auto seen own rest

def Orderly (auto : Bool) (vars : LifDict VarData) : Prop := WellPlaced auto (vars.map mark)

section
variable {auto : Bool} {marks more seen rest : List Mark} {own : Mark} {vars vars' : LifDict VarData} {key : Str} {data : VarData}

theorem mark_other (other : key ≠ str "use") : mark (key, data) = (key, none) := by
  rw [mark, if_neg other]

theorem mark_use : mark (str "use", data) = (str "use", some data) := by
  rw [mark, if_pos rfl]

theorem single_split {only : Mark} (split : [only] = seen ++ own :: rest) : seen = [] ∧ own = only ∧ rest = [] := by
  cases seen with
  | nil =>
    obtain ⟨rfl, rfl⟩ := List.cons.inj split
    exact ⟨rfl, rfl, rfl⟩
  | cons first seen =>
    have none := (List.cons.inj split).2
    simp at none

theorem mem_marks {executor : Str} : usedMark executor ∈ vars.map mark ↔ (str "use", .text executor) ∈ vars := by
  constructor
  · intro member
    obtain ⟨entry, inside, same⟩ := List.mem_map.mp member
    obtain ⟨name, data⟩ := entry
    obtain ⟨rfl, shown⟩ := Prod.mk.injEq .. ▸ same
    rw [if_pos rfl, Option.some_inj] at shown
    rwa [← shown]
  · intro inside
    exact List.mem_map.mpr ⟨_, inside, mark_use⟩

theorem Supported.before (supported : Supported auto seen own rest) (more : List Mark) : Supported auto seen own (rest ++ more) := by
  refine ⟨supported.static, supported.use, supported.hostname, fun auto_ dash other => ?_⟩
  refine (supported.dashed auto_ dash other).imp_right fun next => ?_
  rw [List.head?_append, next]
  rfl

theorem WellPlaced.append (ordered : WellPlaced auto marks)
    (new : ∀ seen own rest, more = seen ++ own :: rest → Supported auto (marks ++ seen) own rest) : WellPlaced auto (marks ++ more) := by
  intro seen own rest split
  rcases List.append_eq_append_iff.mp split with ⟨between, rfl, last⟩ | ⟨between, rfl, last⟩
  · exact new between own rest last
  · cases between with
    | nil =>
      have first := new [] own rest last.symm
      rwa [List.append_nil, List.append_nil] at first
    | cons first between =>
      obtain ⟨rfl, rfl⟩ := List.cons.inj last
      exact (ordered seen own between rfl).before more

theorem WellPlaced.remove {before after : List Mark} {gone : Mark} (ordered : WellPlaced auto (before ++ gone :: after))
    (other : gone.1 ≠ str "use") : WellPlaced auto (before ++ after) := by
  have unused (executor : Str) : gone ≠ usedMark executor := fun same => other (congrArg Prod.fst same)
  intro seen own rest split
  rcases List.append_eq_append_iff.mp split with ⟨between, rfl, last⟩ | ⟨between, rfl, last⟩
  · have supported := ordered (before ++ gone :: between) own rest (by rw [last]; simp)
    have subset : before ++ between ⊆ before ++ gone :: between := by
      intro x member
      exact (List.mem_append.mp member).elim (List.mem_append_left _) fun later => List.mem_append_right _ (List.mem_cons_of_mem _ later)
    have kept {executor : Str} (member : usedMark executor ∈ before ++ gone :: between) : usedMark executor ∈ before ++ between := by
      rcases List.mem_append.mp member with first | later
      · exact List.mem_append_left _ first
      · exact List.mem_append_right _ ((List.mem_cons.mp later).resolve_left (unused executor).symm)
    exact ⟨fun needs => kept (supported.static needs), fun use member => supported.use use (subset member),
      fun hostname x member => supported.hostname hostname x (subset member),
      fun auto_ dash other => (supported.dashed auto_ dash other).imp_left kept⟩
  · cases between with
    | nil =>
      rw [List.append_nil] at ordered
      have supported := ordered (seen ++ [gone]) own rest (by rw [last]; simp)
      have kept {executor : Str} (member : usedMark executor ∈ seen ++ [gone]) : usedMark executor ∈ seen :=
        (List.mem_append.mp member).resolve_right fun same => unused executor (List.mem_singleton.mp same).symm
      exact ⟨fun needs => kept (supported.static needs), fun use member => supported.use use (List.mem_append_left _ member),
        fun hostname x member => supported.hostname hostname x (List.mem_append_left _ member),
        fun auto_ dash other => (supported.dashed auto_ dash other).imp_left kept⟩
    | cons first between =>
      obtain ⟨rfl, rfl⟩ := List.cons.inj last
      obtain ⟨static, use, hostname, dashed⟩ := ordered seen own (between ++ gone :: after) (by simp)
      refine ⟨static, use, hostname, fun auto_ dash other => (dashed auto_ dash other).imp_right fun next => ?_⟩
      cases between with
      | nil => exact absurd (Option.some_inj.mp next) (unused _)
      | cons second between => exact next

theorem Orderly.congr (orderly : Orderly auto vars) (same : vars'.map mark = vars.map mark) : Orderly auto vars' := by
  rw [Orderly, same]
  exact orderly

theorem Orderly.add (orderly : Orderly auto vars) (supported : Supported auto (vars.map mark) (mark (key, data)) []) :
    Orderly auto (lifDictAdd vars key data) := by
  rw [Orderly, lifDictAdd, List.map_append]
  refine WellPlaced.append orderly fun seen own rest split => ?_
  obtain ⟨rfl, rfl, rfl⟩ := single_split split
  rwa [List.append_nil]

theorem Orderly.addBoth {executor : Str} (orderly : Orderly auto vars)
    (supported : Supported auto (vars.map mark) (mark (key, data)) [usedMark executor])
    (fresh : usedMark executor ∉ (lifDictAdd vars key data).map mark) :
    Orderly auto (lifDictAdd (lifDictAdd vars key data) (str "use") (.text executor)) := by
  have both : (lifDictAdd (lifDictAdd vars key data) (str "use") (.text executor)).map mark =
      vars.map mark ++ [mark (key, data), usedMark executor] := by
    simp [lifDictAdd, usedMark, mark_use]
  rw [Orderly, both]
  refine WellPlaced.append orderly fun seen own rest split => ?_
  cases seen with
  | nil =>
    obtain ⟨rfl, rfl⟩ := List.cons.inj split
    rwa [List.append_nil]
  | cons first seen =>
    obtain ⟨rfl, later⟩ := List.cons.inj split
    obtain ⟨rfl, rfl, rfl⟩ := single_split later
    refine ⟨fun needs => absurd needs ?_, fun _ => ?_, fun same => absurd same ?_, fun _ dash => absurd dash ?_⟩
    · exact show ¬ (str "use" = str "address" ∨ str "use" = str "gateway") by decide
    · rwa [lifDictAdd, List.map_append] at fresh
    · exact show str "use" ≠ str "dhcp-hostname" by decide
    · exact show 45 ∉ str "use" by decide

theorem Orderly.use (orderly : Orderly auto vars) (executor : Str) : Orderly auto (lifDictAddOnce vars (str "use") (.text executor)) := by
  unfold lifDictAddOnce
  split
  · exact orderly
  · rename_i fresh
    refine orderly.add ?_
    rw [mark_use]
    refine ⟨fun needs => absurd needs ?_, fun _ => mt mem_marks.mp fresh, fun same => absurd same ?_, fun _ dash => absurd dash ?_⟩
    · exact show ¬ (str "use" = str "address" ∨ str "use" = str "gateway") by decide
    · exact show str "use" ≠ str "dhcp-hostname" by decide
    · exact show 45 ∉ str "use" by decide

theorem lifDictDelete_split (vars : LifDict VarData) (key : Str) : lifDictDelete vars key = vars ∧ key ∉ lifDictKeys vars ∨
    ∃ before data after, vars = before ++ (key, data) :: after ∧ lifDictDelete vars key = before ++ after := by
  induction vars with
  | nil => exact Or.inl ⟨rfl, List.not_mem_nil⟩
  | cons entry rest ih =>
    obtain ⟨name, data⟩ := entry
    unfold lifDictDelete
    split
    · rename_i hit
      rw [hit]
      exact Or.inr ⟨[], data, rest, rfl, rfl⟩
    · rename_i miss
      rcases ih with ⟨same, absent⟩ | ⟨before, gone, after, found, deleted⟩
      · rw [same]
        exact Or.inl ⟨rfl, by simp [Ne.symm miss, absent]⟩
      · rw [deleted, found]
        exact Or.inr ⟨(name, data) :: before, gone, after, rfl, rfl⟩

theorem Orderly.delete (orderly : Orderly auto vars) (other : key ≠ str "use") : Orderly auto (lifDictDelete vars key) := by
  rcases lifDictDelete_split vars key with ⟨same, -⟩ | ⟨before, data, after, rfl, deleted⟩
  · rwa [same]
  · rw [deleted, Orderly, List.map_append]
    rw [Orderly, List.map_append, List.map_cons, mark_other other] at orderly
    exact WellPlaced.remove orderly other

theorem Orderly.hostname (orderly : Orderly auto vars) : str "dhcp-hostname" ∉ lifDictKeys (lifDictDelete vars (str "dhcp-hostname")) := by
  rcases lifDictDelete_split vars (str "dhcp-hostname") with ⟨same, absent⟩ | ⟨before, data, after, rfl, deleted⟩
  · rwa [same]
  · rw [deleted, lifDictKeys, List.map_append]
    have own : mark (str "dhcp-hostname", data) = (str "dhcp-hostname", none) := mark_other (by decide)
    intro member
    obtain ⟨entry, inside, key⟩ := List.mem_map.mp (by rwa [← List.map_append] at member)
    rcases List.mem_append.mp inside with first | later
    · have supported := orderly (before.map mark) (str "dhcp-hostname", none) (after.map mark) (by simp [own])
      exact supported.hostname rfl (mark entry) (List.mem_map_of_mem first) key
    · obtain ⟨between, last, rfl⟩ := List.append_of_mem later
      have supported := orderly (before.map mark ++ (str "dhcp-hostname", none) :: between.map mark) (mark entry) (last.map mark)
        (by simp [own])
      exact supported.hostname key (str "dhcp-hostname", none) (by simp) key.symm

end

def Anonymous (hostname : Option Str) (vars : LifDict VarData) : Prop :=
  hostname = none ∨ (str "use", VarData.text (str "dhcp")) ∉ vars

section
variable {host : Host} {inetNtop : InetNtop} {hostname : Option Str} {executor : Str} {entry : Str × VarData} {value : Str}
  {start vars seen rest : LifDict VarData}

theorem useVars_once (plain : hostname = none ∨ executor ≠ str "dhcp") :
    useVars hostname vars executor = lifDictAddOnce vars (str "use") (.text executor) := by
  unfold useVars
  cases hostname with
  | none => rfl
  | some nodename => exact if_neg (plain.resolve_left (Option.some_ne_none nodename))

theorem Anonymous.plain (anonymous : Anonymous hostname vars) (member : (str "use", .text executor) ∈ vars) :
    hostname = none ∨ executor ≠ str "dhcp" := by
  refine anonymous.imp_right fun absent same => absent ?_
  rwa [← same]

theorem useVars_present (plain : hostname = none ∨ executor ≠ str "dhcp") (present : (str "use", .text executor) ∈ vars) :
    useVars hostname vars executor = vars := by
  rw [useVars_once plain, lifDictAddOnce, if_pos present]

theorem lineKind_use : lineKind (str "use") = .keyword .use := by decide

/-- The line of a variable adds the variable, and at most the one that comes next. -/
theorem reread_next (supported : Supported host.config.autoExecutorSelection (seen.map mark) (mark entry) (rest.map mark))
    (reads : ReadsBack host inetNtop entry value) (anonymous : Anonymous host.dhcpHostname (seen ++ entry :: rest)) :
    rereadVar host seen entry = seen ++ [entry] ∨
      ∃ executor later, rest = (str "use", .text executor) :: later ∧
        rereadVar host seen entry = seen ++ [entry] ++ [(str "use", .text executor)] := by
  obtain ⟨key, data⟩ := entry
  obtain ⟨-, -, -, -, kind, remapped, data_⟩ := reads
  obtain ⟨static, use, named, dashed⟩ := supported
  have inside {executor : Str} (member : (str "use", .text executor) ∈ seen) : host.dhcpHostname = none ∨ executor ≠ str "dhcp" :=
    anonymous.plain (List.mem_append_left _ member)
  unfold rereadVar
  dsimp only [mark] at static use named dashed remapped kind data_ ⊢
  cases data with
  | address addr =>
    obtain ⟨rfl, -⟩ := data_
    have present := mem_marks.mp (static (Or.inl rfl))
    exact Or.inl (by rw [useVars_present (Or.inl rfl) present]; rfl)
  | text text =>
    simp only [stanzaKinds, List.mem_cons, List.not_mem_nil, or_false] at kind
    rcases kind with kind | kind | kind | kind | kind
    all_goals simp only [kind]
    · split
      · rename_i adds
        have other : key ≠ str "use" ∧ key ≠ str "dhcp-hostname" := by
          constructor
          all_goals
            rintro rfl
            exact absurd kind (by decide)
        rcases dashed adds.1 adds.2 other.2 with present | next
        · have present := mem_marks.mp present
          exact Or.inl (useVars_present (inside present) (List.mem_append_left _ present))
        · obtain ⟨first, later, rfl⟩ : ∃ first later, rest = first :: later := by
            cases rest with
            | nil => cases next
            | cons first later => exact ⟨first, later, rfl⟩
          have first_ : first = (str "use", .text (executorOf key)) := by
            have member : usedMark (executorOf key) ∈ [first].map mark := by
              rw [List.map_singleton, List.mem_singleton]
              exact (Option.some_inj.mp next).symm
            exact (List.mem_singleton.mp (mem_marks.mp member)).symm
          subst first_
          have plain : host.dhcpHostname = none ∨ executorOf key ≠ str "dhcp" := anonymous.plain (by simp)
          rw [show useVars host.dhcpHostname (lifDictAdd seen key (.text text)) (key.takeWhile fun c => c != 45) = _ from
            useVars_once plain, lifDictAddOnce]
          split
          · exact Or.inl rfl
          · exact Or.inr ⟨executorOf key, later, rfl, rfl⟩
      · exact Or.inl rfl
    · exact absurd ((lineKind_only kind).address rfl) data_.1
    · obtain rfl := (lineKind_only kind).gateway rfl
      have present := mem_marks.mp (static (Or.inr rfl))
      exact Or.inl (by rw [useVars_present (inside present) present]; rfl)
    · obtain rfl := ((lineKind_only kind).hostname rfl).resolve_right (not_not.mpr remapped)
      have absent : str "dhcp-hostname" ∉ lifDictKeys seen := by
        intro member
        obtain ⟨other, inside, same⟩ := List.mem_map.mp member
        exact named rfl (mark other) (List.mem_map_of_mem inside) same
      exact Or.inl (by rw [lifDictDelete_absent absent]; rfl)
    · obtain rfl := (lineKind_only kind).use rfl
      rw [if_pos rfl] at use
      have fresh : (str "use", VarData.text text) ∉ seen := mt mem_marks.mpr (use rfl)
      have plain : host.dhcpHostname = none ∨ text ≠ str "dhcp" := anonymous.plain (by simp)
      exact Or.inl (by rw [useVars_once plain, lifDictAddOnce, if_neg fresh]; rfl)

theorem reread_used (anonymous : Anonymous host.dhcpHostname vars) (present : (str "use", .text executor) ∈ vars) :
    rereadVar host vars (str "use", .text executor) = vars := by
  unfold rereadVar
  simp only [lineKind_use]
  exact useVars_present (anonymous.plain present) present

/-- Reading the lines of such variables one after the other gives the variables. -/
theorem foldl_reread (orderly : Orderly host.config.autoExecutorSelection vars)
    (reads : ∀ entry ∈ vars, ReadsBack host inetNtop entry (shownValue inetNtop entry)) (anonymous : Anonymous host.dhcpHostname vars)
    (first : start <+: vars) (uses : ∀ entry ∈ start, ∃ executor, entry = (str "use", .text executor)) :
    vars.foldl (rereadVar host) start = vars := by
  -- a line behind `seen` finds `seen`, or `seen` and the variable that it is about
  have rereads (rest seen now : LifDict VarData) (all : vars = seen ++ rest)
      (read : now = seen ∨ ∃ executor later, rest = (str "use", .text executor) :: later ∧
        now = seen ++ [(str "use", .text executor)]) : rest.foldl (rereadVar host) now = vars := by
    induction rest generalizing seen now with
    | nil =>
      rcases read with rfl | ⟨executor, later, none, -⟩
      · rw [all, List.append_nil]
        rfl
      · cases none
    | cons entry rest ih =>
      have all' : vars = (seen ++ [entry]) ++ rest := by rw [all]; simp
      rw [List.foldl_cons]
      rcases read with rfl | ⟨executor, later, same, rfl⟩
      · have supported := orderly (now.map mark) (mark entry) (rest.map mark) (by rw [all]; simp)
        rcases reread_next supported (reads entry (by rw [all]; simp)) (by rwa [all] at anonymous) with plain | ⟨executor, later, next, both⟩
        · exact ih _ _ all' (Or.inl plain)
        · exact ih _ _ all' (Or.inr ⟨executor, later, next, both⟩)
      · obtain ⟨rfl, rfl⟩ := List.cons.inj same
        refine ih _ _ all' (Or.inl (reread_used ?_ (by simp)))
        refine anonymous.imp_right fun absent member => absent ?_
        rw [all']
        exact List.mem_append_left _ member
  obtain ⟨rest, rfl⟩ := first
  have begin_ (some_ : LifDict VarData) (part : some_ ⊆ start) : some_.foldl (rereadVar host) start = start := by
    induction some_ with
    | nil => rfl
    | cons entry later ih =>
      obtain ⟨own, others⟩ := List.cons_subset.mp part
      obtain ⟨executor, rfl⟩ := uses entry own
      rw [List.foldl_cons, reread_used (anonymous.imp_right fun absent member => absent (List.mem_append_left _ member)) own]
      exact ih others
  rw [List.foldl_append, begin_ start (List.Subset.refl start)]
  exact rereads rest start start rfl (Or.inl rfl)

end

end Ifupdown
