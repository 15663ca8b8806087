import Ifupdown.Resolver.Counting
import Ifupdown.Resolver.Termination

/-! After its dependencies have been counted a collection has all names that it requires. -/
namespace Ifupdown

/-- The names that these interfaces require are there, but for interfaces that are still on the path. -/
def Complete (P : Str → Prop) (s : Survey) : Prop :=
  ∀ x, P x → s.pending x = false → ∀ d ∈ s.requires x, d ∈ lifDictKeys s.collection.entries

/-- What a count from `token` that succeeds leaves alone, and what it makes complete. -/
structure Explores (token : Str) (s s' : Survey) : Prop where
  waits : ∀ x, s.pending x = true → s'.requires x = s.requires x
  complete : ∀ P, Complete P s → Complete (fun x => P x ∨ x = token) s'

variable {env : DependEnv} {opts : LifExecuteOpts} {s s' : Survey} {parent token : Str} {depth : Nat} {P Q : Str → Prop}

theorem Complete.mono (complete : Complete Q s) (fewer : ∀ x, P x → Q x) : Complete P s :=
  fun x member => complete x (fewer x member)

theorem Complete.find (complete : Complete P s) (token : Str) : Complete P (s.find token) := by
  intro x member idle d needed
  rw [find_pending] at idle
  rw [find_requires] at needed
  exact (find_keys s.collection token).subset (complete x member idle d needed)

theorem find_known (s : Survey) (token : Str) : token ∈ lifDictKeys (s.find token).collection.entries := by
  rw [Survey.find, collectionFind_keys]
  split
  · rename_i present
    rw [Option.isSome_iff_ne_none] at present
    rw [List.append_nil]
    exact not_not.mp (mt lifDictFind_none.mpr present)
  · simp

theorem countTokens_explores {count : Survey → Str → Nat → Option (Bool × Survey)} {tokens : List Str}
    (counts : ∀ {s s' : Survey} {token : Str}, count s token (depth + 1) = some (true, s') →
      SurveySteps env opts s s' ∧ s'.pending = s.pending ∧ Explores token s s')
    (h : countTokens count depth tokens s = some (true, s')) :
    (∀ x, s.pending x = true → s'.requires x = s.requires x) ∧ (∀ P, Complete P s → Complete P s') ∧
      SurveySteps env opts s s' ∧ ∀ token ∈ tokens, token ∈ lifDictKeys s'.collection.entries := by
  induction tokens generalizing s with
  | nil =>
    cases h
    exact ⟨fun _ _ => rfl, fun _ complete => complete, .refl, by simp⟩
  | cons token rest ih =>
    unfold countTokens at h
    split at h
    · cases h
    · rename_i next result
      obtain ⟨steps, same, explores⟩ := counts result
      obtain ⟨waits, complete, later, known⟩ := ih h
      refine ⟨fun x pending => ?_, fun P before => ?_, .head (.find s token) (steps.trans later), ?_⟩
      · have first := explores.waits x (by rw [← pending]; exact find_pending token x)
        rw [waits x (by rw [same, ← pending]; exact find_pending token x), first]
        exact find_requires token x
      · have after := explores.complete P (before.find token)
        exact complete P (after.mono fun x member => Or.inl member)
      · rw [List.forall_mem_cons]
        exact ⟨later.keys.subset (steps.keys.subset (find_known s token)), known⟩
    · cases h

/-- An interface is left when all names have been found that it requires, and those do not change while it is on the path. -/
theorem countInterfaceRdepends_explores {fuel : Nat} (h : countInterfaceRdepends env opts fuel s parent depth = some (true, s')) :
    Explores parent s s' := by
  induction fuel generalizing s s' parent depth with
  | zero => cases h
  | succ fuel ih =>
    rcases countInterfaceRdepends_cases h with ⟨pending, -, rfl⟩ | ⟨idle, ⟨-, failed, -⟩ | ⟨answer, last, query, result, rfl⟩⟩
    · refine ⟨fun _ _ => rfl, fun P complete x member idle => ?_⟩
      rcases member with member | rfl
      · exact complete x member idle
      · rw [pending] at idle
        cases idle
    · cases failed
    · obtain ⟨waits, complete, steps, known⟩ := countTokens_explores (fun h =>
        ⟨(countInterfaceRdepends_steps h).1, (countInterfaceRdepends_steps h).2, ih h⟩) result
      have other {x : Str} (apart : x ≠ parent) : (s.enter parent depth answer).requires x = s.requires x := by
        rw [enter_requires, if_neg (Ne.symm apart)]
      have left : lifDictKeys last.collection.entries <+: lifDictKeys (last.setPending parent false).collection.entries :=
        (SurveyStep.leave last parent : SurveyStep env opts _ _).keys
      refine ⟨fun x pending => ?_, fun P before x member idle' d needed => left.subset ?_⟩
      · have apart : x ≠ parent := by
          rintro rfl
          rw [idle] at pending
          cases pending
        rw [leave_requires, waits x (by rw [enter_pending, pending, Bool.true_or]), other apart]
      · rw [leave_requires] at needed
        by_cases own : x = parent
        · subst own
          rw [waits x (by simp)] at needed
          exact known d needed
        · have entered : Complete (fun x => P x ∧ x ≠ parent) (s.enter parent depth answer) := by
            rintro y ⟨member, apart⟩ idle' d needed
            rw [enter_pending, Bool.or_eq_false_iff] at idle'
            rw [other apart] at needed
            exact (SurveyStep.keys (.enter depth query)).subset (before y member idle'.1 d needed)
          rw [leave_pending] at idle'
          refine complete _ entered x ⟨member.resolve_right own, own⟩ ?_ d needed
          simpa [Ne.symm own] using idle'

theorem countEntries_complete {fuel rounds i : Nat} (idle : ∀ x, s.pending x = false)
    (done : Complete (fun x => x ∈ (lifDictKeys s.collection.entries).take i) s)
    (h : countEntries env opts fuel rounds i s = some (true, s')) :
    ∀ x ∈ lifDictKeys s'.collection.entries, ∀ d ∈ s'.requires x, d ∈ lifDictKeys s'.collection.entries := by
  induction rounds generalizing i s with
  | zero => cases h
  | succ rounds ih =>
    unfold countEntries at h
    split at h
    · rename_i past
      have all : (lifDictKeys s.collection.entries).take i = lifDictKeys s.collection.entries := by
        refine List.take_of_length_le ?_
        rw [List.length_map]
        exact List.getElem?_eq_none_iff.mp past
      cases h
      rw [all] at done
      exact fun x member => done x member (idle x)
    · rename_i name iface entry
      split at h
      · cases h
      · rename_i next result
        obtain ⟨steps, same⟩ := countInterfaceRdepends_steps result
        refine ih (fun x => by rw [same, idle]) ?_ h
        rw [steps.take_keys entry]
        refine ((countInterfaceRdepends_explores result).complete _ done).mono fun x member => ?_
        exact (List.mem_append.mp member).imp_right List.mem_singleton.mp
      · cases h

theorem collection_survey (collection : Collection) : Survey.Within collection.names { collection := collection } := by
  constructor
  · intro x member
    obtain ⟨entry, listed, rfl⟩ := List.mem_map.mp member
    rw [Collection.names, List.mem_toFinset, List.mem_flatMap]
    exact ⟨entry, listed, List.mem_cons_self⟩
  · intro x d member
    exact collection_within { collection := collection, state := StateDict.empty, executed := 0, trace := [] } x d member

end Ifupdown
