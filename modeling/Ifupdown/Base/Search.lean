import Ifupdown.Base.Text

/-! Comparing C strings, and the binary search of the C library. -/
namespace Ifupdown

/-- `strcmp`, which compares unsigned bytes. -/
def strcmp : Str → Str → Ordering
  | [], [] => .eq
  | [], _ :: _ => .lt
  | _ :: _, [] => .gt
  | a :: as, b :: bs => if a < b then .lt else if b < a then .gt else strcmp as bs

def bsearchLoop (compar : α → Ordering) : Nat → List α → Option α
  | 0, _ => none
  | fuel + 1, table =>
    match table.drop (table.length / 2) with
    | [] => none
    | entry :: above =>
      match compar entry with
      | .lt => bsearchLoop compar fuel (table.take (table.length / 2))
      | .gt => bsearchLoop compar fuel above
      | .eq => some entry

def bsearch (compar : α → Ordering) (table : List α) : Option α := bsearchLoop compar table.length table

theorem strcmp_eq {a b : Str} : strcmp a b = .eq ↔ a = b := by
  induction a generalizing b with
  | nil => cases b <;> simp [strcmp]
  | cons x as ih =>
    cases b with
    | nil => simp [strcmp]
    | cons y bs =>
      unfold strcmp
      rw [List.cons.injEq]
      by_cases less : x < y
      · simp [less, UInt8.ne_of_lt less]
      by_cases more : y < x
      · simp [less, more, (UInt8.ne_of_lt more).symm]
      have same : x = y := UInt8.le_antisymm (UInt8.not_lt.mp more) (UInt8.not_lt.mp less)
      simp [same, UInt8.lt_irrefl, ih]

theorem bsearch_found {compar : α → Ordering} {table : List α} {entry : α} (h : bsearch compar table = some entry) :
    entry ∈ table ∧ compar entry = .eq := by
  have loop (fuel : Nat) (table : List α) (h : bsearchLoop compar fuel table = some entry) :
      entry ∈ table ∧ compar entry = .eq := by
    induction fuel generalizing table with
    | zero => cases h
    | succ fuel ih =>
      unfold bsearchLoop at h
      split at h
      · cases h
      · rename_i middle above rest
        have inside : ∀ e ∈ middle :: above, e ∈ table := by
          intro e member
          rw [← rest] at member
          exact List.mem_of_mem_drop member
        split at h
        · obtain ⟨member, same⟩ := ih _ h
          exact ⟨List.mem_of_mem_take member, same⟩
        · obtain ⟨member, same⟩ := ih _ h
          exact ⟨inside _ (List.mem_cons_of_mem _ member), same⟩
        · cases h
          exact ⟨inside _ List.mem_cons_self, ‹_›⟩
  exact loop _ _ h

theorem strcmp_trans {key a b : Str} (first : strcmp key a ≠ .gt) (next : strcmp a b = .lt) : strcmp key b = .lt := by
  induction key generalizing a b with
  | nil =>
    cases b with
    | nil => cases a <;> cases next
    | cons y bs => rfl
  | cons k ks ih =>
    cases a with
    | nil => exact absurd rfl first
    | cons x as =>
      cases b with
      | nil => cases next
      | cons y bs =>
        unfold strcmp at first next ⊢
        by_cases below : k < x
        · by_cases less : x < y
          · rw [if_pos (UInt8.lt_trans below less)]
          · rw [if_neg less] at next
            split at next
            · cases next
            · rename_i same
              rw [UInt8.le_antisymm (UInt8.not_lt.mp same) (UInt8.not_lt.mp less)] at below
              rw [if_pos below]
        rw [if_neg below] at first
        by_cases above : x < k
        · rw [if_pos above] at first
          exact absurd rfl first
        rw [if_neg above] at first
        obtain rfl : k = x := UInt8.le_antisymm (UInt8.not_lt.mp above) (UInt8.not_lt.mp below)
        by_cases less : k < y
        · rw [if_pos less]
        rw [if_neg less] at next ⊢
        split at next
        · cases next
        · rename_i more
          rw [if_neg more]
          exact ih first next

/-- In a table that the comparison finds ordered, halving finds what a scan finds. -/
theorem bsearch_scan {compar : α → Ordering} {table : List α}
    (ordered : table.Pairwise fun a b => compar a ≠ .gt → compar b = .lt) :
    bsearch compar table = table.find? fun entry => compar entry == .eq := by
  have loop (fuel : Nat) (table : List α) (enough : table.length ≤ fuel)
      (ordered : table.Pairwise fun a b => compar a ≠ .gt → compar b = .lt) :
      bsearchLoop compar fuel table = table.find? fun entry => compar entry == .eq := by
    induction fuel generalizing table with
    | zero =>
      rw [List.length_eq_zero_iff.mp (Nat.le_zero.mp enough)]
      rfl
    | succ fuel ih =>
      unfold bsearchLoop
      have whole := List.take_append_drop (table.length / 2) table
      have half : (table.take (table.length / 2)).length ≤ fuel := by
        rw [List.length_take]
        omega
      generalize table.take (table.length / 2) = below at whole half
      generalize split_ : table.drop (table.length / 2) = above at whole
      subst whole
      obtain ⟨before, after, across⟩ := List.pairwise_append.mp ordered
      rw [List.find?_append]
      cases above with
      | nil =>
        have none : below = [] := by
          rw [List.append_nil, List.drop_eq_nil_iff] at split_
          exact List.length_eq_zero_iff.mp (by omega)
        rw [none]
        rfl
      | cons middle above =>
        obtain ⟨first, after⟩ := List.pairwise_cons.mp after
        have behind (reached : compar middle ≠ .lt) : below.find? (fun entry => compar entry == .eq) = none := by
          rw [List.find?_eq_none]
          intro entry member same
          refine reached (across entry member middle List.mem_cons_self ?_)
          rw [eq_of_beq same]
          decide
        dsimp only
        cases compared : compar middle with
        | lt =>
          have none : (middle :: above).find? (fun entry => compar entry == .eq) = none := by
            rw [List.find?_eq_none]
            intro entry member
            rcases List.mem_cons.mp member with rfl | later
            · rw [compared]
              decide
            · rw [first entry later (by rw [compared]; decide)]
              decide
          rw [none, Option.or_none]
          exact ih below half before
        | gt =>
          rw [behind (by rw [compared]; decide), Option.none_or, List.find?_cons, compared]
          refine ih above ?_ after
          rw [List.length_append, List.length_cons] at enough
          omega
        | eq =>
          rw [behind (by rw [compared]; decide), Option.none_or, List.find?_cons, compared]
          rfl
  exact loop _ _ (Nat.le_refl _) ordered

/-- In a table that is sorted by its names, halving finds the entry with the name. -/
theorem bsearch_sorted {name : α → Str} {table : List α} (sorted : table.Pairwise fun a b => strcmp (name a) (name b) = .lt) (key : Str) :
    bsearch (fun entry => strcmp key (name entry)) table = table.find? fun entry => name entry = key := by
  rw [bsearch_scan (sorted.imp fun next first => strcmp_trans first next)]
  refine congrArg (fun p => table.find? p) (funext fun entry => ?_)
  rw [Bool.eq_iff_iff, beq_iff_eq, decide_eq_true_iff, strcmp_eq, eq_comm]

theorem bsearch_absent {compar : α → Ordering} {table : List α} (absent : ∀ entry ∈ table, compar entry ≠ .eq) :
    bsearch compar table = none := by
  cases found : bsearch compar table with
  | none => rfl
  | some entry =>
    obtain ⟨member, same⟩ := bsearch_found found
    exact absurd same (absent entry member)

example : bsearch (fun entry => strcmp (str "up") entry) [str "down", str "status", str "up"] = some (str "up") := by
  decide

end Ifupdown
