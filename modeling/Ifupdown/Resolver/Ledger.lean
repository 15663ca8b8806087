import Ifupdown.Resolver.Termination
import Ifupdown.Resolver.BringUp

/-! The entries that a run makes in the books, and the names that it makes them under. -/
namespace Ifupdown

def Entered (G : DepGraph α) (up : Bool) (c : α → Nat) (i d : α) : Prop :=
  d ∈ G.req i ∧ if up then c d = 0 else G.explicit d = false

/-- A dependency of `i`, or of something that a run goes into below `i`. -/
def Posted (G : DepGraph α) (up : Bool) (c : α → Nat) (i d : α) : Prop :=
  ∃ j, Relation.ReflTransGen (Entered G up c) i j ∧ d ∈ G.req j

theorem Posted.below {G : DepGraph α} {up : Bool} {c : α → Nat} {i j d : α} (edge : Entered G up c i j)
    (posted : Posted G up c j d) : Posted G up c i d := by
  obtain ⟨k, walk, required⟩ := posted
  exact ⟨k, walk.head edge, required⟩

theorem Posted.direct {G : DepGraph α} {up : Bool} {c : α → Nat} {i d : α} (required : d ∈ G.req i) :
    Posted G up c i d := ⟨i, .refl, required⟩

/-- `w'` is left after entries for names with `p`, each under itself, and then the entries `own`. -/
def Posts (up : Bool) (p : Str → Prop) (own : List (Str × Str)) (w w' : World) : Prop :=
  ∃ names : List Str, w'.books = (names.map (fun d => (d, d)) ++ own).foldl (Books.post up) w.books ∧
    ∀ d ∈ names, p d

theorem posts_same {w w' : World} (same : w'.books = w.books) : Posts up p [] w w' :=
  ⟨[], same, by simp⟩

theorem Posts.imp {w w' : World} (h : Posts up p own w w') (weaker : ∀ d, p d → q d) : Posts up q own w w' := by
  obtain ⟨names, books, all⟩ := h
  exact ⟨names, books, fun d member => weaker d (all d member)⟩

theorem Posts.trans {a b c : World} (first : Posts up p [] a b) (second : Posts up p own b c) :
    Posts up p own a c := by
  obtain ⟨names, books, all⟩ := first
  obtain ⟨names', books', all'⟩ := second
  refine ⟨names ++ names', ?_, List.forall_mem_append.mpr ⟨all, all'⟩⟩
  rw [books', books, List.append_nil, List.map_append, List.append_assoc, List.foldl_append (l := names.map _)]

theorem posts_one {w w' : World} {token : Str} (books : w'.books = w.books.post up (token, token)) (named : p token) :
    Posts up p [] w w' := ⟨[token], books, by simpa using named⟩

theorem Posts.plain {w w' : World} {own : List (Str × Str)} (h : Posts up p own w w')
    (self : ∀ entry ∈ own, entry.1 = entry.2 ∧ p entry.2) :
    Posts up p [] w w' := by
  obtain ⟨names, books, all⟩ := h
  have same : (own.map Prod.snd).map (fun d => (d, d)) = own := by
    rw [List.map_map]
    refine (List.map_congr_left fun entry member => ?_).trans (List.map_id own)
    exact Prod.ext (self entry member).1.symm rfl
  refine ⟨names ++ own.map Prod.snd, ?_, List.forall_mem_append.mpr ⟨all, ?_⟩⟩
  · rw [books, List.map_append, same, List.append_nil]
  · intro d member
    obtain ⟨entry, listed, rfl⟩ := List.mem_map.mp member
    exact (self entry listed).2

theorem foldl_post_count (entries : List (Str × Str)) (books : Books) (x : Str) :
    books.count x ≤ (entries.foldl (Books.post true) books).count x := by
  induction entries generalizing books with
  | nil => exact Nat.le_refl _
  | cons entry rest ih =>
    refine Nat.le_trans ?_ (ih (books.post true entry))
    show books.count x ≤ ref books.count entry.2 x
    rw [ref_apply]
    omega

theorem Posts.mono {w w' : World} (h : Posts true p own w w') (x : Str) : w.count x ≤ w'.count x := by
  obtain ⟨names, books, -⟩ := h
  have grown := foldl_post_count (names.map (fun d => (d, d)) ++ own) w.books x
  rw [← books] at grown
  exact grown

theorem post_uncounted {books : Books} {k x : Str} (zero : books.count x = 0) : books.post false (k, x) = books := by
  have count : counting false books.count x = books.count := by
    funext y
    simp only [counting, Bool.false_eq_true, if_false, unref_apply]
    split
    · rename_i same
      rw [same, zero]
    · rfl
  have state : (lifStateUnrefIf books.state k (books.iface x)).1 = books.state := by
    unfold lifStateUnrefIf
    rw [if_pos (show (books.iface x).refcount = 0 from zero)]
  simp only [Books.post, count, Bool.false_eq_true, if_false, state]

/-- The rule for a list of entries. Going down, those for uncounted interfaces are left out. -/
theorem foldl_post_invariant {p : Books → Prop} {c : Str → Nat} {up : Bool} {entries : List (Str × Str)} {books : Books}
    (low : up = false → ∀ x, books.count x ≤ c x)
    (post : ∀ books, ∀ entry ∈ entries, up = true ∨ 0 < c entry.2 → p books → p (books.post up entry))
    (start : p books) : p (entries.foldl (Books.post up) books) := by
  induction entries generalizing books with
  | nil => exact start
  | cons entry rest ih =>
    obtain ⟨k, x⟩ := entry
    have later : ∀ books, ∀ entry ∈ rest, up = true ∨ 0 < c entry.2 → p books → p (books.post up entry) :=
      fun books entry member => post books entry (List.mem_cons_of_mem _ member)
    cases up with
    | true => exact ih (by simp) later (post books (k, x) List.mem_cons_self (Or.inl rfl) start)
    | false =>
      rw [List.foldl_cons]
      by_cases zero : books.count x = 0
      · rw [post_uncounted zero]
        exact ih low later start
      · have high := low rfl x
        refine ih (fun _ y => ?_) later (post books (k, x) List.mem_cons_self (Or.inr (by dsimp only; omega)) start)
        have lower := low rfl y
        show unref books.count x y ≤ c y
        rw [unref_apply]
        omega

/-- The entry that a run of `iface` ends with. -/
def ownEntry (path : List Str) (iface lifname : Str) (ok : Bool) : List (Str × Str) :=
  if ok = true ∧ iface ∉ path then [(lifname, iface)] else []

theorem ownEntry_self {token : Str} {p : Str → Prop} (named : p token) :
    ∀ entry ∈ ownEntry path token token ok, entry.1 = entry.2 ∧ p entry.2 := by
  intro entry member
  unfold ownEntry at member
  split at member
  · rw [List.mem_singleton.mp member]
    exact ⟨rfl, named⟩
  · cases member

section
variable {G : DepGraph Str} {opts : LifExecuteOpts} {up : Bool} {c : Str → Nat} {path : List Str}

theorem dependentsLoop_posts (parent : Str) {run : World → Str → Option (Bool × World)}
    (runs : ∀ w token ok w', w.Pending path → w.collection.graph opts = G → (up = true → ∀ x, c x ≤ w.count x) →
      run w token = some (ok, w') →
        (∃ ev, Evolves True path w w' ev) ∧ Posts up (Posted G up c token) (ownEntry path token token ok) w w')
    {tokens : List Str} {w w' : World} (pending : w.Pending path) (graph : w.collection.graph opts = G)
    (low : up = true → ∀ x, c x ≤ w.count x) (required : ∀ d ∈ tokens.filter (w.collection.usable opts), d ∈ G.req parent)
    (h : dependentsLoop run opts up tokens w = some (ok, w')) : Posts up (Posted G up c parent) [] w w' := by
  induction tokens generalizing w with
  | nil =>
    cases h
    exact posts_same rfl
  | cons token rest ih =>
    obtain ⟨unusable, w₁, books, step, h⟩ | ⟨usable, w₁, books, step, outcome⟩ := dependentsLoop_cases pending h
    · rw [List.filter_cons_of_neg (by simp [unusable]), ← usable_congr opts step.config] at required
      refine (posts_same books).trans (ih step.pending ((step.graph opts).trans graph) (fun rises x => ?_) required h)
      rw [show w₁.count = w.count from congrArg Books.count books]
      exact low rises x
    · rw [List.filter_cons_of_pos usable] at required
      obtain ⟨head, tail⟩ := List.forall_mem_cons.mp required
      have first : Posts up (Posted G up c parent) [] w w₁ := posts_one books (.direct head)
      have graph₁ := (step.graph opts).trans graph
      have low₁ : up = true → ∀ x, c x ≤ w₁.count x := by
        intro rises x
        subst rises
        exact (low rfl x).trans (first.mono x)
      have entered : passes (w.collection.graph opts) up w.count token = false → Entered G up c parent token := by
        intro passed
        refine ⟨head, ?_⟩
        cases up with
        | true =>
          have zero := passes_up_no.mp passed
          have below := low rfl token
          simp only [if_true]
          omega
        | false =>
          rw [graph] at passed
          exact (passes_down_no.mp passed).2
      have below : ∀ {ok w₂}, passes (w.collection.graph opts) up w.count token = false → run w₁ token = some (ok, w₂) →
          (∃ ev, Evolves True path w₁ w₂ ev) ∧ Posts up (Posted G up c parent) [] w₁ w₂ := by
        intro ok w₂ passed result
        obtain ⟨evolves, posts⟩ := runs _ _ _ _ step.pending graph₁ low₁ result
        exact ⟨evolves, (posts.imp fun d posted => posted.below (entered passed)).plain (ownEntry_self (.direct head))⟩
      rw [← usable_congr opts step.config] at tail
      obtain ⟨-, h⟩ | ⟨passed, ⟨w₂, result, h⟩ | ⟨result, rfl⟩⟩ := outcome
      · exact first.trans (ih step.pending graph₁ low₁ tail h)
      · obtain ⟨⟨ev, evolves⟩, posts⟩ := below passed result
        refine first.trans (posts.trans (ih evolves.pending ((evolves.graph opts).trans graph₁) ?_ ?_ h))
        · intro rises x
          subst rises
          exact (low₁ rfl x).trans (posts.mono x)
        · rwa [usable_congr opts evolves.config]
      · exact first.trans (below passed result).2

theorem handleDependents_posts {run : World → Str → Option (Bool × World)}
    (runs : ∀ w token ok w', w.Pending (parent :: path) → w.collection.graph opts = G →
      (up = true → ∀ x, c x ≤ w.count x) → run w token = some (ok, w') →
        (∃ ev, Evolves True (parent :: path) w w' ev) ∧
          Posts up (Posted G up c token) (ownEntry (parent :: path) token token ok) w w')
    {w w' : World} (pending : w.Pending path) (graph : w.collection.graph opts = G)
    (low : up = true → ∀ x, c x ≤ w.count x) (h : handleDependents run opts parent w up = some (ok, w')) :
    Posts up (Posted G up c parent) [] w w' := by
  unfold handleDependents at h
  split at h
  · cases h
    exact posts_same rfl
  · have enter := evolves_enter True pending parent
    split at h
    · cases h
    · rename_i w₁ result
      cases h
      have loop := dependentsLoop_posts parent runs enter.pending ((enter.graph opts).trans graph)
        (by rwa [count_setPending]) ?_ result
      · exact ((posts_same (books_setPending w parent true)).trans loop).trans (posts_same (books_setPending ..))
      · intro d member
        rw [usable_congr opts enter.config] at member
        rw [← graph]
        exact member

theorem books_runPhases {w w' : World} (h : runPhases env opts iface lifname up phases w = (ok, w')) :
    w'.books = w.books := by
  obtain ⟨collection, state, -⟩ := runPhases_logged h
  unfold World.books World.count
  rw [collection, state]

theorem ownEntry_false (path : List Str) (iface lifname : Str) : ownEntry path iface lifname false = [] :=
  if_neg fun h => Bool.false_ne_true h.1

/-- A run makes entries for the dependencies that it comes by, and a last one of its own. -/
theorem lifLifecycleRun_posts {w w' : World} (pending : w.Pending path) (graph : w.collection.graph opts = G)
    (low : up = true → ∀ x, c x ≤ w.count x)
    (h : lifLifecycleRun env opts fuel w iface lifname up = some (ok, w')) :
    Posts up (Posted G up c iface) (ownEntry path iface lifname ok) w w' := by
  induction fuel generalizing w path iface lifname ok w' with
  | zero => cases h
  | succ fuel ih =>
    have runs : ∀ w token ok w', w.Pending (iface :: path) → w.collection.graph opts = G →
        (up = true → ∀ x, c x ≤ w.count x) →
        lifLifecycleRun env opts fuel w token (w.collection.iface token).ifname up = some (ok, w') →
          (∃ ev, Evolves True (iface :: path) w w' ev) ∧
            Posts up (Posted G up c token) (ownEntry (iface :: path) token token ok) w w' := by
      intro w token ok w' pending graph low result
      rw [Collection.iface_ifname] at result
      obtain ⟨ev, evolves⟩ := lifLifecycleRun_follows pending result
      exact ⟨⟨ev, evolves.imp fun _ => rfl⟩, ih pending graph low result⟩
    unfold lifLifecycleRun at h
    rw [pending iface] at h
    by_cases loop : iface ∈ path
    · simp only [loop, decide_true, if_true] at h
      cases h
      rw [ownEntry, if_neg fun h => h.2 loop]
      exact posts_same rfl
    simp only [loop, decide_false, Bool.false_eq_true, if_false] at h
    split at h
    · cases h
      rw [ownEntry_false]
      exact posts_same rfl
    have last : ownEntry path iface lifname true = [(lifname, iface)] := if_pos ⟨rfl, loop⟩
    cases up with
    | true =>
      simp only [if_true] at h
      rcases result : handleDependents (fun w iface => lifLifecycleRun env opts fuel w iface
          (w.collection.iface iface).ifname true) opts iface w true with _ | ⟨done, w₁⟩ <;> rw [result] at h
      · cases h
      have deps := handleDependents_posts runs pending graph low result
      cases done with
      | false =>
        cases h
        rw [ownEntry_false]
        exact deps
      | true =>
        dsimp only at h
        rcases phases : runPhases env opts iface lifname true upPhases w₁ with ⟨finished, w₂⟩
        have whole := deps.trans (posts_same (books_runPhases phases))
        rw [phases] at h
        cases finished with
        | false =>
          cases h
          rw [ownEntry_false]
          exact whole
        | true =>
          cases h
          rw [last]
          exact whole.trans ⟨[], books_refIf w₂ lifname iface, by simp⟩
    | false =>
      simp only [Bool.false_eq_true, if_false] at h
      rcases phases : runPhases env opts iface lifname false downPhases w with ⟨finished, w₁⟩
      have first : Posts false (Posted G false c iface) [] w w₁ := posts_same (books_runPhases phases)
      obtain ⟨ev, -, step, -⟩ := evolves_runPhases True pending phases
      rw [phases] at h
      cases finished with
      | false =>
        cases h
        rw [ownEntry_false]
        exact first
      | true =>
        dsimp only at h
        rcases result : handleDependents (fun w iface => lifLifecycleRun env opts fuel w iface
            (w.collection.iface iface).ifname false) opts iface w₁ false with _ | ⟨done, w₂⟩ <;> simp only [result] at h
        · cases h
        have whole := first.trans (handleDependents_posts runs step.pending ((step.graph opts).trans graph) (by simp) result)
        cases done with
        | false =>
          cases h
          rw [ownEntry_false]
          exact whole
        | true =>
          cases h
          rw [last]
          exact whole.trans ⟨[], books_unrefIf w₂ lifname iface, by simp⟩

theorem mapped_names (names : List Str) (books : Books) (j : Str) :
    ((names.map (fun d => (d, d))).foldl (Books.post true) books).state.mapped j =
      if j ∈ names then some j else books.state.mapped j := by
  induction names generalizing books with
  | nil => simp
  | cons d rest ih =>
    rw [List.map_cons, List.foldl_cons, ih, mapped_post]
    by_cases later : j ∈ rest
    · simp [later]
    · by_cases same : j = d
      · simp [same]
      · simp [later, same]

theorem count_posts (entries : List (Str × Str)) (books : Books) (x : Str) :
    (entries.foldl (Books.post true) books).count x = books.count x + (entries.filter (fun entry => entry.2 = x)).length := by
  induction entries generalizing books with
  | nil => rfl
  | cons entry rest ih =>
    rw [List.foldl_cons, ih]
    show ref books.count entry.2 x + _ = _
    rw [ref_apply]
    by_cases same : entry.2 = x
    · rw [List.filter_cons_of_pos (by simpa using same), if_pos same.symm, List.length_cons]
      omega
    · rw [List.filter_cons_of_neg (by simpa using same), if_neg (Ne.symm same)]
      rfl

theorem up_entered {i j : Str} {c' : Str → Nat} (run : Up G [] (.run i l) c true c' ev)
    (walk : Relation.ReflTransGen (Entered G true c) i j) : j ∈ ups ev := by
  induction walk with
  | refl => exact (up_run_true run).resolve_left List.not_mem_nil
  | @tail b d _ edge up =>
    have zero : c d = 0 := edge.2
    rcases up_counted run rfl (up_dependency_counted run up edge.1) with before | up | pending
    · omega
    · exact up
    · cases pending

/-- A successful bring-up makes an entry for every dependency that it comes by. -/
theorem lifLifecycleRun_up_posts {w w' : World} (pending : w.Pending [])
    (h : lifLifecycleRun env opts fuel w iface lifname true = some (true, w')) :
    ∃ names : List Str, w'.books = (names.map (fun d => (d, d)) ++ [(lifname, iface)]).foldl (Books.post true) w.books ∧
      ∀ d, d ∈ names ↔ Posted (w.collection.graph opts) true w.count iface d := by
  obtain ⟨names, books, posted⟩ := lifLifecycleRun_posts pending rfl (fun _ _ => Nat.le_refl _) h
  rw [ownEntry, if_pos ⟨rfl, List.not_mem_nil⟩] at books
  refine ⟨names, books, fun d => ⟨posted d, fun required => ?_⟩⟩
  obtain ⟨j, walk, edge⟩ := required
  obtain ⟨ev, run, -⟩ := lifLifecycleRun_up pending h
  have own := (up_run_true run).resolve_left List.not_mem_nil
  have edges := Successors.edges_pos.mpr ⟨j, up_entered run walk, edge⟩
  have grown := up_counts run rfl d
  by_contra absent
  have only : (names.map (fun d => (d, d)) ++ [(lifname, iface)]).filter (fun entry => entry.2 = d) =
      if iface = d then [(lifname, iface)] else [] := by
    have none : (names.map (fun d => (d, d))).filter (fun entry => entry.2 = d) = [] := by
      refine List.filter_eq_nil_iff.mpr fun entry member => ?_
      obtain ⟨e, listed, rfl⟩ := List.mem_map.mp member
      have other : e ≠ d := fun same => absent (same ▸ listed)
      simpa using other
    rw [List.filter_append, none, List.nil_append]
    by_cases same : iface = d <;> simp [same]
  have total : w'.count d = w.count d + if iface = d then 1 else 0 := by
    have counts := count_posts (names.map (fun d => (d, d)) ++ [(lifname, iface)]) w.books d
    rw [← books, only] at counts
    refine counts.trans (congrArg (w.count d + ·) ?_)
    split <;> rfl
  rw [total] at grown
  by_cases same : iface = d
  · rw [if_pos same, if_pos (same ▸ own)] at grown
    omega
  · rw [if_neg same] at grown
    omega

end

end Ifupdown
