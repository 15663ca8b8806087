import Ifupdown.Model.Command
import Ifupdown.Resolver.Relations

/-! What a process keeps of the interfaces: the records of the state, the counts and the
explicit flags. Each change of a count is an entry that names the record it is written to. -/
namespace Ifupdown

def World.count (w : World) (x : Str) : Nat := (w.collection.iface x).refcount

theorem count_create (w : World) (token : Str) :
    World.count { w with collection := (lifInterfaceCollectionFind w.collection token).2 } = w.count := by
  funext x
  simp [World.count]

theorem count_setPending (w : World) (iface : Str) (on : Bool) :
    (w.setPending iface on).count = w.count := by
  funext x
  simp only [World.count, World.setPending, iface_setPending]
  split <;> rfl

theorem count_refIf (w : World) (ifname iface : Str) : (w.refIf ifname iface).count = ref w.count iface := by
  funext x
  simp only [World.count, World.refIf, refIf_refcount, iface_setRefcount, ref_apply]
  by_cases same : iface = x
  · subst same; simp
  · simp [same, Ne.symm same]

theorem count_unrefIf (w : World) (ifname iface : Str) :
    (w.unrefIf ifname iface).count = unref w.count iface := by
  funext x
  simp only [World.count, World.unrefIf, unrefIf_refcount, iface_setRefcount, unref_apply]
  by_cases same : iface = x
  · subst same; simp
  · simp [same, Ne.symm same]

theorem count_markExplicit (w : World) (ifname iface : Str) : (w.markExplicit ifname iface).count = w.count := by
  funext x
  simp only [World.count, World.markExplicit, iface_setExplicit]
  split <;> rfl

/-- The count of a dependency when `handle_refcounting` is through with it. -/
def counting (up : Bool) (c : Str → Nat) (token : Str) : Str → Nat :=
  if up then ref c token else unref c token

structure Books where
  state : StateDict
  count : Str → Nat
  explicit : Str → Bool

def World.books (w : World) : Books :=
  { state := w.state, count := w.count, explicit := fun x => (w.collection.iface x).isExplicit }

def Books.iface (books : Books) (x : Str) : LifInterface :=
  { ifname := x, refcount := books.count x, isExplicit := books.explicit x }

/-- One more or one less for the interface `entry.2`, under the name `entry.1`. -/
def Books.post (up : Bool) (books : Books) (entry : Str × Str) : Books :=
  { books with
    count := counting up books.count entry.2
    state := (if up then lifStateRefIf books.state entry.1 (books.iface entry.2)
      else lifStateUnrefIf books.state entry.1 (books.iface entry.2)).1 }

theorem refIf_congr {state : StateDict} {a b : LifInterface} (ifname : Str) (name : a.ifname = b.ifname)
    (count : a.refcount = b.refcount) (explicit : a.isExplicit = b.isExplicit) :
    (lifStateRefIf state ifname a).1 = (lifStateRefIf state ifname b).1 ∧
      (lifStateUnrefIf state ifname a).1 = (lifStateUnrefIf state ifname b).1 := by
  unfold lifStateRefIf lifStateUnrefIf
  rw [count]
  refine ⟨by simp only [lifStateUpsert, name, explicit], ?_⟩
  split
  · rfl
  · dsimp only
    split
    · rfl
    · simp only [lifStateUpsert, name, explicit]

theorem books_create (w : World) (token : Str) :
    World.books { w with collection := (lifInterfaceCollectionFind w.collection token).2 } = w.books := by
  simp [World.books, count_create]

theorem books_setPending (w : World) (iface : Str) (on : Bool) : (w.setPending iface on).books = w.books := by
  have explicit : (fun x => ((w.setPending iface on).collection.iface x).isExplicit) =
      fun x => (w.collection.iface x).isExplicit := by
    funext x
    simp only [World.setPending, iface_setPending]
    split <;> rfl
  simp only [World.books, count_setPending, explicit]
  rfl

theorem books_refIf (w : World) (ifname iface : Str) :
    (w.refIf ifname iface).books = w.books.post true (ifname, iface) := by
  have explicit : (fun x => ((w.refIf ifname iface).collection.iface x).isExplicit) =
      fun x => (w.collection.iface x).isExplicit := by
    funext x
    simp only [World.refIf, iface_setRefcount]
    split <;> rfl
  have state : (w.refIf ifname iface).state = (lifStateRefIf w.state ifname (w.books.iface iface)).1 :=
    (refIf_congr (a := w.collection.iface iface) (b := w.books.iface iface) ifname (by simp [Books.iface]) rfl rfl).1
  exact Books.mk.injEq .. ▸ ⟨state, count_refIf w ifname iface, explicit⟩

theorem books_unrefIf (w : World) (ifname iface : Str) :
    (w.unrefIf ifname iface).books = w.books.post false (ifname, iface) := by
  have explicit : (fun x => ((w.unrefIf ifname iface).collection.iface x).isExplicit) =
      fun x => (w.collection.iface x).isExplicit := by
    funext x
    simp only [World.unrefIf, iface_setRefcount]
    split <;> rfl
  have state : (w.unrefIf ifname iface).state = (lifStateUnrefIf w.state ifname (w.books.iface iface)).1 :=
    (refIf_congr (a := w.collection.iface iface) (b := w.books.iface iface) ifname (by simp [Books.iface]) rfl rfl).2
  exact Books.mk.injEq .. ▸ ⟨state, count_unrefIf w ifname iface, explicit⟩

def Books.mark (books : Books) (lifname iface : Str) : Books :=
  { books with
    explicit := Function.update books.explicit iface true
    state := lifStateUpsert books.state lifname { books.iface iface with isExplicit := true } }

theorem books_markExplicit (w : World) (lifname iface : Str) :
    (w.markExplicit lifname iface).books = w.books.mark lifname iface := by
  have state : (w.markExplicit lifname iface).state = (w.books.mark lifname iface).state := by
    simp [World.markExplicit, Books.mark, Books.iface, World.books, World.count, lifStateUpsert]
  have explicit : (fun x => ((w.markExplicit lifname iface).collection.iface x).isExplicit) =
      Function.update (fun x => (w.collection.iface x).isExplicit) iface true := by
    funext x
    simp only [World.markExplicit, iface_setExplicit, Function.update_apply, eq_comm (a := x)]
    split <;> rfl
  exact Books.mk.injEq .. ▸ ⟨state, count_markExplicit w lifname iface, explicit⟩

def StateDict.mapped (state : StateDict) (k : Str) : Option Str :=
  (lifDictFind state.records k).map LifStateRecord.mappedIf

theorem mapped_of_mem {state : StateDict} {entry : Str × LifStateRecord} (member : entry ∈ state.records) :
    state.mapped entry.1 = some entry.2.mappedIf := by
  rw [StateDict.mapped, lifDictFind_of_mem state.distinct member]
  rfl

theorem mapped_upsert (state : StateDict) (k : Str) (iface : LifInterface) (j : Str) :
    (lifStateUpsert state k iface).mapped j = if j = k then some iface.ifname else state.mapped j := by
  rw [StateDict.mapped, find_upsert]
  by_cases same : k = j
  · simp [same]
  · simp [same, Ne.symm same, StateDict.mapped]

theorem mapped_post (books : Books) (k x j : Str) :
    (books.post true (k, x)).state.mapped j = if j = k then some x else books.state.mapped j :=
  mapped_upsert books.state k { books.iface x with refcount := (books.iface x).refcount + 1 } j

theorem mapped_mark (books : Books) (k x j : Str) :
    (books.mark k x).state.mapped j = if j = k then some x else books.state.mapped j :=
  mapped_upsert books.state k { books.iface x with isExplicit := true } j

end Ifupdown
