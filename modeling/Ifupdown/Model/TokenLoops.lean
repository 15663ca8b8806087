import Ifupdown.Base.Words
import Ifupdown.Model.LineReader

/-! The token loops of lifecycle.c, with the bytes that they read. -/
namespace Ifupdown

/-- `char buf[size] = {}` after a string has been copied into it. -/
def zeroed (size : Nat) (s : Str) : Buffer := s ++ List.replicate (size - s.length) 0

/-- `for (tokenp = lif_next_token(&bufp); *tokenp; tokenp = lif_next_token(&bufp))`: the token that each call
returns and the last byte that it reads. -/
def forTokens : Nat → Buffer → Nat → List (Str × Nat)
  | 0, _, _ => []
  | fuel + 1, buf, bufp =>
    let (out, bufp, buf) := lifNextTokenAt buf bufp
    let token := strAt buf out
    (token, bufp - 1) :: if token = [] then [] else forTokens fuel buf bufp

/-- `while (*p) { token = lif_next_token(&p); ... }`, which ends where the byte that it tests is NUL. -/
def whileTokens : Nat → Buffer → Nat → List (Str × Nat)
  | 0, _, _ => []
  | fuel + 1, buf, p =>
    if buf.getD p 0 = 0 then [([], p)]
    else
      let (out, p, buf) := lifNextTokenAt buf p
      (strAt buf out, p - 1) :: whileTokens fuel buf p

def endsInWord (text : Str) : Bool := text.getLast?.any fun c => !isSpace c

/-- The text is empty, or ends with one blank behind a word. -/
def settled (text : Str) : Bool :=
  match text.reverse with
  | [] => true
  | [_] => false
  | c :: d :: _ => isSpace c && !isSpace d

/-- In a buffer of 4096 bytes, the text ends so that the second loop stays inside. -/
def Contained (text : Str) : Prop := (strlcpy 4096 text).length < 4095 ∨ settled (strlcpy 4096 text) = true

instance (text : Str) : Decidable (Contained text) := inferInstanceAs (Decidable (_ ∨ _))

section
variable {c : UInt8} {rest : Str} {w : Str}

theorem endsInWord_cons (nonempty : rest ≠ []) : endsInWord (c :: rest) = endsInWord rest := by
  obtain ⟨d, tail, rfl⟩ := List.exists_cons_of_ne_nil nonempty
  rw [endsInWord, List.getLast?_cons_cons]
  rfl

theorem endsInWord_blank (blank : isSpace c = true) : endsInWord (c :: rest) = endsInWord rest := by
  by_cases nonempty : rest = []
  · rw [nonempty]
    simp [endsInWord, blank]
  · exact endsInWord_cons nonempty

theorem endsInWord_append {more : Str} (nonempty : more ≠ []) : endsInWord (w ++ more) = endsInWord more := by
  rw [endsInWord, List.getLast?_append_of_ne_nil _ nonempty]
  rfl

theorem endsInWord_word (word : IsWord w) : endsInWord w = true := by
  rcases List.eq_nil_or_concat w with rfl | ⟨front, last, rfl⟩
  · exact absurd rfl word.1
  · simp [endsInWord, word.2 last (by simp)]

theorem settled_append {more : Str} (long : 2 ≤ more.length) : settled (w ++ more) = settled more := by
  have size : more.reverse.length = more.length := List.length_reverse
  unfold settled
  rw [List.reverse_append]
  match back : more.reverse, size with
  | [], size => simp at size; omega
  | [_], size => simp at size; omega
  | _ :: _ :: _, _ => rfl

theorem settled_blank (blank : isSpace c = true) (nonempty : rest ≠ []) : settled (c :: rest) = settled rest := by
  match rest, nonempty with
  | [d], _ => simp [settled, blank]
  | d :: e :: tail, _ =>
    have same : settled ([c] ++ d :: e :: tail) = settled (d :: e :: tail) := settled_append (by simp)
    exact same

theorem settled_word (word : IsWord w) : settled w = false := by
  rcases List.eq_nil_or_concat w with rfl | ⟨front, last, rfl⟩
  · exact absurd rfl word.1
  · have solid := word.2 last (by simp)
    rw [List.concat_eq_append, settled, List.reverse_append]
    cases front.reverse with
    | nil => rfl
    | cons d tail => simp [solid]

theorem settled_word_blank (word : IsWord w) (blank : isSpace c = true) : settled (w ++ c :: rest) = settled rest := by
  match rest with
  | [] =>
    rcases List.eq_nil_or_concat w with rfl | ⟨front, last, rfl⟩
    · exact absurd rfl word.1
    · have solid := word.2 last (by simp)
      simp [settled, blank, solid]
  | d :: tail =>
    rw [settled_append (by simp), settled_blank blank (by simp)]

end

theorem lifNextTokenAt_blank (pre : Buffer) {c : UInt8} (post : Buffer) {p : Nat} (at_ : pre.length = p)
    (blank : isSpace c = true) : lifNextTokenAt (pre ++ c :: post) p = lifNextTokenAt (pre ++ c :: post) (p + 1) := by
  subst at_
  have later : (pre ++ c :: post).drop (pre.length + 1) = post := by
    rw [← List.drop_drop, List.drop_left, List.drop_one, List.tail_cons]
  have start : pre.length + ((c :: post).takeWhile isSpace).length = pre.length + 1 + (post.takeWhile isSpace).length := by
    rw [List.takeWhile_cons_of_pos blank, List.length_cons]
    omega
  simp only [lifNextTokenAt]
  rw [later, List.drop_left, start]

theorem lifNextTokenAt_end (pre : Buffer) (k : Nat) :
    (lifNextTokenAt (pre ++ List.replicate k 0) pre.length).1 = pre.length ∧
      (lifNextTokenAt (pre ++ List.replicate k 0) pre.length).2.1 = pre.length + 1 ∧
      strAt (lifNextTokenAt (pre ++ List.replicate k 0) pre.length).2.2 pre.length = [] := by
  cases k with
  | zero =>
    have same : pre.set pre.length 0 = pre := List.set_eq_of_length_le (Nat.le_refl _)
    simp [lifNextTokenAt, strAt, same]
  | succ k =>
    have next : lifNextTokenAt (pre ++ [] ++ 0 :: List.replicate k 0) pre.length = _ :=
      lifNextTokenAt_word pre (List.replicate k 0) rfl (by simp [Solid]) (Or.inl rfl)
    rw [List.append_nil, ← List.replicate_succ] at next
    rw [next]
    have empty := strAt_append pre [] (List.replicate k 0) rfl (by simp)
    rw [List.append_nil] at empty
    exact ⟨rfl, rfl, empty⟩

theorem solid_word {w : Str} (word : IsWord w) (text : ∀ c ∈ w, c ≠ 0) : Solid w :=
  fun c member => ⟨text c member, word.2 c member⟩

theorem forTokens_blank (fuel : Nat) (pre : Buffer) {c : UInt8} (post : Buffer) (blank : isSpace c = true) :
    forTokens fuel (pre ++ c :: post) pre.length = forTokens fuel (pre ++ [c] ++ post) (pre ++ [c]).length := by
  rw [List.append_assoc, List.singleton_append, List.length_append, List.length_singleton]
  cases fuel with
  | zero => rfl
  | succ fuel => simp only [forTokens, lifNextTokenAt_blank pre post rfl blank]

theorem forTokens_word (fuel : Nat) (pre : Buffer) {w : Str} {c : UInt8} (post : Buffer) (word : IsWord w)
    (text : ∀ c ∈ w, c ≠ 0) (stop : c = 0 ∨ isSpace c = true) :
    forTokens (fuel + 1) (pre ++ w ++ c :: post) pre.length =
      (w, pre.length + w.length) :: forTokens fuel (pre ++ w ++ [0] ++ post) (pre ++ w ++ [0]).length := by
  have next := lifNextTokenAt_word pre post rfl (solid_word word text)
    (stop.imp id fun blank => ⟨word.1, blank⟩)
  have token := strAt_append pre w post rfl text
  have behind : (pre ++ w ++ [0]).length = pre.length + w.length + 1 := by simp [Nat.add_assoc]
  rw [behind, List.append_assoc (pre ++ w), List.singleton_append]
  simp only [forTokens]
  rw [next]
  simp only [token, if_neg word.1, Nat.add_sub_cancel]

/-- A loop over these tokens, and maybe empty ones, which reads up to `last` when it ends. -/
def Scans (loop : List (Str × Nat)) (tokens : List Str) (last : Nat) : Prop :=
  (loop.map Prod.fst).filter (fun token => token ≠ []) = tokens ∧ (∀ entry ∈ loop, entry.2 ≤ last) ∧
    loop.getLast? = some ([], last)

theorem scans_end (last : Nat) : Scans [([], last)] [] last := ⟨rfl, by simp, rfl⟩

theorem Scans.cons {loop : List (Str × Nat)} {tokens : List Str} {last : Nat} (scans : Scans loop tokens last)
    (token : Str) {i : Nat} (before : i ≤ last) :
    Scans ((token, i) :: loop) (if token = [] then tokens else token :: tokens) last := by
  obtain ⟨same, below, ends⟩ := scans
  refine ⟨?_, List.forall_mem_cons.mpr ⟨before, below⟩, ?_⟩
  · rw [List.map_cons, List.filter_cons, same]
    by_cases empty : token = [] <;> simp [empty]
  · cases loop with
    | nil => cases ends
    | cons entry rest => rw [List.getLast?_cons_cons, ends]

theorem Scans.word {loop : List (Str × Nat)} {tokens : List Str} {last : Nat} (scans : Scans loop tokens last)
    {w : Str} (word : IsWord w) {i : Nat} (before : i ≤ last) : Scans ((w, i) :: loop) (w :: tokens) last := by
  have longer := scans.cons w before
  rw [if_neg word.1] at longer
  exact longer

theorem Scans.reads {loop : List (Str × Nat)} {tokens : List Str} {last : Nat} (scans : Scans loop tokens last)
    (size : Nat) : (∀ read ∈ loop, read.2 < size) ↔ last < size := by
  obtain ⟨-, below, ends⟩ := scans
  constructor
  · exact fun reads => reads _ (List.mem_of_getLast? ends)
  · exact fun enough read member => Nat.lt_of_le_of_lt (below read member) enough

theorem forTokens_end (fuel : Nat) (pre : Buffer) (k : Nat) :
    forTokens (fuel + 1) (pre ++ List.replicate k 0) pre.length = [([], pre.length)] := by
  obtain ⟨out, stop, token⟩ := lifNextTokenAt_end pre k
  simp only [forTokens, out, stop, token, if_true, Nat.add_sub_cancel]

/-- The tokens of the loop, and how far it reads: one byte behind the NUL if the text ends inside a word. -/
theorem forTokens_scans {fuel : Nat} (pre rest : Str) (k : Nat) (text : ∀ c ∈ rest, c ≠ 0) (room : rest = [] ∨ 0 < k)
    (enough : rest.length + 1 < fuel) :
    Scans (forTokens fuel (pre ++ rest ++ List.replicate k 0) pre.length) (lifTokens rest)
      ((pre ++ rest).length + if endsInWord rest then 1 else 0) := by
  induction rest using text_induction generalizing pre k fuel with
  | nil =>
    obtain ⟨fuel, rfl⟩ : ∃ m, fuel = m + 1 := ⟨fuel - 1, by omega⟩
    rw [List.append_nil, forTokens_end]
    exact scans_end _
  | blank c rest blank ih =>
    obtain ⟨-, later⟩ := List.forall_mem_cons.mp text
    have step := forTokens_blank fuel pre (rest ++ List.replicate k 0) blank
    rw [← List.cons_append, ← List.append_assoc, ← List.append_assoc] at step
    rw [step, List.append_cons pre c rest, lifTokens_blank blank, endsInWord_blank blank]
    rw [List.length_cons] at enough
    have fits : rest.length + 1 < fuel := by omega
    exact ih (pre ++ [c]) k later (room.elim (fun none => by cases none) Or.inr) fits
  | word w word =>
    have positive := List.length_pos_iff.mpr word.1
    obtain ⟨fuel, rfl⟩ : ∃ m, fuel = m + 2 := ⟨fuel - 2, by omega⟩
    obtain ⟨k, rfl⟩ : ∃ m, k = m + 1 := ⟨k - 1, by have := room.resolve_left word.1; omega⟩
    have step := forTokens_word (fuel + 1) pre (List.replicate k 0) word text (Or.inl rfl)
    rw [List.replicate_succ, step, forTokens_end, lifTokens_word word, endsInWord_word word, if_pos rfl]
    have last : (pre ++ w ++ [0]).length = (pre ++ w).length + 1 := List.length_append
    rw [last]
    exact (scans_end _).word word (by rw [List.length_append]; omega)
  | words w c rest word blank ih =>
    obtain ⟨front, behind⟩ := List.forall_mem_append.mp text
    obtain ⟨-, later⟩ := List.forall_mem_cons.mp behind
    obtain ⟨fuel, rfl⟩ : ∃ m, fuel = m + 1 := ⟨fuel - 1, by omega⟩
    have step := forTokens_word fuel pre (rest ++ List.replicate k 0) word front (Or.inr blank)
    simp only [List.length_append, List.length_cons] at enough
    have fits : rest.length + 1 < fuel := by omega
    have next := ih (pre ++ w ++ [0]) k later (room.elim (fun none => by simp at none) Or.inr) fits
    have last : (pre ++ (w ++ c :: rest)).length = (pre ++ w ++ [0] ++ rest).length := by simp
    rw [← List.cons_append, ← List.append_assoc, ← List.append_assoc, List.append_assoc pre] at step
    rw [step, lifTokens_word_blank word blank, endsInWord_append (by simp), endsInWord_blank blank, last]
    exact next.word word (by simp only [List.length_append]; omega)

theorem whileTokens_end (fuel : Nat) (pre : Buffer) (k : Nat) :
    whileTokens (fuel + 1) (pre ++ List.replicate k 0) pre.length = [([], pre.length)] := by
  have tested : (pre ++ List.replicate k 0).getD pre.length 0 = 0 := by
    cases k <;> simp [List.getD]
  rw [whileTokens, if_pos tested]

theorem whileTokens_call (fuel : Nat) (pre : Buffer) {c : UInt8} (post : Buffer) (text : c ≠ 0) :
    whileTokens (fuel + 1) (pre ++ c :: post) pre.length =
      let (out, p, buf) := lifNextTokenAt (pre ++ c :: post) pre.length
      (strAt buf out, p - 1) :: whileTokens fuel buf p := by
  have tested : (pre ++ c :: post).getD pre.length 0 = c := by simp [List.getD]
  rw [whileTokens, if_neg (by rw [tested]; exact text)]

theorem whileTokens_blank (fuel : Nat) (pre : Buffer) {c d : UInt8} (post : Buffer) (blank : isSpace c = true)
    (text : c ≠ 0 ∧ d ≠ 0) : whileTokens fuel (pre ++ c :: d :: post) pre.length =
      whileTokens fuel (pre ++ [c] ++ d :: post) (pre ++ [c]).length := by
  cases fuel with
  | zero => rfl
  | succ fuel =>
    rw [whileTokens_call fuel pre _ text.1, whileTokens_call fuel (pre ++ [c]) _ text.2,
      lifNextTokenAt_blank pre _ rfl blank, List.append_assoc, List.singleton_append, List.length_append,
      List.length_singleton]

theorem whileTokens_word (fuel : Nat) (pre : Buffer) {w : Str} {c : UInt8} (post : Buffer) (word : IsWord w)
    (text : ∀ c ∈ w, c ≠ 0) (stop : c = 0 ∨ isSpace c = true) :
    whileTokens (fuel + 1) (pre ++ w ++ c :: post) pre.length =
      (w, pre.length + w.length) :: whileTokens fuel (pre ++ w ++ [0] ++ post) (pre ++ w ++ [0]).length := by
  have next := lifNextTokenAt_word pre post rfl (solid_word word text)
    (stop.imp id fun blank => ⟨word.1, blank⟩)
  have token := strAt_append pre w post rfl text
  have behind : (pre ++ w ++ [0]).length = pre.length + w.length + 1 := by simp [Nat.add_assoc]
  obtain ⟨d, tail, same⟩ := List.exists_cons_of_ne_nil word.1
  have call := whileTokens_call fuel pre (tail ++ c :: post) (text d (by rw [same]; exact List.mem_cons_self))
  rw [← List.cons_append, ← same, ← List.append_assoc, next] at call
  rw [behind, List.append_assoc (pre ++ w), List.singleton_append, call]
  simp only [token, Nat.add_sub_cancel]

/-- The tokens of the loop, which reads one byte behind the NUL unless its last token is followed by one blank. -/
theorem whileTokens_scans {fuel : Nat} (pre rest : Str) (k : Nat) (text : ∀ c ∈ rest, c ≠ 0)
    (room : rest = [] ∨ 0 < k) (enough : rest.length + 1 < fuel) :
    Scans (whileTokens fuel (pre ++ rest ++ List.replicate k 0) pre.length) (lifTokens rest)
      ((pre ++ rest).length + if settled rest then 0 else 1) := by
  induction rest using text_induction generalizing pre k fuel with
  | nil =>
    obtain ⟨fuel, rfl⟩ : ∃ m, fuel = m + 1 := ⟨fuel - 1, by omega⟩
    rw [List.append_nil, whileTokens_end]
    exact scans_end _
  | blank c rest blank ih =>
    obtain ⟨first, later⟩ := List.forall_mem_cons.mp text
    rw [List.length_cons] at enough
    have fits : rest.length + 1 < fuel := by omega
    cases rest with
    | nil =>
      obtain ⟨fuel, rfl⟩ : ∃ m, fuel = m + 2 := ⟨fuel - 2, by omega⟩
      obtain ⟨k, rfl⟩ : ∃ m, k = m + 1 := ⟨k - 1, by have := room.resolve_left (by simp); omega⟩
      have call := whileTokens_call (fuel + 1) pre (List.replicate (k + 1) 0) first
      have next : lifNextTokenAt (pre ++ [c] ++ [] ++ 0 :: List.replicate k 0) (pre ++ [c]).length = _ :=
        lifNextTokenAt_word (pre ++ [c]) (List.replicate k 0) rfl (by simp [Solid]) (Or.inl rfl)
      have none := strAt_append (pre ++ [c]) [] (List.replicate k 0) rfl (by simp)
      have ends := whileTokens_end fuel (pre ++ [c] ++ [0]) k
      rw [lifNextTokenAt_blank pre _ rfl blank, List.append_cons, List.replicate_succ] at call
      rw [List.append_nil, List.length_append, List.length_singleton] at next
      rw [List.append_nil, List.length_append, List.length_singleton, List.append_cons _ 0] at none
      have two : (pre ++ [c] ++ [0]).length = pre.length + 2 := by simp
      rw [two] at ends
      rw [next, List.append_cons _ 0] at call
      dsimp only [List.length_nil, Nat.add_zero] at call
      rw [List.replicate_succ, List.append_cons _ 0, call, none, ends, lifTokens_blank blank, lifTokens_nil,
        show settled [c] = false from rfl, if_neg Bool.false_ne_true, List.length_append, List.length_singleton]
      exact (scans_end _).cons [] (by omega)
    | cons d tail =>
      have step := whileTokens_blank fuel pre (tail ++ List.replicate k 0) blank ⟨first, later d List.mem_cons_self⟩
      rw [← List.cons_append, ← List.cons_append, ← List.append_assoc, ← List.append_assoc] at step
      rw [step, List.append_cons pre c (d :: tail), lifTokens_blank blank, settled_blank blank (by simp)]
      exact ih (pre ++ [c]) k later (room.elim (fun none => by cases none) Or.inr) fits
  | word w word =>
    have positive := List.length_pos_iff.mpr word.1
    obtain ⟨fuel, rfl⟩ : ∃ m, fuel = m + 2 := ⟨fuel - 2, by omega⟩
    obtain ⟨k, rfl⟩ : ∃ m, k = m + 1 := ⟨k - 1, by have := room.resolve_left word.1; omega⟩
    have step := whileTokens_word (fuel + 1) pre (List.replicate k 0) word text (Or.inl rfl)
    rw [List.replicate_succ, step, whileTokens_end, lifTokens_word word, settled_word word, if_neg (by simp)]
    have last : (pre ++ w ++ [0]).length = (pre ++ w).length + 1 := List.length_append
    rw [last]
    exact (scans_end _).word word (by rw [List.length_append]; omega)
  | words w c rest word blank ih =>
    obtain ⟨front, behind⟩ := List.forall_mem_append.mp text
    obtain ⟨-, later⟩ := List.forall_mem_cons.mp behind
    obtain ⟨fuel, rfl⟩ : ∃ m, fuel = m + 1 := ⟨fuel - 1, by omega⟩
    have step := whileTokens_word fuel pre (rest ++ List.replicate k 0) word front (Or.inr blank)
    simp only [List.length_append, List.length_cons] at enough
    have fits : rest.length + 1 < fuel := by omega
    have next := ih (pre ++ w ++ [0]) k later (room.elim (fun none => by simp at none) Or.inr) fits
    have last : (pre ++ (w ++ c :: rest)).length = (pre ++ w ++ [0] ++ rest).length := by simp
    rw [← List.cons_append, ← List.append_assoc, ← List.append_assoc, List.append_assoc pre] at step
    rw [step, lifTokens_word_blank word blank, settled_word_blank word blank, last]
    exact next.word word (by simp only [List.length_append]; omega)

end Ifupdown
