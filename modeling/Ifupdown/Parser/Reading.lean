import Mathlib.Data.List.TakeWhile
import Ifupdown.Model.TokenLoops

/-! What a token call reads of the text at its pointer. -/
namespace Ifupdown

def endsWord (c : UInt8) : Bool := c == 0 || isSpace c

/-- The first word of a text, where it ends, and what stands behind the byte that ends it. -/
def nextWord (text : Str) : Str × Nat × Str :=
  let behind := text.dropWhile isSpace
  let word := behind.takeWhile fun c => c != 0 && !isSpace c
  (word, (text.takeWhile isSpace).length + word.length, behind.drop (word.length + 1))

/-- The calls of a loop over the words of a text that stands at `p`: the token that each returns and the last byte
that it reads. -/
def wordCalls : Nat → Nat → Str → List (Str × Nat)
  | 0, _, _ => []
  | fuel + 1, p, text =>
    let next := nextWord text
    (next.1, p + next.2.1) :: if next.1 = [] then [] else wordCalls fuel (p + next.2.1 + 1) next.2.2

/-- A text that starts with blanks and a word. -/
structure Splits (text blanks word rest : Str) : Prop where
  text_eq : text = blanks ++ word ++ rest
  blank : ∀ c ∈ blanks, isSpace c = true
  solid : Solid word
  stop : ∀ c ∈ rest.head?, c = 0 ∨ word ≠ [] ∧ isSpace c = true

section
variable {text blanks word rest : Str} {buf : Buffer} {p : Nat}

theorem wordByte {c : UInt8} : (c != 0 && !isSpace c) = true ↔ c ≠ 0 ∧ isSpace c = false := by simp

theorem splits_exists (text : Str) : ∃ blanks word rest, Splits text blanks word rest := by
  have words := List.takeWhile_append_dropWhile (p := fun c => c != 0 && !isSpace c) (l := text.dropWhile isSpace)
  refine ⟨text.takeWhile isSpace, (text.dropWhile isSpace).takeWhile fun c => c != 0 && !isSpace c,
    (text.dropWhile isSpace).dropWhile fun c => c != 0 && !isSpace c, ?_, fun c => List.mem_takeWhile_imp,
    fun c member => wordByte.mp (List.mem_takeWhile_imp (p := fun c => c != 0 && !isSpace c) member),
    fun c member => ?_⟩
  · rw [List.append_assoc, words, List.takeWhile_append_dropWhile]
  · have ends := List.head?_dropWhile_not (fun c => c != 0 && !isSpace c) (text.dropWhile isSpace)
    rw [Option.mem_def.mp member] at ends
    by_cases zero : c = 0
    · exact Or.inl zero
    have space : isSpace c = true := by simpa [zero] using ends
    refine Or.inr ⟨fun none => ?_, space⟩
    rw [none, List.nil_append] at words
    have first := List.head?_dropWhile_not isSpace text
    rw [← words, Option.mem_def.mp member] at first
    exact absurd space (by simpa using first)

theorem Splits.ended (splits : Splits text blanks word rest) : ∀ c ∈ rest.head?, endsWord c = true := by
  intro c member
  rcases splits.stop c member with rfl | ⟨-, space⟩
  · rfl
  · rw [endsWord, space, Bool.or_true]

theorem Splits.length (splits : Splits text blanks word rest) :
    text.length = blanks.length + word.length + rest.length := by
  rw [splits.text_eq, List.length_append, List.length_append]

theorem Splits.first (splits : Splits text blanks word rest) : (word ++ rest).takeWhile isSpace = [] := by
  cases word with
  | nil =>
    cases rest with
    | nil => rfl
    | cons c rest =>
      rcases splits.stop c rfl with rfl | ⟨nonempty, -⟩
      · rfl
      · exact absurd rfl nonempty
  | cons c word =>
    have solid := (splits.solid c List.mem_cons_self).2
    rw [List.cons_append, List.takeWhile_cons_of_neg (by rw [solid]; exact Bool.false_ne_true)]

theorem Splits.blanks_eq (splits : Splits text blanks word rest) : text.takeWhile isSpace = blanks := by
  rw [splits.text_eq, List.append_assoc, List.takeWhile_append_of_pos splits.blank, splits.first, List.append_nil]

theorem Splits.behind_eq (splits : Splits text blanks word rest) : text.dropWhile isSpace = word ++ rest := by
  have none : (word ++ rest).dropWhile isSpace = word ++ rest := by
    have whole := List.takeWhile_append_dropWhile (p := isSpace) (l := word ++ rest)
    rwa [splits.first, List.nil_append] at whole
  rw [splits.text_eq, List.append_assoc, List.dropWhile_append_of_pos splits.blank, none]

theorem Splits.word_eq (splits : Splits text blanks word rest) :
    (word ++ rest).takeWhile (fun c => c != 0 && !isSpace c) = word := by
  rw [List.takeWhile_append_of_pos fun c member => wordByte.mpr (splits.solid c member)]
  cases rest with
  | nil => exact List.append_nil _
  | cons c rest =>
    have ends : ¬ (c != 0 && !isSpace c) = true := by
      rcases splits.stop c rfl with rfl | ⟨-, space⟩
      · decide
      · simp [space]
    rw [List.takeWhile_cons_of_neg (p := fun c => c != 0 && !isSpace c) ends, List.append_nil]

theorem Splits.nextWord (splits : Splits text blanks word rest) :
    nextWord text = (word, blanks.length + word.length, rest.drop 1) := by
  simp only [Ifupdown.nextWord]
  rw [splits.behind_eq, splits.word_eq, splits.blanks_eq, ← List.drop_drop, List.drop_left]

theorem Splits.token (splits : Splits (buf.drop p) blanks word rest) :
    lifNextTokenAt buf p = (p + blanks.length, p + (blanks.length + word.length) + 1,
      buf.set (p + (blanks.length + word.length)) 0) := by
  have behind : buf.drop (p + blanks.length) = word ++ rest := by
    rw [← List.drop_drop, splits.text_eq, List.append_assoc, List.drop_left]
  simp only [lifNextTokenAt]
  rw [splits.blanks_eq, behind, splits.word_eq, ← Nat.add_assoc]

theorem Splits.line (splits : Splits text blanks word rest) (behind : Str) :
    Splits (text ++ 0 :: behind) blanks word (rest ++ 0 :: behind) := by
  refine ⟨by rw [splits.text_eq, List.append_assoc], splits.blank, splits.solid, fun c member => ?_⟩
  cases rest with
  | nil => exact Or.inl (Option.some_inj.mp member.symm)
  | cons d rest => exact splits.stop c member

/-- With the NUL of a call at the end of its first word a text splits as before. -/
theorem Splits.set (splits : Splits text blanks word rest) :
    Splits (text.set (blanks.length + word.length) 0) blanks word (rest.set 0 0) := by
  refine ⟨?_, splits.blank, splits.solid, ?_⟩
  · rw [splits.text_eq, List.set_append_right _ _ (by simp), List.length_append, Nat.sub_self]
  · intro c member
    cases rest with
    | nil => cases member
    | cons d rest => exact Or.inl (Option.some_inj.mp member.symm)

theorem drop_set (at_ : p ≤ n) : (buf.set n 0).drop p = (buf.drop p).set (n - p) 0 := by
  rw [List.drop_set, if_neg (by omega)]

end

/-- The token of a call, and the texts that it leaves at the old and at the new pointer. -/
theorem lifNextTokenAt_text (buf : Buffer) (p : Nat) :
    strAt (lifNextTokenAt buf p).2.2 (lifNextTokenAt buf p).1 = (nextWord (buf.drop p)).1 ∧
      (lifNextTokenAt buf p).2.1 = p + (nextWord (buf.drop p)).2.1 + 1 ∧
      (lifNextTokenAt buf p).2.2.drop (lifNextTokenAt buf p).2.1 = (nextWord (buf.drop p)).2.2 ∧
      (lifNextTokenAt buf p).2.2.drop p = (buf.drop p).set (nextWord (buf.drop p)).2.1 0 := by
  obtain ⟨blanks, word, rest, splits⟩ := splits_exists (buf.drop p)
  have marked := splits.set
  have here : (buf.set (p + (blanks.length + word.length)) 0).drop p = (buf.drop p).set (blanks.length + word.length) 0 := by
    rw [drop_set (Nat.le_add_right _ _), Nat.add_sub_cancel_left]
  rw [splits.nextWord, splits.token]
  dsimp only
  refine ⟨?_, rfl, ?_, here⟩
  · have token : (word ++ rest.set 0 0).takeWhile (fun c => c != 0) = word := by
      rw [List.takeWhile_append_of_pos fun c member => by simpa using (splits.solid c member).1]
      cases rest <;> simp
    rw [strAt, ← List.drop_drop, here, marked.text_eq, List.append_assoc, List.drop_left]
    exact token
  · rw [List.drop_set_of_lt (by omega), Nat.add_assoc, ← List.drop_drop, splits.text_eq, ← List.drop_drop,
      ← List.length_append, List.drop_left]

theorem nextWord_set (text : Str) : nextWord (text.set (nextWord text).2.1 0) = nextWord text := by
  obtain ⟨blanks, word, rest, splits⟩ := splits_exists text
  have again := splits.set.nextWord
  rw [splits.nextWord, again]
  cases rest <;> rfl

theorem forTokens_calls (fuel : Nat) (buf : Buffer) (p : Nat) : forTokens fuel buf p = wordCalls fuel p (buf.drop p) := by
  induction fuel generalizing buf p with
  | zero => rfl
  | succ fuel ih =>
    obtain ⟨token, pointer, behind, -⟩ := lifNextTokenAt_text buf p
    unfold forTokens wordCalls
    dsimp only
    rw [ih, behind, token, pointer, Nat.add_sub_cancel]

section
variable {text line : Str} {p : Nat}

theorem nextWord_end (text : Str) : (nextWord text).2.1 ≤ text.length := by
  obtain ⟨blanks, word, rest, splits⟩ := splits_exists text
  rw [splits.nextWord, splits.text_eq, List.length_append, List.length_append]
  exact Nat.le_add_right _ _

theorem nextWord_shorter (some_ : (nextWord text).1 ≠ []) : (nextWord text).2.2.length < text.length := by
  obtain ⟨blanks, word, rest, splits⟩ := splits_exists text
  rw [splits.nextWord] at some_ ⊢
  have positive : 0 < word.length := List.length_pos_iff.mpr some_
  rw [splits.text_eq, List.length_append, List.length_append, List.length_drop]
  omega

theorem nextWord_solid (text : Str) : Solid (nextWord text).1 := by
  obtain ⟨blanks, word, rest, splits⟩ := splits_exists text
  rw [splits.nextWord]
  exact splits.solid

theorem wordCalls_enough {fuel fuel' : Nat} (enough : text.length < fuel) (enough' : text.length < fuel') :
    wordCalls fuel p text = wordCalls fuel' p text := by
  induction fuel generalizing fuel' p text with
  | zero => omega
  | succ fuel ih =>
    cases fuel' with
    | zero => omega
    | succ fuel' =>
      unfold wordCalls
      dsimp only
      split
      · rfl
      · rename_i some_
        have shorter := nextWord_shorter some_
        have same : wordCalls fuel (p + (nextWord text).2.1 + 1) (nextWord text).2.2 =
            wordCalls fuel' (p + (nextWord text).2.1 + 1) (nextWord text).2.2 := ih (by omega) (by omega)
        rw [same]

theorem wordCalls_behind {fuel : Nat} {call : Str × Nat} (member : call ∈ wordCalls fuel p text) : p ≤ call.2 := by
  induction fuel generalizing p text with
  | zero => cases member
  | succ fuel ih =>
    unfold wordCalls at member
    rcases List.mem_cons.mp member with rfl | later
    · exact Nat.le_add_right _ _
    · split at later
      · cases later
      · have behind := ih later
        omega

def hasGap : Str → Bool
  | c :: d :: rest => (endsWord c && d == 0) || hasGap (d :: rest)
  | _ => false

/-- The loop over the words of the line ends before the line does. -/
def settles (line : Str) : Bool := line.getLast?.any endsWord || hasGap line

theorem settles_skip {c d : UInt8} {rest : Str} (other : endsWord c = false ∨ d ≠ 0) :
    settles (c :: d :: rest) = settles (d :: rest) := by
  have none : (endsWord c && d == 0) = false := by
    rcases other with word | text
    · rw [word, Bool.false_and]
    · simp [text]
  rw [settles, List.getLast?_cons_cons, hasGap, none, Bool.false_or, settles]

theorem settles_blanks {c : UInt8} {blanks rest : Str} (ends : endsWord c = true) (blank : ∀ d ∈ blanks, isSpace d = true) :
    ∃ d, endsWord d = true ∧ settles (c :: (blanks ++ rest)) = settles (d :: rest) := by
  induction blanks generalizing c with
  | nil => exact ⟨c, ends, rfl⟩
  | cons d blanks ih =>
    obtain ⟨first, later⟩ := List.forall_mem_cons.mp blank
    have text_ : d ≠ 0 := by
      rintro rfl
      exact absurd first (by decide)
    obtain ⟨e, last, same⟩ := ih (c := d) (by rw [endsWord, first, Bool.or_true]) later
    exact ⟨e, last, by rw [List.cons_append, settles_skip (Or.inr text_), same]⟩

theorem settles_word {c : UInt8} {word rest : Str} (solid : Solid word) (some_ : word ≠ []) :
    settles (c :: (word ++ rest)) = (rest != [] && settles rest) := by
  induction word generalizing c with
  | nil => exact absurd rfl some_
  | cons d word ih =>
    obtain ⟨⟨text_, space⟩, later⟩ := List.forall_mem_cons.mp solid
    have letter : endsWord d = false := by simp [endsWord, text_, space]
    rw [List.cons_append, settles_skip (Or.inr text_)]
    by_cases last : word = []
    · subst last
      cases rest with
      | nil => simp [settles, hasGap, letter]
      | cons e rest =>
        rw [List.nil_append, settles_skip (Or.inl letter)]
        rfl
    · exact ih later last

/-- A loop over the words of a line stays in the line just if the line settles. -/
theorem wordCalls_inside {fuel : Nat} {c : UInt8} (ends : endsWord c = true) (line behind : Str)
    (enough : (line ++ 0 :: behind).length < fuel) :
    (∀ call ∈ wordCalls fuel p (line ++ 0 :: behind), call.2 ≤ p + line.length) ↔ settles (c :: line) = true := by
  induction fuel generalizing p line c with
  | zero => omega
  | succ fuel ih =>
    obtain ⟨blanks, word, rest, splits⟩ := splits_exists line
    have whole := splits.line behind
    have size := splits.length
    obtain ⟨d, ends, same⟩ : ∃ d, endsWord d = true ∧ settles (c :: (blanks ++ (word ++ rest))) = settles (d :: (word ++ rest)) :=
      settles_blanks ends splits.blank
    rw [← List.append_assoc, ← splits.text_eq] at same
    rw [same]
    unfold wordCalls
    rw [whole.nextWord]
    simp only [List.forall_mem_cons]
    by_cases none : word = []
    · subst none
      simp only [if_true, List.not_mem_nil, false_implies, implies_true, and_true, List.length_nil, List.nil_append,
        Nat.add_zero] at size ⊢
      refine iff_of_true (by omega) ?_
      cases rest with
      | nil => simp [settles, ends]
      | cons e rest =>
        rcases splits.stop e rfl with rfl | ⟨nonempty, -⟩
        · simp [settles, hasGap, ends]
        · exact absurd rfl nonempty
    · rw [settles_word splits.solid none, if_neg none]
      have positive := List.length_pos_iff.mpr none
      cases rest with
      | nil =>
        simp only [List.length_nil, Nat.add_zero] at size
        refine iff_of_false ?_ (by simp)
        rintro ⟨-, inside⟩
        obtain ⟨call, later⟩ : ∃ call, call ∈ wordCalls fuel (p + (blanks.length + word.length) + 1) behind := by
          cases fuel with
          | zero =>
            simp only [List.length_append, List.length_cons] at enough
            omega
          | succ fuel => exact ⟨_, List.mem_cons_self⟩
        have stays := inside call later
        have passed := wordCalls_behind later
        omega
      | cons e rest =>
        simp only [List.length_cons] at size
        have next := ih (p := p + (blanks.length + word.length) + 1) (splits.ended e rfl) rest (by
          simp only [List.length_append, List.length_cons] at enough ⊢
          omega)
        have reach : p + (blanks.length + word.length) + 1 + rest.length = p + line.length := by omega
        rw [reach] at next
        simp only [List.cons_append, List.drop_one, List.tail_cons, next]
        refine (and_iff_right (by omega)).trans ?_
        simp

theorem Splits.mem (splits : Splits text blanks word rest) : word ∈ text.splitOnP endsWord := by
  have solid : ∀ c ∈ word, endsWord c = false := fun c member => by simp [endsWord, splits.solid c member]
  have here : word ∈ (word ++ rest).splitOnP endsWord := by
    cases rest with
    | nil => rw [List.append_nil, List.splitOnP_eq_singleton solid]; exact List.mem_singleton_self _
    | cons c rest =>
      rw [List.splitOnP_append_cons_of_forall_mem solid c (splits.ended c rfl)]
      exact List.mem_cons_self
  obtain ⟨same, blank, -, -⟩ := splits
  rw [same, List.append_assoc]
  clear same
  induction blanks with
  | nil => exact here
  | cons c blanks ih =>
    obtain ⟨space, later⟩ := List.forall_mem_cons.mp blank
    have ends : endsWord c = true := by rw [endsWord, space, Bool.or_true]
    exact (List.splitOnP_append_cons [] _ ends) ▸ List.mem_append_right _ (ih later)

theorem wordCalls_words {fuel : Nat} {line behind : Str} {call : Str × Nat}
    (member : call ∈ wordCalls fuel p (line ++ 0 :: behind)) (inside : call.2 ≤ p + line.length) :
    call.1 ∈ line.splitOnP endsWord := by
  induction fuel generalizing p line with
  | zero => cases member
  | succ fuel ih =>
    obtain ⟨blanks, word, rest, splits⟩ := splits_exists line
    unfold wordCalls at member
    rw [(splits.line behind).nextWord] at member
    rcases List.mem_cons.mp member with rfl | later
    · exact splits.mem
    dsimp only at later
    split at later
    · cases later
    have size := splits.length
    cases rest with
    | nil =>
      rw [List.length_nil] at size
      have passed := wordCalls_behind later
      omega
    | cons c rest =>
      rw [List.length_cons] at size
      have found := ih later (by omega)
      rw [splits.text_eq, List.splitOnP_append_cons _ _ (splits.ended c rfl)]
      exact List.mem_append_right _ found

theorem wordCalls_line {fuel fuel' : Nat} (line behind : Str) (enough : (line ++ 0 :: behind).length < fuel)
    (enough' : line.length < fuel') (inside : ∀ call ∈ wordCalls fuel p (line ++ 0 :: behind), call.2 ≤ p + line.length) :
    wordCalls fuel p (line ++ 0 :: behind) = wordCalls fuel' p line := by
  induction fuel generalizing p line fuel' with
  | zero => omega
  | succ fuel ih =>
    cases fuel' with
    | zero => omega
    | succ fuel' =>
      obtain ⟨blanks, word, rest, splits⟩ := splits_exists line
      have whole := splits.line behind
      unfold wordCalls at inside ⊢
      rw [whole.nextWord] at inside ⊢
      rw [splits.nextWord]
      simp only [List.forall_mem_cons] at inside ⊢
      split
      · rfl
      · rename_i some_
        rw [if_neg some_] at inside
        have size := splits.length
        cases rest with
        | nil =>
          have positive := List.length_pos_iff.mpr some_
          simp only [List.length_nil, List.length_append, List.length_cons] at size enough
          cases fuel with
          | zero => omega
          | succ fuel =>
            have next := inside.2 _ List.mem_cons_self
            dsimp only at next
            omega
        | cons e rest =>
          simp only [List.length_cons, List.length_append] at size enough
          have reach : p + (blanks.length + word.length) + 1 + rest.length = p + line.length := by omega
          have later := inside.2
          simp only [List.cons_append, List.drop_one, List.tail_cons, ← reach] at later ⊢
          have short : (rest ++ 0 :: behind).length < fuel := by
            simp only [List.length_append, List.length_cons]
            omega
          have same : wordCalls fuel (p + (blanks.length + word.length) + 1) (rest ++ 0 :: behind) =
              wordCalls fuel' (p + (blanks.length + word.length) + 1) rest := ih rest short (by omega) later
          rw [same]

end

def followed (line : Str) : Bool := (line.dropWhile isSpace).any endsWord

def valueText (text : Str) : Str := (text.dropWhile isSpace).takeWhile fun c => c != 0

section
variable {line : Str}

/-- Where the first word ends, and what stands behind it in the line. -/
theorem nextWord_line (line behind : Str) :
    (nextWord (line ++ 0 :: behind)).1 = (nextWord line).1 ∧ (nextWord (line ++ 0 :: behind)).2.1 = (nextWord line).2.1 ∧
      ((nextWord line).2.1 < line.length →
        (nextWord (line ++ 0 :: behind)).2.2 = (nextWord line).2.2 ++ 0 :: behind ∧
          (nextWord line).2.1 + 1 + (nextWord line).2.2.length = line.length) := by
  obtain ⟨blanks, word, rest, splits⟩ := splits_exists line
  rw [(splits.line behind).nextWord, splits.nextWord]
  refine ⟨rfl, rfl, fun inside => ?_⟩
  have size := splits.length
  cases rest with
  | nil =>
    simp only [List.length_nil] at size
    dsimp only at inside
    omega
  | cons c rest =>
    simp only [List.length_cons] at size
    refine ⟨rfl, ?_⟩
    simp only [List.drop_one, List.tail_cons]
    omega

theorem followed_iff : followed line = true ↔ (nextWord line).2.1 < line.length := by
  obtain ⟨blanks, w, rest, splits⟩ := splits_exists line
  have size := splits.length
  have solid : ∀ c ∈ w, endsWord c = false := by
    intro c member
    simp [endsWord, splits.solid c member]
  rw [splits.nextWord, followed, splits.behind_eq, List.any_append, List.any_eq_false.mpr (by simpa using solid),
    Bool.false_or]
  cases rest with
  | nil =>
    simp only [List.length_nil] at size
    simp only [List.any_nil, Bool.false_eq_true, false_iff]
    omega
  | cons c rest =>
    simp only [List.length_cons] at size
    simp only [List.any_cons, splits.ended c rfl, Bool.true_or, true_iff]
    omega

theorem value_text (buf : Buffer) (p : Nat) :
    strAt buf (p + ((buf.drop p).takeWhile isSpace).length) = valueText (buf.drop p) := by
  obtain ⟨blanks, word, rest, splits⟩ := splits_exists (buf.drop p)
  rw [strAt, ← List.drop_drop, splits.blanks_eq, valueText, splits.behind_eq, splits.text_eq, List.append_assoc,
    List.drop_left]

theorem takeWhile_line {p : UInt8 → Bool} (stop : p 0 = false) (line behind : Str) :
    (line ++ 0 :: behind).takeWhile p = line.takeWhile p := by
  induction line with
  | nil => rw [List.nil_append, List.takeWhile_cons, stop]; rfl
  | cons c line ih => rw [List.cons_append, List.takeWhile_cons, List.takeWhile_cons, ih]

theorem valueText_line (line behind : Str) : valueText (line ++ 0 :: behind) = valueText line := by
  obtain ⟨blanks, word, rest, splits⟩ := splits_exists line
  rw [valueText, (splits.line behind).behind_eq, ← List.append_assoc, takeWhile_line rfl, valueText, splits.behind_eq]

theorem valueText_inside (line : Str) : (line.takeWhile isSpace).length + (valueText line).length ≤ line.length := by
  have whole := congrArg List.length (List.takeWhile_append_dropWhile (p := isSpace) (l := line))
  have short := (List.takeWhile_prefix (fun c => c != 0) (l := line.dropWhile isSpace)).length_le
  rw [List.length_append] at whole
  rw [valueText]
  omega

theorem settles_line (some_ : (nextWord line).1 ≠ []) : settles (32 :: line) = settles line := by
  cases line with
  | nil => exact absurd rfl some_
  | cons c line =>
    refine settles_skip (Or.inr ?_)
    rintro rfl
    exact some_ rfl

theorem second_inside (line behind : Str) :
    (nextWord line).2.1 + 1 + (nextWord (nextWord (line ++ 0 :: behind)).2.2).2.1 ≤ line.length ↔ followed line = true := by
  obtain ⟨-, -, rest⟩ := nextWord_line line behind
  rw [followed_iff]
  constructor
  · omega
  · intro inside
    obtain ⟨same, size⟩ := rest inside
    have bound := nextWord_end (nextWord line).2.2
    rw [same, (nextWord_line _ behind).2.1]
    omega

theorem value_inside (line behind : Str) :
    (nextWord line).2.1 + 1 + ((nextWord (line ++ 0 :: behind)).2.2.takeWhile isSpace).length +
      (valueText (nextWord (line ++ 0 :: behind)).2.2).length ≤ line.length ↔ followed line = true := by
  obtain ⟨-, -, rest⟩ := nextWord_line line behind
  rw [followed_iff]
  constructor
  · omega
  · intro inside
    obtain ⟨same, size⟩ := rest inside
    have bound := valueText_inside (nextWord line).2.2
    rw [same, takeWhile_line rfl, valueText_line]
    omega

end

def secondWord (line : Str) : Str := (nextWord (nextWord line).2.2).1

section
variable {text gap : Str}

theorem nextWord_gap (ends : ∀ c ∈ gap, endsWord c = true) : (nextWord (text ++ gap)).1 = (nextWord text).1 ∧
    ∃ more, (∀ c ∈ more, endsWord c = true) ∧ (nextWord (text ++ gap)).2.2 = (nextWord text).2.2 ++ more := by
  obtain ⟨blanks, word, rest, splits⟩ := splits_exists text
  have shorter (n : Nat) : ∀ c ∈ gap.drop n, endsWord c = true := fun c member => ends c (List.mem_of_mem_drop member)
  rw [splits.nextWord]
  cases rest with
  | cons c rest =>
    have longer : Splits (text ++ gap) blanks word (c :: (rest ++ gap)) :=
      ⟨by rw [splits.text_eq, List.append_assoc]; rfl, splits.blank, splits.solid, splits.stop⟩
    rw [longer.nextWord]
    exact ⟨rfl, gap, ends, rfl⟩
  | nil =>
    by_cases none : word = []
    · subst none
      obtain ⟨blanks', word', rest', splits'⟩ := splits_exists gap
      have empty : word' = [] := by
        rcases word' with _ | ⟨c, word'⟩
        · rfl
        · have letter := splits'.solid c List.mem_cons_self
          have ended := ends c (by rw [splits'.text_eq]; simp)
          simp [endsWord, letter] at ended
      subst empty
      have longer : Splits (text ++ gap) (blanks ++ blanks') [] rest' := by
        refine ⟨by rw [splits.text_eq, splits'.text_eq]; simp, ?_, splits.solid, splits'.stop⟩
        exact fun c member => (List.mem_append.mp member).elim (splits.blank c) (splits'.blank c)
      rw [longer.nextWord]
      refine ⟨rfl, rest'.drop 1, fun c member => ends c ?_, rfl⟩
      rw [splits'.text_eq]
      exact List.mem_append_right _ (List.mem_of_mem_drop member)
    · have longer : Splits (text ++ gap) blanks word gap := by
        refine ⟨by rw [splits.text_eq, List.append_nil], splits.blank, splits.solid, fun c first => ?_⟩
        have ended := ends c (List.mem_of_head? first)
        unfold endsWord at ended
        rw [Bool.or_eq_true, beq_iff_eq] at ended
        exact ended.imp_right fun space => ⟨none, space⟩
      rw [longer.nextWord]
      exact ⟨rfl, gap.drop 1, shorter 1, rfl⟩

theorem wordCalls_gap {fuel fuel' p p' : Nat} (ends : ∀ c ∈ gap, endsWord c = true) (enough : (text ++ gap).length < fuel)
    (enough' : text.length < fuel') : (wordCalls fuel p (text ++ gap)).map Prod.fst = (wordCalls fuel' p' text).map Prod.fst := by
  induction fuel generalizing fuel' p p' text gap with
  | zero => cases enough
  | succ fuel ih =>
    cases fuel' with
    | zero => cases enough'
    | succ fuel' =>
      obtain ⟨first, more, left, rest⟩ := @nextWord_gap text gap ends
      unfold wordCalls
      dsimp only
      rw [first]
      split
      · rfl
      · rename_i some_
        have shorter := nextWord_shorter some_
        have shorter' := @nextWord_shorter (text ++ gap) (by rwa [first])
        rw [rest] at shorter' ⊢
        rw [List.map_cons, List.map_cons]
        exact congrArg (List.cons _) (ih left (by omega) (by omega))

theorem secondWord_gap (ends : ∀ c ∈ gap, endsWord c = true) : secondWord (text ++ gap) = secondWord text := by
  obtain ⟨-, more, left, rest⟩ := @nextWord_gap text gap ends
  unfold secondWord
  rw [rest, (nextWord_gap left).1]

end

end Ifupdown
