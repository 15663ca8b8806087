import Ifupdown.Base.Text
import Mathlib.Data.List.Infix

/-! The words of a text, and lists of words from which those are left out that stand inside an earlier one. -/
namespace Ifupdown

def IsWord (w : Str) : Prop := w ≠ [] ∧ ∀ c ∈ w, isSpace c = false

theorem strstr_iff {text needle : Str} : strstr text needle = true ↔ needle <:+: text := by
  induction text with
  | nil => simp [strstr]
  | cons c rest ih => rw [strstr, Bool.or_eq_true, List.isPrefixOf_iff_prefix, ih, List.infix_cons_iff]

theorem strstr_self (text : Str) : strstr text text = true := strstr_iff.mpr (List.infix_refl _)

theorem strstr_trans {a b c : Str} (ab : strstr a b = true) (bc : strstr b c = true) : strstr a c = true :=
  strstr_iff.mpr ((strstr_iff.mp bc).trans (strstr_iff.mp ab))

theorem lifTokens_eq (buf : Str) :
    lifTokens buf = if (lifNextToken buf).1 = [] then [] else (lifNextToken buf).1 :: lifTokens (lifNextToken buf).2 := by
  rw [lifTokens, tokenLoop]
  dsimp only
  split
  · rfl
  · rename_i nonempty
    rw [tokenLoop_enough (lifNextToken_shorter nonempty)]

@[simp] theorem lifTokens_nil : lifTokens [] = [] := rfl

theorem lifTokens_blank {c : UInt8} (blank : isSpace c = true) (rest : Str) : lifTokens (c :: rest) = lifTokens rest := by
  have same : lifNextToken (c :: rest) = lifNextToken rest := by
    simp [lifNextToken, List.dropWhile_cons_of_pos, blank]
  rw [lifTokens_eq, lifTokens_eq rest, same]

theorem lifNextToken_word {w rest : Str} (word : IsWord w) (stop : ∀ c ∈ rest.head?, isSpace c = true) :
    lifNextToken (w ++ rest) = (w, rest.drop 1) := by
  obtain ⟨nonempty, solid⟩ := word
  have start : (w ++ rest).dropWhile isSpace = w ++ rest := by
    obtain ⟨c, tail, rfl⟩ := List.exists_cons_of_ne_nil nonempty
    rw [List.cons_append, List.dropWhile_cons_of_neg]
    simp [solid c List.mem_cons_self]
  have inside : ∀ c ∈ w, (fun c => !isSpace c) c = true := by
    intro c member
    simp [solid c member]
  have outside : rest.takeWhile (fun c => !isSpace c) = [] ∧ rest.dropWhile (fun c => !isSpace c) = rest := by
    cases rest with
    | nil => exact ⟨rfl, rfl⟩
    | cons c tail =>
      have blank := stop c (by simp)
      exact ⟨List.takeWhile_cons_of_neg (by simp [blank]), List.dropWhile_cons_of_neg (by simp [blank])⟩
  simp only [lifNextToken]
  rw [start, List.takeWhile_append_of_pos inside, List.dropWhile_append_of_pos inside, outside.1, outside.2,
    List.append_nil]

theorem lifTokens_word {w : Str} (word : IsWord w) : lifTokens w = [w] := by
  have next : lifNextToken (w ++ []) = (w, [].drop 1) := lifNextToken_word word (by simp)
  rw [List.append_nil, List.drop_nil] at next
  rw [lifTokens_eq, next, if_neg word.1, lifTokens_nil]

theorem lifTokens_word_blank {w : Str} (word : IsWord w) {c : UInt8} (blank : isSpace c = true) (rest : Str) :
    lifTokens (w ++ c :: rest) = w :: lifTokens rest := by
  have next : lifNextToken (w ++ c :: rest) = (w, (c :: rest).drop 1) := lifNextToken_word word (by simpa using blank)
  rw [lifTokens_eq, next, if_neg word.1, List.drop_one, List.tail_cons]

/-- A text is empty, starts with a blank, is a word, or starts with a word and a blank. -/
theorem text_cases (text : Str) : text = [] ∨ (∃ c rest, text = c :: rest ∧ isSpace c = true) ∨ IsWord text ∨
    ∃ w c rest, text = w ++ c :: rest ∧ IsWord w ∧ isSpace c = true := by
  cases text with
  | nil => exact Or.inl rfl
  | cons c tail =>
    by_cases blank : isSpace c = true
    · exact Or.inr (Or.inl ⟨c, tail, rfl, blank⟩)
    have solid : ∀ d ∈ (c :: tail).takeWhile (fun c => !isSpace c), isSpace d = false := by
      intro d member
      have kept := List.all_takeWhile (p := fun c => !isSpace c) (l := c :: tail)
      simpa using List.all_eq_true.mp kept d member
    have nonempty : (c :: tail).takeWhile (fun c => !isSpace c) ≠ [] := by
      simp [blank]
    have split := List.takeWhile_append_dropWhile (p := fun c => !isSpace c) (l := c :: tail)
    cases rest : (c :: tail).dropWhile (fun c => !isSpace c) with
    | nil =>
      rw [rest, List.append_nil] at split
      rw [← split]
      exact Or.inr (Or.inr (Or.inl ⟨nonempty, solid⟩))
    | cons d rest' =>
      have stop := List.head?_dropWhile_not (fun c => !isSpace c) (c :: tail)
      rw [rest] at split stop
      rw [← split]
      exact Or.inr (Or.inr (Or.inr ⟨_, d, rest', rfl, ⟨nonempty, solid⟩, by simpa using stop⟩))

@[elab_as_elim] theorem text_induction {motive : Str → Prop} (text : Str) (nil : motive [])
    (blank : ∀ c rest, isSpace c = true → motive rest → motive (c :: rest)) (word : ∀ w, IsWord w → motive w)
    (words : ∀ w c rest, IsWord w → isSpace c = true → motive rest → motive (w ++ c :: rest)) : motive text := by
  induction size : text.length using Nat.strong_induction_on generalizing text with
  | _ n ih =>
    rcases text_cases text with rfl | ⟨c, rest, rfl, space⟩ | solid | ⟨w, c, rest, rfl, solid, space⟩
    · exact nil
    · exact blank c rest space (ih rest.length (by simp [← size]) rest rfl)
    · exact word text solid
    · exact words w c rest solid space (ih rest.length (by simp [← size]; omega) rest rfl)

theorem lifTokens_words (text : Str) : ∀ w ∈ lifTokens text, IsWord w := by
  induction text using text_induction with
  | nil => simp
  | blank c rest space ih =>
    rw [lifTokens_blank space]
    exact ih
  | word w solid =>
    rw [lifTokens_word solid]
    simpa using solid
  | words w c rest solid space ih =>
    rw [lifTokens_word_blank solid space]
    exact List.forall_mem_cons.mpr ⟨solid, ih⟩

theorem lifTokens_bytes {text w : Str} {c : UInt8} (member : w ∈ lifTokens text) (inside : c ∈ w) : c ∈ text := by
  induction text using text_induction with
  | nil => cases member
  | blank d rest space ih =>
    rw [lifTokens_blank space] at member
    exact List.mem_cons_of_mem _ (ih member)
  | word v solid =>
    rw [lifTokens_word solid, List.mem_singleton] at member
    rwa [member] at inside
  | words v d rest solid space ih =>
    rw [lifTokens_word_blank solid space] at member
    rcases List.mem_cons.mp member with rfl | later
    · exact List.mem_append_left _ inside
    · exact List.mem_append_right _ (List.mem_cons_of_mem _ (ih later))

theorem lifTokens_append (a : Str) {c : UInt8} (blank : isSpace c = true) (b : Str) :
    lifTokens (a ++ c :: b) = lifTokens a ++ lifTokens b := by
  induction a using text_induction with
  | nil => rw [List.nil_append, lifTokens_blank blank, lifTokens_nil, List.nil_append]
  | blank d rest space ih => rw [List.cons_append, lifTokens_blank space, lifTokens_blank space, ih]
  | word w solid => rw [lifTokens_word_blank solid blank, lifTokens_word solid, List.singleton_append]
  | words w d rest solid space ih =>
    rw [List.append_assoc, List.cons_append, lifTokens_word_blank solid space, lifTokens_word_blank solid space, ih,
      List.cons_append]

def render (words : List Str) : Str := words.flatMap fun w => w ++ [32]

theorem render_cons (w : Str) (words : List Str) : render (w :: words) = w ++ [32] ++ render words := rfl

theorem render_length (text : Str) : (render (lifTokens text)).length ≤ text.length + 1 := by
  induction text using text_induction with
  | nil => exact Nat.zero_le _
  | blank c rest space ih =>
    rw [lifTokens_blank space, List.length_cons]
    omega
  | word w solid =>
    rw [lifTokens_word solid]
    simp [render]
  | words w c rest solid space ih =>
    rw [lifTokens_word_blank solid space, render_cons]
    simp only [List.length_append, List.length_cons, List.length_nil]
    omega

theorem render_length_le {words' words : List Str} (kept : words'.Sublist words) :
    (render words').length ≤ (render words).length := by
  induction kept with
  | slnil => exact Nat.le_refl _
  | cons w _ ih =>
    rw [render_cons, List.length_append]
    omega
  | cons_cons w _ ih =>
    simp only [render_cons, List.length_append]
    omega

theorem lifTokens_render {words : List Str} (solid : ∀ w ∈ words, IsWord w) : lifTokens (render words) = words := by
  induction words with
  | nil => rfl
  | cons w rest ih =>
    obtain ⟨word, later⟩ := List.forall_mem_cons.mp solid
    rw [render, List.flatMap_cons, List.append_assoc, List.singleton_append, lifTokens_word_blank word (by decide)]
    exact congrArg _ (ih later)

theorem render_snoc (words : List Str) (w : Str) : render (words ++ [w]) = render words ++ w ++ [32] := by
  simp [render]

theorem lifTokens_take_render {words : List Str} (solid : ∀ w ∈ words, IsWord w) {n : Nat}
    (enough : (render words).length ≤ n + 1) : lifTokens ((render words).take n) = words := by
  by_cases whole : (render words).length ≤ n
  · rw [List.take_of_length_le whole, lifTokens_render solid]
  rcases List.eq_nil_or_concat words with rfl | ⟨before, last, rfl⟩
  · simp [render] at whole
  rw [List.concat_eq_append, render_snoc] at whole enough ⊢
  have length : (render before ++ last).length = n := by
    simp only [List.length_append, List.length_singleton] at whole enough ⊢
    omega
  rw [List.concat_eq_append] at solid
  rw [List.take_left' length]
  rcases List.eq_nil_or_concat before with rfl | ⟨front, next, rfl⟩
  · exact lifTokens_word (solid last (by simp))
  · have inner : ∀ w ∈ front.concat next, IsWord w := fun w member => solid w (List.mem_append_left _ member)
    rw [List.concat_eq_append] at inner ⊢
    have before := lifTokens_render inner
    rw [render_snoc] at before ⊢
    rw [lifTokens_append _ (by decide) [], lifTokens_nil, List.append_nil] at before
    rw [List.append_assoc, List.singleton_append, lifTokens_append _ (by decide), before,
      lifTokens_word (solid last (by simp))]

theorem infix_blank {w a b : Str} {c : UInt8} (absent : c ∉ w) : w <:+: a ++ c :: b ↔ w <:+: a ∨ w <:+: b := by
  constructor
  · intro ⟨s, t, same⟩
    rcases List.append_eq_append_iff.mp same with ⟨a', rfl, -⟩ | ⟨c', before, after⟩
    · exact Or.inl ⟨s, a', rfl⟩
    cases c' with
    | nil =>
      rw [List.append_nil] at before
      exact Or.inl ⟨s, [], by rw [List.append_nil, before]⟩
    | cons d c' =>
      rw [List.cons_append, List.cons.injEq] at after
      obtain ⟨rfl, rfl⟩ := after
      rcases List.append_eq_append_iff.mp before with ⟨a', rfl, inside⟩ | ⟨e, rfl, behind⟩
      · exact absurd (inside ▸ List.mem_append_right _ List.mem_cons_self) absent
      cases e with
      | nil =>
        rw [List.nil_append] at behind
        exact absurd (behind ▸ List.mem_cons_self) absent
      | cons _ e =>
        rw [List.cons_append, List.cons.injEq] at behind
        exact Or.inr ⟨e, t, by rw [behind.2]⟩
  · intro h
    rcases h with left | right
    · exact left.trans (List.infix_append' [] a _)
    · exact right.trans ⟨a ++ [c], [], by simp⟩

theorem strstr_render {words : List Str} {w : Str} (word : IsWord w) :
    strstr (render words) w = words.any fun kept => strstr kept w := by
  have absent : (32 : UInt8) ∉ w := fun member => absurd (word.2 32 member) (by decide)
  induction words with
  | nil =>
    rw [Bool.eq_iff_iff, strstr_iff, render, List.flatMap_nil, List.infix_nil]
    simp [word.1]
  | cons kept rest ih =>
    rw [List.any_cons, ← ih, Bool.eq_iff_iff, Bool.or_eq_true, strstr_iff, strstr_iff, strstr_iff, render,
      List.flatMap_cons, List.append_assoc, List.singleton_append, infix_blank absent]
    rfl

/-- The words that are kept when one that stands inside an earlier one is left out. -/
def keepWords (words : List Str) : List Str :=
  words.foldl (fun kept w => if kept.any fun k => strstr k w then kept else kept ++ [w]) []

def Uncovered (w : Str) (words : List Str) : Prop :=
  ∃ before behind, words = before ++ w :: behind ∧ ∀ earlier ∈ before, strstr earlier w = false

theorem keepWords_snoc (words : List Str) (w : Str) : keepWords (words ++ [w]) =
    if (keepWords words).any fun k => strstr k w then keepWords words else keepWords words ++ [w] := by
  rw [keepWords, List.foldl_append]
  rfl

theorem keepWords_sublist (words : List Str) : (keepWords words).Sublist words := by
  induction words using List.reverseRecOn with
  | nil => exact List.Sublist.refl _
  | append_singleton words w ih =>
    rw [keepWords_snoc]
    split
    · exact ih.trans (List.sublist_append_left _ _)
    · exact ih.append (List.Sublist.refl _)

theorem keepWords_nodup (words : List Str) : (keepWords words).Nodup := by
  induction words using List.reverseRecOn with
  | nil => exact List.nodup_nil
  | append_singleton words w ih =>
    rw [keepWords_snoc]
    split
    · exact ih
    · rename_i free
      refine List.nodup_append.mpr ⟨ih, List.pairwise_singleton _ w, fun k kept v last same => ?_⟩
      obtain rfl := List.mem_singleton.mp last
      exact free (List.any_eq_true.mpr ⟨k, kept, by rw [same, strstr_self]⟩)

theorem any_keepWords (words : List Str) (v : Str) :
    ((keepWords words).any fun k => strstr k v) = words.any fun k => strstr k v := by
  rw [Bool.eq_iff_iff]
  simp only [List.any_eq_true]
  constructor
  · intro ⟨k, kept, inside⟩
    exact ⟨k, (keepWords_sublist words).subset kept, inside⟩
  · intro ⟨k, member, inside⟩
    induction words using List.reverseRecOn with
    | nil => cases member
    | append_singleton words w ih =>
      rw [keepWords_snoc]
      rcases List.mem_append.mp member with old | new
      · obtain ⟨k', kept, inside'⟩ := ih old
        refine ⟨k', ?_, inside'⟩
        split
        · exact kept
        · exact List.mem_append_left _ kept
      · obtain rfl := List.mem_singleton.mp new
        split
        · rename_i covered
          obtain ⟨k', kept, outer⟩ := List.any_eq_true.mp covered
          exact ⟨k', kept, strstr_trans outer inside⟩
        · exact ⟨k, List.mem_append_right _ new, inside⟩

theorem Uncovered.mem {w : Str} {words : List Str} (uncovered : Uncovered w words) : w ∈ words := by
  obtain ⟨before, behind, rfl, -⟩ := uncovered
  simp

theorem Uncovered.append {w : Str} {words : List Str} (uncovered : Uncovered w words) (more : List Str) :
    Uncovered w (words ++ more) := by
  obtain ⟨before, behind, rfl, apart⟩ := uncovered
  exact ⟨before, behind ++ more, by simp, apart⟩

/-- The words that are kept are those that no earlier word covers. -/
theorem mem_keepWords {w : Str} {words : List Str} : w ∈ keepWords words ↔ Uncovered w words := by
  induction words using List.reverseRecOn with
  | nil =>
    constructor
    · intro member
      cases member
    · intro uncovered
      cases uncovered.mem
  | append_singleton words v ih =>
    have last : (w ∈ if (keepWords words).any fun k => strstr k v then keepWords words else keepWords words ++ [v]) ↔
        w ∈ keepWords words ∨ w = v ∧ ¬ (words.any fun k => strstr k v) = true := by
      rw [any_keepWords]
      split
      · rename_i covered
        simp [covered]
      · rename_i free
        simp [free]
    rw [keepWords_snoc, last, ih]
    constructor
    · intro h
      rcases h with old | ⟨rfl, free⟩
      · exact old.append _
      · refine ⟨words, [], rfl, fun earlier member => ?_⟩
        rw [Bool.eq_false_iff]
        exact fun inside => free (List.any_eq_true.mpr ⟨earlier, member, inside⟩)
    · intro ⟨before, behind, split, apart⟩
      rcases List.eq_nil_or_concat behind with rfl | ⟨front, last, rfl⟩
      · obtain ⟨rfl, same⟩ := List.append_inj' split rfl
        obtain rfl := (List.cons.inj same).1
        refine Or.inr ⟨rfl, fun covered => ?_⟩
        obtain ⟨earlier, member, inside⟩ := List.any_eq_true.mp covered
        rw [apart earlier member] at inside
        cases inside
      · rw [List.concat_eq_append, ← List.cons_append, ← List.append_assoc] at split
        exact Or.inl ⟨before, front, (List.append_inj' split rfl).1, apart⟩

instance (w : Str) (words : List Str) : Decidable (Uncovered w words) := decidable_of_iff _ mem_keepWords

theorem uncovered_keepWords {w : Str} {words : List Str} (uncovered : Uncovered w words) :
    Uncovered w (keepWords words) := by
  induction words using List.reverseRecOn with
  | nil => cases uncovered.mem
  | append_singleton words v ih =>
    have kept := mem_keepWords.mpr uncovered
    by_cases old : Uncovered w words
    · rw [keepWords_snoc]
      split
      · exact ih old
      · exact (ih old).append _
    · rw [keepWords_snoc] at kept ⊢
      split at kept
      · exact absurd (mem_keepWords.mp kept) old
      · rename_i free
        rw [if_neg free]
        rcases List.mem_append.mp kept with before | new
        · exact absurd (mem_keepWords.mp before) old
        · obtain rfl := List.mem_singleton.mp new
          refine ⟨keepWords words, [], rfl, fun earlier member => ?_⟩
          rw [Bool.eq_false_iff]
          exact fun inside => free (List.any_eq_true.mpr ⟨earlier, member, inside⟩)

theorem strstr_prefix {a b : Str} (front : a <+: b) : strstr b a = true := strstr_iff.mpr front.isInfix

theorem eraseDups_snoc (words : List Str) (w : Str) :
    (words ++ [w]).eraseDups = if w ∈ words then words.eraseDups else words.eraseDups ++ [w] := by
  rw [List.eraseDups_append]
  split
  · rename_i member
    simp [List.removeAll, member]
  · rename_i fresh
    simp [List.removeAll, fresh, List.eraseDups_cons]

/-- The words are kept as they first occur just if none of them is covered there. -/
theorem keepWords_eraseDups {words : List Str} : keepWords words = words.eraseDups ↔ ∀ w ∈ words, Uncovered w words := by
  constructor
  · intro same w member
    rw [← mem_keepWords, same, List.mem_eraseDups]
    exact member
  · intro uncovered
    induction words using List.reverseRecOn with
    | nil => rfl
    | append_singleton words w ih =>
      have before : ∀ v ∈ words, Uncovered v words := by
        intro v member
        obtain ⟨front, behind, split, apart⟩ := uncovered v (List.mem_append_left _ member)
        rcases List.eq_nil_or_concat behind with rfl | ⟨middle, last, rfl⟩
        · obtain ⟨rfl, -⟩ := List.append_inj' split rfl
          have inside := apart v member
          rw [strstr_self] at inside
          cases inside
        · rw [List.concat_eq_append, ← List.cons_append, ← List.append_assoc] at split
          exact ⟨front, middle, (List.append_inj' split rfl).1, apart⟩
      have covered : (words.any fun k => strstr k w) = true ↔ w ∈ words := by
        rw [List.any_eq_true]
        constructor
        · intro ⟨k, member, inside⟩
          obtain ⟨front, behind, split, apart⟩ := uncovered w (by simp)
          rcases List.eq_nil_or_concat behind with rfl | ⟨middle, last, rfl⟩
          · obtain ⟨rfl, -⟩ := List.append_inj' split rfl
            rw [apart k member] at inside
            cases inside
          · rw [List.concat_eq_append, ← List.cons_append, ← List.append_assoc] at split
            rw [(List.append_inj' split rfl).1]
            simp
        · exact fun member => ⟨w, member, strstr_self w⟩
      rw [keepWords_snoc, any_keepWords, eraseDups_snoc, ih before]
      simp only [covered]

theorem keepWords_idem (words : List Str) : keepWords (keepWords words) = keepWords words := by
  induction words using List.reverseRecOn with
  | nil => rfl
  | append_singleton words w ih =>
    by_cases covered : (words.any fun k => strstr k w) = true
    · rw [keepWords_snoc, any_keepWords, if_pos covered, ih]
    · rw [keepWords_snoc, any_keepWords, if_neg covered, keepWords_snoc, any_keepWords, any_keepWords, if_neg covered, ih]

theorem keepWords_covered {words more : List Str} (covered : ∀ v ∈ more, (words.any fun k => strstr k v) = true) :
    keepWords (words ++ more) = keepWords words := by
  induction more using List.reverseRecOn with
  | nil => rw [List.append_nil]
  | append_singleton more v ih =>
    have inside := covered v (by simp)
    have any : ((words ++ more).any fun k => strstr k v) = true := by
      rw [List.any_append, inside, Bool.true_or]
    rw [← List.append_assoc, keepWords_snoc, any_keepWords, if_pos any]
    exact ih fun w member => covered w (List.mem_append_left _ member)

/-- A text that is cut off has no other words than the text, but for a piece of one. -/
theorem lifTokens_take (text : Str) (n : Nat) : ∀ v ∈ lifTokens (text.take n), ∃ w ∈ lifTokens text, v <+: w := by
  have cut (w : Str) (word : IsWord w) (n : Nat) : ∀ v ∈ lifTokens (w.take n), v <+: w := by
    intro v member
    by_cases empty : w.take n = []
    · rw [empty] at member
      cases member
    · have piece : IsWord (w.take n) := ⟨empty, fun c inside => word.2 c (List.mem_of_mem_take inside)⟩
      rw [lifTokens_word piece, List.mem_singleton] at member
      exact member ▸ List.take_prefix n w
  induction text using text_induction generalizing n with
  | nil => simp
  | blank c rest space ih =>
    cases n with
    | zero => simp
    | succ n =>
      rw [List.take_succ_cons, lifTokens_blank space, lifTokens_blank space]
      exact ih n
  | word w solid =>
    rw [lifTokens_word solid]
    exact fun v member => ⟨w, by simp, cut w solid n v member⟩
  | words w c rest solid space ih =>
    rw [lifTokens_word_blank solid space]
    intro v member
    by_cases short : n ≤ w.length
    · rw [List.take_append_of_le_length short] at member
      exact ⟨w, List.mem_cons_self, cut w solid n v member⟩
    · obtain ⟨k, rfl⟩ : ∃ k, n = w.length + 1 + k := ⟨n - (w.length + 1), by omega⟩
      have whole : (w ++ c :: rest).take (w.length + 1 + k) = w ++ c :: rest.take k := by
        rw [List.take_append, List.take_of_length_le (by omega), show w.length + 1 + k - w.length = k + 1 by omega,
          List.take_succ_cons]
      rw [whole, lifTokens_word_blank solid space] at member
      rcases List.mem_cons.mp member with rfl | later
      · exact ⟨v, List.mem_cons_self, List.prefix_refl v⟩
      · obtain ⟨w', inside, front⟩ := ih k v later
        exact ⟨w', List.mem_cons_of_mem _ inside, front⟩

end Ifupdown
