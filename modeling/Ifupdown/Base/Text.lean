/-! C strings as the bytes before their NUL, and the tokenizer of tokenize.h. -/
namespace Ifupdown

abbrev Str := List UInt8

instance : LawfulBEq Str := inferInstance

def str (s : String) : Str := s.toList.map (fun c => c.toNat.toUInt8)

/-- `isspace` in the C locale. -/
def isSpace (c : UInt8) : Bool := c == 32 || (9 ≤ c && c ≤ 13)

/-- The string that `strlcpy` leaves in a buffer of `size` bytes. -/
def strlcpy (size : Nat) (s : Str) : Str := s.take (size - 1)

def strlcat (size : Nat) (dst src : Str) : Str := dst ++ src.take (size - 1 - dst.length)

def strstr : Str → Str → Bool
  | [], needle => needle.isEmpty
  | c :: rest, needle => needle.isPrefixOf (c :: rest) || strstr rest needle

/-- The next token, and where the buffer pointer then stands: one byte past the
end of the token. The bytes after the string's own NUL are zero, as in the
zeroed buffers of lifecycle.c. -/
def lifNextToken (buf : Str) : Str × Str :=
  let out := buf.dropWhile isSpace
  (out.takeWhile (fun c => !isSpace c), (out.dropWhile (fun c => !isSpace c)).drop 1)

/-- `for (tokenp = lif_next_token(&bufp); *tokenp; tokenp = lif_next_token(&bufp))` -/
def tokenLoop : Nat → Str → List Str
  | 0, _ => []
  | fuel + 1, buf =>
    let (token, rest) := lifNextToken buf
    if token = [] then [] else token :: tokenLoop fuel rest

def lifTokens (buf : Str) : List Str := tokenLoop (buf.length + 1) buf

theorem lifNextToken_shorter {buf : Str} (h : (lifNextToken buf).1 ≠ []) :
    (lifNextToken buf).2.length < buf.length := by
  have split := congrArg List.length
    (List.takeWhile_append_dropWhile (p := fun c => !isSpace c) (l := buf.dropWhile isSpace))
  have skipped := (List.dropWhile_sublist (l := buf) isSpace).length_le
  have positive := List.length_pos_iff.mpr h
  simp only [lifNextToken, List.length_append, List.length_drop] at split positive ⊢
  omega

/-- Every token takes at least one byte, so `lifTokens` never runs out of fuel. -/
theorem tokenLoop_enough {fuel : Nat} {buf : Str} (h : buf.length < fuel) :
    tokenLoop fuel buf = lifTokens buf := by
  have same : ∀ (n m : Nat) (buf : Str), buf.length < n → buf.length < m →
      tokenLoop n buf = tokenLoop m buf := by
    intro n
    induction n with
    | zero => intro m buf hn _; omega
    | succ n ih =>
      intro m buf hn hm
      cases m with
      | zero => omega
      | succ m =>
        simp only [tokenLoop]
        split
        · rfl
        · rename_i nonempty
          have shorter := lifNextToken_shorter nonempty
          rw [ih m _ (by omega) (by omega)]
  exact same _ _ _ h (by omega)

example : lifTokens (str "eth0  eth1\t") = [str "eth0", str "eth1"] := by decide

end Ifupdown
