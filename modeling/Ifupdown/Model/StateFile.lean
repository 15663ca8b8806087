import Ifupdown.Base.Decimal
import Ifupdown.Model.LineReader
import Ifupdown.Model.State

/-! The text of the state database: `lif_state_write` and `lif_state_read`. -/
namespace Ifupdown

/-- `fprintf(f, "%s=%s %zu%s\n", …)`, without the newline. -/
def recordLine (key : Str) (rec : LifStateRecord) : Str :=
  key ++ 61 :: rec.mappedIf ++ 32 :: (decimal rec.refcount ++ (if rec.isExplicit then str " explicit" else []))

def lifStateWrite (state : StateDict) : Str :=
  state.records.flatMap (fun entry => recordLine entry.1 entry.2 ++ [10])

def readRefcount (refcount : Str) : Nat :=
  if refcount = [] then 1
  else
    let rc := strtoul refcount
    if rc = 0 ∨ rc = ulongMax then 1 else rc

theorem readRefcount_decimal {n : Nat} (counted : 1 ≤ n ∧ n ≤ 2 ^ 64 - 2) : readRefcount (decimal n) = n := by
  have value := strtoul_decimal (n := n) (by unfold ulongMax; omega)
  unfold readRefcount
  rw [if_neg (decimal_ne_nil n), value]
  exact if_neg (by unfold ulongMax; omega)

/-- The body of the loop of `lif_state_read`. -/
def readRecord (state : StateDict) (linebuf : Buffer) : StateDict × Buffer :=
  let (ifname, bufp, linebuf) := lifNextTokenAt linebuf 0
  let (refcount, bufp, linebuf) := lifNextTokenAt linebuf bufp
  let (explicit, _, linebuf) := lifNextTokenAt linebuf bufp
  let isExplicit := strAt linebuf explicit == str "explicit"
  let rc := readRefcount (strAt linebuf refcount)
  match (strAt linebuf 0).idxOf? 61 with
  | none =>
    let ifname := strAt linebuf ifname
    (lifStateUpsert state ifname { ifname := ifname, refcount := rc, isExplicit := isExplicit }, linebuf)
  | some equals =>
    let linebuf := linebuf.set equals 0
    (lifStateUpsert state (strAt linebuf ifname)
      { ifname := strAt linebuf (equals + 1), refcount := rc, isExplicit := isExplicit }, linebuf)

def readRecords : Nat → StateDict → Buffer → Str → StateDict
  | 0, state, _, _ => state
  | fuel + 1, state, linebuf, fd =>
    match lifFgetline linebuf 4096 fd with
    | (none, _) => state
    | (some linebuf, fd) =>
      let (state, linebuf) := readRecord state linebuf
      readRecords fuel state linebuf fd

/-- `linebuf` is what the uninitialised line buffer holds at first. -/
def lifStateRead (linebuf : Buffer) (state : StateDict) (fd : Str) : StateDict :=
  readRecords (fd.length + 1) state linebuf fd

end Ifupdown
