import Ifupdown.Model.StateFile

/-! What has been saved is read back. -/
namespace Ifupdown

structure Writable (key : Str) (rec : LifStateRecord) : Prop where
  name : Solid key ∧ 35 ∉ key ∧ 61 ∉ key
  mapped : Solid rec.mappedIf ∧ 35 ∉ rec.mappedIf
  counted : 1 ≤ rec.refcount ∧ rec.refcount ≤ 2 ^ 64 - 2
  short : (recordLine key rec).length < 4094

theorem Solid.append {s t : Str} (hs : Solid s) (ht : Solid t) : Solid (s ++ t) := by
  intro c member
  exact (List.mem_append.mp member).elim (hs c) (ht c)

theorem solid_decimal (n : Nat) : Solid (decimal n) := by
  intro c member
  have digit := decimal_digits n c member
  refine ⟨?_, isDigit_not_isSpace digit⟩
  intro zero
  rw [zero] at digit
  exact absurd digit (by decide)

theorem readRecord_words {key mapped count : Str} (flag post : Str) {c : UInt8} (state : StateDict) (hkey : Solid key)
    (plain : 61 ∉ key) (hmapped : Solid mapped) (hcount : Solid count) (nonempty : count ≠ []) (hflag : Solid flag)
    (stop : c = 0 ∨ isSpace c = true) :
    (readRecord state (key ++ 61 :: mapped ++ 32 :: (count ++ c :: (flag ++ 0 :: post)))).1 =
      lifStateUpsert state key
        { ifname := mapped, refcount := readRefcount count, isExplicit := flag == str "explicit" } := by
  have hword : Solid (key ++ 61 :: mapped) := hkey.append (List.forall_mem_cons.mpr ⟨by decide, hmapped⟩)
  have equals : (key ++ 61 :: mapped).idxOf? 61 = some key.length := by
    have before : key.findIdx? (· == 61) = none := List.idxOf?_eq_none_iff.mpr plain
    unfold List.idxOf?
    rw [List.findIdx?_append, before, List.findIdx?_cons, if_pos (by decide)]
    simp
  have atKey := strAt_append [] key (mapped ++ 0 :: (count ++ 0 :: (flag ++ 0 :: post))) rfl
    fun c member => (hkey c member).1
  have atMapped := strAt_append (key ++ [0]) mapped (count ++ 0 :: (flag ++ 0 :: post))
    (p := key.length + 1) (by simp) fun c member => (hmapped c member).1
  have cut : (key ++ 61 :: mapped ++ 0 :: (count ++ 0 :: (flag ++ 0 :: post))).set key.length 0 =
      key ++ 0 :: (mapped ++ 0 :: (count ++ 0 :: (flag ++ 0 :: post))) := by
    simp
  generalize word_ : key ++ 61 :: mapped = word at hword equals cut ⊢
  have first := lifNextTokenAt_word [] (count ++ c :: (flag ++ 0 :: post)) rfl hword (c := 32)
    (Or.inr ⟨by simp [← word_], rfl⟩)
  have second := lifNextTokenAt_word (word ++ [0]) (flag ++ 0 :: post) (p := word.length + 1)
    (by simp) hcount (stop.imp_right fun space => ⟨nonempty, space⟩)
  have third := lifNextTokenAt_word (word ++ [0] ++ count ++ [0]) post (p := word.length + 1 + count.length + 1)
    (by simp; omega) hflag (Or.inl rfl)
  have atCount := strAt_append (word ++ [0]) count (flag ++ 0 :: post) (p := word.length + 1)
    (by simp) fun c member => (hcount c member).1
  have atFlag := strAt_append (word ++ [0] ++ count ++ [0]) flag post
    (p := word.length + 1 + count.length + 1) (by simp; omega) fun c member => (hflag c member).1
  have atWord := strAt_append [] word (count ++ 0 :: (flag ++ 0 :: post)) rfl
    fun c member => (hword c member).1
  simp only [List.nil_append, List.length_nil, Nat.zero_add, List.append_assoc, List.cons_append] at *
  unfold readRecord
  simp only [first, second, third, atCount, atFlag, atWord, equals, cut, atKey, atMapped]

theorem readRecord_line {key : Str} {rec : LifStateRecord} (state : StateDict) (writable : Writable key rec)
    (post : Buffer) :
    (readRecord state (recordLine key rec ++ [0, 0] ++ post)).1 =
      lifStateUpsert state key
        { ifname := rec.mappedIf, refcount := rec.refcount, isExplicit := rec.isExplicit } := by
  obtain ⟨⟨hkey, -, plain⟩, ⟨hmapped, -⟩, counted, -⟩ := writable
  unfold recordLine
  cases explicit : rec.isExplicit with
  | false =>
    have words := readRecord_words [] post state hkey plain hmapped (solid_decimal rec.refcount)
      (decimal_ne_nil _) (by intro c member; cases member) (Or.inl rfl)
    rw [readRefcount_decimal counted, show ([] == str "explicit") = false from rfl] at words
    simpa using words
  | true =>
    have words := readRecord_words (str "explicit") (0 :: post) state hkey plain hmapped (solid_decimal rec.refcount)
      (decimal_ne_nil _) (by decide) (c := 32) (Or.inr rfl)
    rw [readRefcount_decimal counted] at words
    simpa [show str " explicit" = 32 :: str "explicit" from rfl] using words

theorem Solid.no_newline {s : Str} (solid : Solid s) {c : UInt8} (member : c ∈ s) : c ≠ 10 ∧ c ≠ 13 := by
  have word := (solid c member).2
  constructor <;>
    · intro same
      rw [same] at word
      exact absurd word (by decide)

theorem recordLine_plain {key : Str} {rec : LifStateRecord} (writable : Writable key rec) :
    ∀ c ∈ recordLine key rec, c ≠ 35 ∧ c ≠ 10 ∧ c ≠ 13 := by
  obtain ⟨⟨hkey, hashKey, -⟩, ⟨hmapped, hashMapped⟩, -, -⟩ := writable
  intro c member
  simp only [recordLine, List.append_assoc, List.cons_append, List.mem_append, List.mem_cons] at member
  rcases member with inKey | rfl | inMapped | rfl | inCount | inFlag
  · exact ⟨fun same => hashKey (same ▸ inKey), hkey.no_newline inKey⟩
  · decide
  · exact ⟨fun same => hashMapped (same ▸ inMapped), hmapped.no_newline inMapped⟩
  · decide
  · refine ⟨?_, (solid_decimal _).no_newline inCount⟩
    intro same
    have digit := decimal_digits _ c inCount
    rw [same] at digit
    exact absurd digit (by decide)
  · have flag : (str " explicit").all (fun c => c != 35 && c != 10 && c != 13) = true := by decide
    split at inFlag
    · simpa [and_assoc] using List.all_eq_true.mp flag c inFlag
    · cases inFlag

theorem recordLine_last (key : Str) (rec : LifStateRecord) : (recordLine key rec).getLast? ≠ some 92 := by
  obtain ⟨front, digit, last⟩ := (List.eq_nil_or_concat (decimal rec.refcount)).resolve_left (decimal_ne_nil _)
  have value := decimal_digits rec.refcount digit (by rw [last]; simp)
  unfold recordLine
  split
  · simp [List.getLast?_append, List.getLast?_cons, show (str " explicit").getLast? = some 116 from rfl]
  · have other : digit ≠ 92 := by
      intro same
      rw [same] at value
      exact absurd value (by decide)
    rw [List.append_nil, last]
    simpa [List.getLast?_append, List.getLast?_cons] using other

theorem upsert_absent {state : StateDict} {key : Str} (iface : LifInterface) (absent : key ∉ lifDictKeys state.records) :
    (lifStateUpsert state key iface).records =
      state.records ++ [(key, ⟨iface.ifname, iface.refcount, iface.isExplicit⟩)] := by
  simp only [lifStateUpsert, lifStateDelete, lifDictAdd, lifDictDelete_absent absent]

/-- The lines of the records that are left extend the state by these records. -/
theorem readRecords_lines {records : LifDict LifStateRecord} (fuel : Nat) (state : StateDict) (linebuf : Buffer)
    (writable : ∀ entry ∈ records, Writable entry.1 entry.2)
    (distinct : (lifDictKeys (state.records ++ records)).Nodup)
    (enough : (records.flatMap (fun entry => recordLine entry.1 entry.2 ++ [10])).length < fuel) :
    (readRecords fuel state linebuf (records.flatMap (fun entry => recordLine entry.1 entry.2 ++ [10]))).records =
      state.records ++ records := by
  induction records generalizing fuel state linebuf with
  | nil =>
    cases fuel with
    | zero => omega
    | succ fuel => simp [readRecords, lifFgetline, fgetlineLoop]
  | cons entry rest ih =>
    obtain ⟨key, rec⟩ := entry
    cases fuel with
    | zero => omega
    | succ fuel =>
      obtain ⟨own, others⟩ := List.forall_mem_cons.mp writable
      have line := lifFgetline_line 4096 linebuf
        (rest.flatMap (fun entry => recordLine entry.1 entry.2 ++ [10])) (recordLine_plain own)
        (recordLine_last key rec) (by have := own.short; omega)
      have absent : key ∉ lifDictKeys state.records := by
        intro present
        simp only [lifDictKeys, List.map_append, List.map_cons] at distinct present
        exact (List.nodup_append.mp distinct).2.2 key present key List.mem_cons_self rfl
      have added := upsert_absent
        { ifname := rec.mappedIf, refcount := rec.refcount, isExplicit := rec.isExplicit } absent
      have same : state.records ++ (key, rec) :: rest =
          (lifStateUpsert state key { ifname := rec.mappedIf, refcount := rec.refcount, isExplicit := rec.isExplicit }).records ++
            rest := by
        rw [added, List.append_assoc]
        rfl
      rw [same] at distinct ⊢
      rw [List.flatMap_cons, List.append_assoc, List.singleton_append]
      unfold readRecords
      simp only [line, readRecord_line state own]
      exact ih _ _ _ others distinct (by
        simp only [List.flatMap_cons, List.length_append, List.length_singleton] at enough
        omega)

/-- A state whose records can be written is read back from the file as it was. -/
theorem state_round_trip (linebuf : Buffer) (state : StateDict)
    (writable : ∀ entry ∈ state.records, Writable entry.1 entry.2) :
    lifStateRead linebuf StateDict.empty (lifStateWrite state) = state := by
  have lines := readRecords_lines ((lifStateWrite state).length + 1) StateDict.empty linebuf writable
    state.distinct (Nat.lt_succ_self _)
  cases read : lifStateRead linebuf StateDict.empty (lifStateWrite state) with
  | mk records distinct =>
    have same : records = state.records := by
      rw [← show (lifStateRead linebuf StateDict.empty (lifStateWrite state)).records = state.records from lines, read]
    cases state
    simp only at same
    subst same
    rfl

def wirelessState : StateDict where
  records :=
    [(str "wlan0", { mappedIf := str "home", refcount := 12, isExplicit := true }),
      (str "tun", { mappedIf := str "a\\b=c", refcount := 1, isExplicit := false })]
  distinct := by decide

theorem state_round_trip_wireless :
    lifStateRead (str "previous contents") StateDict.empty (lifStateWrite wirelessState) = wirelessState := by
  refine state_round_trip _ _ (List.forall_mem_cons.mpr ⟨?_, List.forall_mem_singleton.mpr ?_⟩)
  · exact ⟨by decide, by decide, by decide, by decide⟩
  · exact ⟨by decide, by decide, by decide, by decide⟩

end Ifupdown
