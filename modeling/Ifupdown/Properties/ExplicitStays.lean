import Ifupdown.Session.Stanzas

/-! What keeps an explicit interface recorded and up. -/
namespace Ifupdown

/-- `iface` is recorded as explicit, and no phase of its teardown has run since `start`. -/
structure Kept (interfaces : Interfaces) (iface : Str) (start : List (Event Str))
    (records : Str → Option LifStateRecord) (trace : List (Event Str)) : Prop where
  tallied : Tallied interfaces.requires (configured ∅ trace) records
  explicit : ∃ rec, records iface = some rec ∧ rec.isExplicit = true
  untouched : ∃ ev, trace = start ++ ev ∧ ∀ phase ∈ downPhases, iface ∉ starts phase ev

theorem record_explicit {w : World} (counted : 0 < w.count iface)
    (explicit : (w.collection.iface iface).isExplicit = true) :
    ∃ rec, w.records iface = some rec ∧ rec.isExplicit = true := by
  have positive : (w.collection.iface iface).refcount ≠ 0 := counted.ne'
  exact ⟨_, by rw [World.records, LifInterface.record, if_neg positive], explicit⟩

theorem explicit_record {w : World} (h : ∃ rec, w.records iface = some rec ∧ rec.isExplicit = true) :
    0 < w.count iface ∧ (w.collection.iface iface).isExplicit = true := by
  obtain ⟨rec, record, explicit⟩ := h
  have counted := records_counted record
  have positive : (w.collection.iface iface).refcount ≠ 0 := counted.ne'
  refine ⟨counted, ?_⟩
  rw [World.records, LifInterface.record, if_neg positive] at record
  rw [← explicit, ← Option.some.inj record]

theorem explicit_marked {w : World} (counted : 0 < w.count other)
    (explicit : ∃ rec, w.records iface = some rec ∧ rec.isExplicit = true) :
    ∃ rec, (w.markExplicit other other).records iface = some rec ∧ rec.isExplicit = true := by
  rw [records_markExplicit counted]
  split
  · exact ⟨_, rfl, rfl⟩
  · exact explicit

/-- The records and the events of a stretch that takes nothing away from `iface`. -/
theorem explicit_evolves {w w' : World} (evolves : Evolves True [] w w' ev) (counted : 0 < w'.count iface)
    (explicit : (w.collection.iface iface).isExplicit = true)
    (quiet : ∀ phase ∈ downPhases, iface ∉ starts phase ev)
    (before : ∃ ev, w.trace = start ++ ev ∧ ∀ phase ∈ downPhases, iface ∉ starts phase ev) :
    (∃ rec, w'.records iface = some rec ∧ rec.isExplicit = true) ∧
      ∃ ev, w'.trace = start ++ ev ∧ ∀ phase ∈ downPhases, iface ∉ starts phase ev := by
  constructor
  · apply record_explicit counted
    rw [← explicit]
    show (w'.collection.iface iface).config.isExplicit = _
    rw [evolves.config]
    rfl
  · obtain ⟨early, trace, absent⟩ := before
    refine ⟨early ++ ev, by rw [evolves.trace, trace, List.append_assoc], fun phase among => ?_⟩
    rw [starts_append, List.mem_append, not_or]
    exact ⟨absent phase among, quiet phase among⟩

/-- A tidy call on another interface keeps `iface` up and recorded. -/
theorem call_kept {call : Call} (made : call.Made interfaces) (tidy : call.Tidy)
    (other : call.up = false → call.iface ≠ iface)
    (kept : Kept interfaces iface start call.before.records call.before.trace) :
    Kept interfaces iface start call.after.records call.after.trace := by
  have after := call_tallied made tidy kept.tallied
  obtain ⟨opts, named, up, w, ok, w'⟩ := call
  obtain ⟨plain, ready, -, changed⟩ := made
  dsimp only at changed kept after other
  obtain ⟨counted, explicit⟩ := explicit_record kept.explicit
  have rise {w' ok ev} (run : Up (w.collection.graph opts) [] (.run named named) w.count ok w'.count ev)
      (evolves : Evolves True [] w w' ev) := explicit_evolves evolves
    (Nat.lt_of_lt_of_le counted (up_mono run iface)) explicit (fun phase among => by
      rw [up_starts_other run phase (by revert among; cases phase <;> decide)]
      exact List.not_mem_nil) kept.untouched
  cases changed with
  | untouched => exact kept
  | marked held => exact ⟨after, explicit_marked held kept.explicit, kept.untouched⟩
  | up _ _ run =>
    obtain ⟨ev, run, evolves⟩ := run
    exact ⟨after, (rise run evolves).1, (rise run evolves).2⟩
  | upMarked _ _ follows =>
    obtain ⟨ev, run, evolves⟩ := follows
    exact ⟨after, explicit_marked (follows_up_counted ⟨ev, run, evolves⟩) (rise run evolves).1,
      (rise run evolves).2⟩
  | down _ _ run =>
    obtain ⟨ev, run, evolves⟩ := run
    have spared (phase : Phase) : iface ∉ starts phase ev := by
      intro member
      rcases (down_implicit run phase member).2 with root | implicit
      · exact other rfl (Option.some.inj root)
      · rw [show (w.collection.graph opts).explicit iface = true from explicit] at implicit
        cases implicit
    have counted' : 0 < w'.count iface := by
      have exact := tallied_exact after iface trivial
      have before : iface ∈ configured ∅ w.trace :=
        exact_counted (tallied_exact kept.tallied) kept.tallied.2 trivial counted
      have stays : iface ∈ configured ∅ w'.trace := by
        rw [evolves.trace, configured_append, down_configured run, Finset.mem_sdiff]
        exact ⟨before, fun down => spared .preDown (down_started run (Or.inl down))⟩
      rw [if_pos stays] at exact
      omega
    obtain ⟨record, untouched⟩ := explicit_evolves evolves counted' explicit
      (fun phase _ => spared phase) kept.untouched
    exact ⟨after, record, untouched⟩

/-- Once an interface is recorded as explicit, it stays recorded and up until it is named by an
`ifdown`, as long as each change of an interface is tidy. -/
theorem explicit_stays (interfaces : Interfaces) (first later : List Invocation) (iface : Str)
    (plain : ∀ inv ∈ first ++ later, inv.Plain)
    (tidy : ∀ call ∈ sessionCalls interfaces (first ++ later) freshSystem, call.Tidy)
    (explicit : ∃ rec, lifDictFind (runSession interfaces first freshSystem).saved.records iface = some rec ∧
      rec.isExplicit = true)
    (others : ∀ call ∈ sessionCalls interfaces later (runSession interfaces first freshSystem),
      call.up = false → call.iface ≠ iface) :
    (∃ rec, lifDictFind (runSession interfaces (first ++ later) freshSystem).saved.records iface = some rec ∧
      rec.isExplicit = true) ∧
    ∃ ev, (runSession interfaces (first ++ later) freshSystem).trace =
        (runSession interfaces first freshSystem).trace ++ ev ∧
      ∀ phase ∈ downPhases, iface ∉ starts phase ev := by
  rw [sessionCalls_append] at tidy
  rw [runSession_append]
  obtain ⟨sound, tallied⟩ := session_invariant interfaces freshSystem
    (p := fun records trace => Tallied interfaces.requires (configured ∅ trace) records) sound_empty
    (fun inv member => plain inv (List.mem_append_left _ member)) (freshSystem_tallied _)
    (fun call member made tallied =>
      call_tallied made (tidy call (List.mem_append_left _ member)) tallied)
  obtain ⟨-, kept⟩ := session_invariant interfaces (runSession interfaces first freshSystem)
    (p := Kept interfaces iface (runSession interfaces first freshSystem).trace) sound
    (fun inv member => plain inv (List.mem_append_right _ member))
    ⟨tallied, explicit, [], (List.append_nil _).symm, by simp⟩
    (fun call member made kept =>
      call_kept made (tidy call (List.mem_append_right _ member)) (others call member) kept)
  exact ⟨kept.explicit, kept.untouched⟩

def chain : Interfaces :=
  interfacesFile [(str "tun0", [(str "requires", str "br0")]), (str "br0", [(str "requires", str "eth0")]),
    (str "eth0", [])] (by decide) (by decide) (by decide)

theorem explicit_stays_chain :
    (∃ rec, lifDictFind (runSession chain ([ifup ["tun0"], ifup ["eth0"]] ++ [ifdown ["tun0"], ifup ["br0"]])
        freshSystem).saved.records (str "eth0") = some rec ∧ rec.isExplicit = true) ∧
    ∃ ev, (runSession chain ([ifup ["tun0"], ifup ["eth0"]] ++ [ifdown ["tun0"], ifup ["br0"]])
          freshSystem).trace =
        (runSession chain [ifup ["tun0"], ifup ["eth0"]] freshSystem).trace ++ ev ∧
      ∀ phase ∈ downPhases, str "eth0" ∉ starts phase ev := by
  have plain : ∀ inv ∈ [ifup ["tun0"], ifup ["eth0"]] ++ [ifdown ["tun0"], ifup ["br0"]], inv.Plain := by
    decide
  have calm : ∀ call ∈ sessionCalls chain ([ifup ["tun0"], ifup ["eth0"]] ++ [ifdown ["tun0"], ifup ["br0"]])
      freshSystem, call.Calm := by decide
  exact explicit_stays chain [ifup ["tun0"], ifup ["eth0"]] [ifdown ["tun0"], ifup ["br0"]] (str "eth0") plain
    (fun call member => calm_tidy interfacesFile_sane (sessionCalls_made sound_empty plain call member)
      (calm call member))
    ⟨⟨str "eth0", 2, true⟩, by decide, rfl⟩ (by decide)

/-- `br0` goes down although `tun0` needs it, and again although it is down already. -/
theorem explicit_removed :
    ¬ ∀ (interfaces : Interfaces) (first later : List Invocation) (iface : Str),
      (∀ inv ∈ first ++ later, inv.Plain) →
      (∀ call ∈ sessionCalls interfaces (first ++ later) freshSystem, failures call.events = []) →
      (∃ rec, lifDictFind (runSession interfaces first freshSystem).saved.records iface = some rec ∧
        rec.isExplicit = true) →
      (∀ call ∈ sessionCalls interfaces later (runSession interfaces first freshSystem), call.iface ≠ iface) →
      ∃ rec, lifDictFind (runSession interfaces (first ++ later) freshSystem).saved.records iface =
        some rec := by
  intro claim
  have absent : lifDictFind (runSession chain ([ifup ["tun0"], ifup ["eth0"]] ++ [ifdown ["br0"], ifdown ["br0"]])
      freshSystem).saved.records (str "eth0") = none := by decide
  obtain ⟨rec, present⟩ := claim chain [ifup ["tun0"], ifup ["eth0"]] [ifdown ["br0"], ifdown ["br0"]]
    (str "eth0") (by decide) (by decide) ⟨⟨str "eth0", 2, true⟩, by decide, rfl⟩ (by decide)
  rw [absent] at present
  cases present

end Ifupdown
