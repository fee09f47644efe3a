import Svs.ForStd.List
import Svs.Native.Receive
import Svs.Spec.StepCorrect

/-!
# Malformed Sync Interests

The decoder walks the entries of the state vector and stops at the first one it
cannot read.  What it throws there decides what becomes of the Interest: the handler
catches `ndn::tlv::Error`, and nothing else.

## Key results

- `decodeEntry_ok_iff`, `decodeEntry_outOfRange_iff`: what one entry decodes to
- `handle_parsed`: how the handler ends, by what the decoder returns
- `harmless_iff`: the inputs on which the handler lets nothing escape and leaves the
  state alone when there is no well-formed state vector
-/

namespace Svs

open VersionVector

/-! ## The packet format of a state vector -/

section

variable (codec : Codec)

/-- A well-formed `StateVectorEntry`: a name, then a `SeqNo` with an integer. -/
def WellFormedEntry (entry : Block) : Prop :=
  entry.type = tlv.StateVectorEntry ∧ ∃ name seqNo, codec.elements entry.value = some [name, seqNo] ∧
    (codec.decodeName name).isSome ∧ seqNo.type = tlv.SeqNo ∧
    (codec.readNonNegativeInteger seqNo).isSome

/-- A well-formed `StateVector`: a sequence of well-formed entries. -/
def WellFormedStateVector (sv : Block) : Prop :=
  sv.type = tlv.StateVector ∧
    ∃ entries, codec.elements sv.value = some entries ∧ ∀ e ∈ entries, WellFormedEntry codec e

/-- The parameters contain a well-formed `StateVector`. -/
def ContainsStateVector (bytes : List UInt8) : Prop :=
  ∃ params, codec.elements bytes = some params ∧ ∃ sv ∈ params, WellFormedStateVector codec sv

/-! ## What the decoder makes of an entry -/

/-- The entry begins with a name and an element that holds an integer, whatever the type
    of that element and whatever follows it. -/
def ReadableEntry (entry : Block) : Prop :=
  entry.type = tlv.StateVectorEntry ∧ ∃ name seqNo rest,
    codec.elements entry.value = some (name :: seqNo :: rest) ∧
    (codec.decodeName name).isSome ∧ (codec.readNonNegativeInteger seqNo).isSome

/-- The entry is empty, or a name alone. -/
def ShortEntry (entry : Block) : Prop :=
  entry.type = tlv.StateVectorEntry ∧ (codec.elements entry.value = some [] ∨
    ∃ name, codec.elements entry.value = some [name] ∧ (codec.decodeName name).isSome)

/-- The blocks in the first `StateVector` of the parameters, if there is one and both the
    parameters and its value can be parsed. -/
def stateVectorEntries (bytes : List UInt8) : Option (List Block) := do
  let params ← codec.elements bytes
  let sv ← params.find? (·.type = tlv.StateVector)
  codec.elements sv.value

end

variable {codec : Codec}

theorem WellFormedEntry.readable {entry : Block} (h : WellFormedEntry codec entry) :
    ReadableEntry codec entry := by
  obtain ⟨htype, name, seqNo, helems, hname, -, hseq⟩ := h
  exact ⟨htype, name, seqNo, [], helems, hname, hseq⟩

/-- An entry of another type, or one that cannot be parsed, is a `tlv::Error`. -/
theorem decodeEntry_unparsable {entry : Block}
    (h : entry.type ≠ tlv.StateVectorEntry ∨ codec.elements entry.value = none) :
    decodeEntry codec entry = .error .tlvError := by
  unfold decodeEntry
  by_cases htype : entry.type = tlv.StateVectorEntry
  · have helems := h.resolve_left (not_not_intro htype)
    simp [htype, helems, bind, Except.bind]
  · simp [htype, bind, Except.bind, throw, throwThe, MonadExceptOf.throw]

/-- What the elements of an entry decode to. -/
def decodeElements (codec : Codec) : List Block → Decoded (NodeID × SeqNo)
  | [] => .error .outOfRange
  | name :: rest =>
    match codec.decodeName name, rest with
    | none, _ => .error .tlvError
    | some _, [] => .error .outOfRange
    | some nodeId, seqNo :: _ =>
      match codec.readNonNegativeInteger seqNo with
      | none => .error .tlvError
      | some s => .ok (nodeId, s)

theorem decodeEntry_parsed {entry : Block} {elements : List Block}
    (htype : entry.type = tlv.StateVectorEntry)
    (helems : codec.elements entry.value = some elements) :
    decodeEntry codec entry = decodeElements codec elements := by
  simp only [decodeEntry, htype, helems, ne_eq, not_true_eq_false, if_false, orTlvError_some, bind,
    Except.bind, pure, Except.pure]
  -- the name is read before the second element is asked for
  cases elements with
  | nil => rfl
  | cons name rest =>
    simp only [decodeElements, elementAt_cons_zero, elementAt_cons_succ]
    cases codec.decodeName name with
    | none => rfl
    | some nodeId =>
      cases rest with
      | nil => rfl
      | cons seqNo rest =>
        simp only [orTlvError_some, elementAt_cons_zero]
        cases codec.readNonNegativeInteger seqNo <;> rfl

theorem decodeElements_ok_iff (elements : List Block) :
    (∃ p, decodeElements codec elements = .ok p) ↔ ∃ name seqNo rest,
      elements = name :: seqNo :: rest ∧ (codec.decodeName name).isSome ∧
      (codec.readNonNegativeInteger seqNo).isSome := by
  fun_cases decodeElements codec elements with
  | case1 => simp
  | case2 name rest hname => simp [hname]
  | case3 name nodeId hname => simp
  | case4 name nodeId seqNo rest hname hseq => simp [hseq]
  | case5 name nodeId seqNo rest hname s hseq => simp [hname, hseq]

theorem decodeElements_outOfRange_iff (elements : List Block) :
    decodeElements codec elements = .error .outOfRange ↔
      elements = [] ∨ ∃ name, elements = [name] ∧ (codec.decodeName name).isSome := by
  fun_cases decodeElements codec elements with
  | case1 => simp
  | case2 name rest hname => simp [hname]
  | case3 name nodeId hname => simp [hname]
  | case4 name nodeId seqNo rest hname hseq => simp
  | case5 name nodeId seqNo rest hname s hseq => simp

/-- The decoder accepts the readable entries. -/
theorem decodeEntry_ok_iff (entry : Block) :
    (∃ p, decodeEntry codec entry = .ok p) ↔ ReadableEntry codec entry := by
  by_cases htype : entry.type = tlv.StateVectorEntry
  · cases helems : codec.elements entry.value with
    | none => simp [decodeEntry_unparsable (.inr helems), ReadableEntry, helems]
    | some elements =>
      rw [decodeEntry_parsed htype helems, decodeElements_ok_iff, ReadableEntry, helems]
      simp [htype]
  · simp [decodeEntry_unparsable (.inl htype), ReadableEntry, htype]

/-- The decoder runs out of elements on the short entries. -/
theorem decodeEntry_outOfRange_iff (entry : Block) :
    decodeEntry codec entry = .error .outOfRange ↔ ShortEntry codec entry := by
  by_cases htype : entry.type = tlv.StateVectorEntry
  · cases helems : codec.elements entry.value with
    | none => simp [decodeEntry_unparsable (.inr helems), ShortEntry, helems]
    | some elements =>
      rw [decodeEntry_parsed htype helems, decodeElements_outOfRange_iff, ShortEntry, helems]
      simp [htype]
  · simp [decodeEntry_unparsable (.inl htype), ShortEntry, htype]

/-! ## The whole vector -/

/-- Add a decoded entry to a vector. -/
def insertEntry (vv : VersionVector) (p : NodeID × SeqNo) : VersionVector :=
  { vv with map := vv.map.insert p.1 p.2 }

theorem decodeElement_eq (codec : Codec) :
    decodeElement codec = fun vv entry => insertEntry vv <$> decodeEntry codec entry := by
  funext vv entry
  unfold decodeElement
  cases decodeEntry codec entry <;> rfl

/-- The first entry that cannot be read is a short one. -/
def ReachesShortEntry (codec : Codec) (entries : List Block) : Prop :=
  ∃ read entry rest, entries = read ++ entry :: rest ∧
    (∀ x ∈ read, ReadableEntry codec x) ∧ ShortEntry codec entry

theorem foldlM_decodeElement_ok_iff (entries : List Block) (vv : VersionVector) :
    (∃ vv', entries.foldlM (decodeElement codec) vv = .ok vv') ↔
      ∀ e ∈ entries, ReadableEntry codec e := by
  simp only [decodeElement_eq, List.foldlM_eq_ok_iff, decodeEntry_ok_iff]

theorem foldlM_decodeElement_outOfRange_iff (entries : List Block) (vv : VersionVector) :
    entries.foldlM (decodeElement codec) vv = .error .outOfRange ↔
      ReachesShortEntry codec entries := by
  simp only [decodeElement_eq, List.foldlM_eq_error_iff, decodeEntry_ok_iff,
    decodeEntry_outOfRange_iff, ReachesShortEntry]

/-- Decoding the state vector is walking its entries. -/
theorem decodeStateVector_eq {bytes : List UInt8} {params : List Block}
    (hparams : codec.elements bytes = some params) :
    Receiver.decodeStateVector codec params =
      match stateVectorEntries codec bytes with
      | none => .error .tlvError
      | some entries => entries.foldlM (decodeElement codec) empty := by
  simp only [stateVectorEntries, hparams, Option.bind_eq_bind, Option.bind_some]
  unfold Receiver.decodeStateVector getElement
  cases hfind : params.find? (·.type = tlv.StateVector) with
  | none => rfl
  | some sv =>
    have htype : sv.type = tlv.StateVector := by simpa using List.find?_some hfind
    simp only [orTlvError_some, Option.bind_some, bind, Except.bind, decode, htype, ne_eq,
      not_true_eq_false, if_false]
    cases codec.elements sv.value <;> rfl

/-! ## The handler -/

/-- The decoder accepts the first `StateVector` of the parameters. -/
def AcceptsStateVector (codec : Codec) (bytes : List UInt8) : Prop :=
  ∃ entries, stateVectorEntries codec bytes = some entries ∧
    ∀ e ∈ entries, ReadableEntry codec e

/-- What is claimed to stay as it was: the vectors, the pending timer, the feedback
    queue and the mapping store. -/
structure Untouched (r r' : Receiver) : Prop where
  vv : r'.core.vv = r.core.vv
  recordedVv : r'.core.recordedVv = r.core.recordedVv
  retxEvent : r'.core.retxEvent = r.core.retxEvent
  nextSyncInterest : r'.core.nextSyncInterest = r.core.nextSyncInterest
  pendingFeedbackSeqs : r'.core.pendingFeedbackSeqs = r.core.pendingFeedbackSeqs
  mappings : r'.mappings = r.mappings

theorem Untouched.refl (r : Receiver) : Untouched r r := ⟨rfl, rfl, rfl, rfl, rfl, rfl⟩

variable {P : Platform} {cfg : Config} {callback : Option RecvExtraBlockCallback} {m : Moment}
  {bytes : List UInt8}

open Receiver in
/-- How the handler ends, by what the decoder returns. -/
theorem handle_parsed {params : List Block} (hparams : codec.elements bytes = some params)
    (face : Option UInt64) (r : Receiver) :
    onSyncInterestValidated codec P cfg callback m ⟨some bytes, face⟩ r =
      match decodeStateVector codec params with
      | .error .tlvError => { receiver := r }
      | .error .outOfRange => { receiver := r, escaped := some .outOfRange }
      | .ok vvOther =>
        { receiver :=
            { core := (Core.processVector P cfg m vvOther (face.getD 0) r.core).1
              mappings := recvExtraBlock callback params vvOther r.mappings }
          effects := (Core.processVector P cfg m vvOther (face.getD 0) r.core).2 } := by
  simp only [onSyncInterestValidated, hparams, orTlvError_some]
  cases decodeStateVector codec params with
  | ok vvOther => rfl
  | error e => cases e <;> rfl

theorem handle_unparsed (hparams : codec.elements bytes = none) (face : Option UInt64)
    (r : Receiver) :
    r.onSyncInterestValidated codec P cfg callback m ⟨some bytes, face⟩ =
      { receiver := r, escaped := some .tlvError } := by
  simp only [Receiver.onSyncInterestValidated, hparams, orTlvError_none]

/-- An exception escapes exactly where the parameters cannot be parsed, or the decoder
    reaches a short entry. -/
theorem escaped_eq_none_iff (face : Option UInt64) (r : Receiver) :
    (r.onSyncInterestValidated codec P cfg callback m ⟨some bytes, face⟩).escaped = none ↔
      (codec.elements bytes).isSome ∧
        ∀ entries, stateVectorEntries codec bytes = some entries →
          ¬ReachesShortEntry codec entries := by
  cases hparams : codec.elements bytes with
  | none => simp [handle_unparsed hparams]
  | some params =>
    rw [handle_parsed hparams, decodeStateVector_eq hparams]
    cases hentries : stateVectorEntries codec bytes with
    | none => simp
    | some entries =>
      have hshort : entries.foldlM (decodeElement codec) empty = .error .outOfRange ↔
          ReachesShortEntry codec entries := foldlM_decodeElement_outOfRange_iff entries empty
      simp only [Option.isSome_some, true_and, Option.some.injEq, forall_eq', ← hshort]
      cases entries.foldlM (decodeElement codec) empty with
      | ok vvOther => simp
      | error e => cases e <;> simp

/-- Where the decoder does not accept the state vector, nothing changes. -/
theorem receiver_of_not_accepts (h : ¬AcceptsStateVector codec bytes) (face : Option UInt64)
    (r : Receiver) :
    (r.onSyncInterestValidated codec P cfg callback m ⟨some bytes, face⟩).receiver = r := by
  cases hparams : codec.elements bytes with
  | none => rw [handle_unparsed hparams]
  | some params =>
    rw [handle_parsed hparams, decodeStateVector_eq hparams]
    cases hentries : stateVectorEntries codec bytes with
    | none => rfl
    | some entries =>
      cases hfold : entries.foldlM (decodeElement codec) empty with
      | ok vvOther =>
        have hread := (foldlM_decodeElement_ok_iff entries empty).mp ⟨vvOther, hfold⟩
        exact absurd ⟨entries, hentries, hread⟩ h
      | error e => cases e <;> simp only [hfold]

/-- Where it accepts one, that vector is processed. -/
theorem core_of_accepts (h : AcceptsStateVector codec bytes) (face : Option UInt64)
    (r : Receiver) :
    ∃ vvOther, (r.onSyncInterestValidated codec P cfg callback m ⟨some bytes, face⟩).receiver.core =
      (Core.processVector P cfg m vvOther (face.getD 0) r.core).1 := by
  obtain ⟨entries, hentries, hread⟩ := h
  obtain ⟨vvOther, hfold⟩ := (foldlM_decodeElement_ok_iff entries empty).mpr hread
  cases hparams : codec.elements bytes with
  | none => simp [stateVectorEntries, hparams] at hentries
  | some params =>
    refine ⟨vvOther, ?_⟩
    rw [handle_parsed hparams, decodeStateVector_eq hparams, hentries]
    simp only [hfold]

/-- In steady state with no event pending, a received vector arms the timer or starts a
    suppression period. -/
theorem not_untouched_processVector (vvOther : VersionVector) (face : UInt64) {c : Core}
    (hrec : c.recordedVv = none) (hretx : c.retxEvent = none) :
    (Core.processVector P cfg m vvOther face c).1.recordedVv ≠ c.recordedVv ∨
      (Core.processVector P cfg m vvOther face c).1.retxEvent ≠ c.retxEvent := by
  rw [Core.processVector_recordedVv, Core.processVector_of_none P cfg m vvOther face hrec, hrec,
    hretx]
  cases (Core.receiveResult cfg m vvOther c).myVectorNew with
  | true => exact .inl nofun
  | false => exact .inr nofun

/-! ## Harmless inputs -/

/-- Whatever the state, the handler lets no exception escape, and leaves the state alone
    if the parameters contain no well-formed state vector. -/
def Harmless (codec : Codec) (P : Platform) (cfg : Config)
    (callback : Option RecvExtraBlockCallback) (m : Moment) (bytes : List UInt8) : Prop :=
  ∀ (face : Option UInt64) (r : Receiver),
    let outcome := r.onSyncInterestValidated codec P cfg callback m ⟨some bytes, face⟩
    outcome.escaped = none ∧
      (¬ContainsStateVector codec bytes → Untouched r outcome.receiver)

/-- The parameters can be parsed; in the first `StateVector` whose value can be parsed,
    the first entry that cannot be read is not a short one; and if all of its entries can
    be read, the parameters contain a well-formed state vector. -/
structure ReadsCleanly (codec : Codec) (bytes : List UInt8) : Prop where
  parsed : (codec.elements bytes).isSome
  not_short : ∀ entries, stateVectorEntries codec bytes = some entries →
    ¬ReachesShortEntry codec entries
  strict : AcceptsStateVector codec bytes → ContainsStateVector codec bytes

/-- A readable entry is not a short one. -/
theorem not_reachesShortEntry {entries : List Block}
    (h : ∀ e ∈ entries, ReadableEntry codec e) : ¬ReachesShortEntry codec entries := by
  intro hshort
  obtain ⟨vv, hok⟩ := (foldlM_decodeElement_ok_iff entries empty).mpr h
  rw [(foldlM_decodeElement_outOfRange_iff entries empty).mpr hshort] at hok
  cases hok

/-- An Interest whose first `StateVector` is well-formed reads cleanly. -/
theorem readsCleanly_of_wellFormed {params : List Block} {sv : Block}
    (hparams : codec.elements bytes = some params)
    (hsv : params.find? (·.type = tlv.StateVector) = some sv)
    (h : WellFormedStateVector codec sv) : ReadsCleanly codec bytes := by
  obtain ⟨entries, helems, hentries⟩ := h.2
  have hread : ∀ e ∈ entries, ReadableEntry codec e := fun e he => (hentries e he).readable
  have hdecoded : stateVectorEntries codec bytes = some entries := by
    simp [stateVectorEntries, hparams, hsv, helems]
  constructor
  case parsed => rw [hparams, Option.isSome_some]
  case not_short =>
    intro entries' hentries'
    rw [hdecoded, Option.some.injEq] at hentries'
    subst hentries'
    exact not_reachesShortEntry hread
  case strict =>
    intro _
    exact ⟨params, hparams, sv, List.mem_of_find?_eq_some hsv, h⟩

/-- The handler is harmless exactly on the inputs that read cleanly. -/
theorem harmless_iff (codec : Codec) (P : Platform) (cfg : Config)
    (callback : Option RecvExtraBlockCallback) (m : Moment) (bytes : List UInt8) :
    Harmless codec P cfg callback m bytes ↔ ReadsCleanly codec bytes := by
  constructor
  · intro h
    -- a node that was just set up is in steady state and has no event pending
    let fresh : Receiver := { core := Core.init cfg 0, mappings := ∅ }
    obtain ⟨-, hrec, hretx, -⟩ := Core.init_frame cfg 0
    obtain ⟨hescaped, huntouched⟩ := h none fresh
    obtain ⟨hparsed, hshort⟩ := (escaped_eq_none_iff none fresh).mp hescaped
    refine ⟨hparsed, hshort, fun haccepts => ?_⟩
    by_contra hcontains
    -- the vector is processed, but should have left this node alone
    obtain ⟨vvOther, hcore⟩ := core_of_accepts haccepts none fresh
    have hsame := huntouched hcontains
    rcases not_untouched_processVector vvOther 0 hrec hretx with hne | hne
    · exact hne ((congrArg Core.recordedVv hcore).symm.trans hsame.recordedVv)
    · exact hne ((congrArg Core.retxEvent hcore).symm.trans hsame.retxEvent)
  · intro h face r
    constructor
    · exact (escaped_eq_none_iff face r).mpr ⟨h.parsed, h.not_short⟩
    · intro hcontains
      rw [receiver_of_not_accepts (mt h.strict hcontains)]
      exact .refl r

/-- A state vector with one empty entry lets `std::out_of_range` escape. -/
theorem not_harmless :
    ¬∀ (codec : Codec) (P : Platform) (cfg : Config) (callback : Option RecvExtraBlockCallback)
      (m : Moment) (bytes : List UInt8), Harmless codec P cfg callback m bytes := by
  intro h
  have hescaped := (h .packetFormat .plain {} (some (Receiver.pubSubCallback .packetFormat)) (.atMs 0)
    [201, 2, 202, 0] none { core := Core.init {} 0, mappings := ∅ }).1
  exact absurd hescaped (by decide)

/-- A cut-off type-length pair in the parameters lets `ndn::tlv::Error` escape. -/
example : ((Receiver.mk (Core.init {} 0) ∅).onSyncInterestValidated .packetFormat .plain {} none
    (.atMs 0) ⟨some [201], none⟩).escaped = some .tlvError := by decide

end Svs
