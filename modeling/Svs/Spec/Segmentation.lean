import Svs.Spec.PublishPaths

/-!
# The segments of a large value

## Key results

- `segmentsExactly_iff`: the segments are a minimal cover of the value just when its size
  is no multiple of `MAX_DATA_SIZE`
-/

namespace Svs.Publisher

variable (cfg : PublisherConfig) (m : Moment) (now : UInt64) (name : Name) (value : List UInt8)
  (nodePrefix : Name) (mappingBlocks : List Block) (s : Publisher)

/-- `name::Component::fromSegment`. -/
def segmentComponent (i : Nat) : Component := ⟨50, Codec.integerBytes (.ofNat i)⟩

/-- The packet in which a segment is stored. -/
def outer (nid : NodeID) (seqNo : SeqNo) (i : Nat) (inner : Data) : Data where
  name := PubSub.getSegmentName cfg.syncPrefix ⟨nid, seqNo⟩ (.ofNat i)
  contentType := tlv.Data
  content := cfg.wireEncode inner
  finalBlock := inner.finalBlock

/-- The packets are as few as the value needs, none is empty or too large, and together
    they hold the value in order. -/
structure Covers (inner : List Data) : Prop where
  length : inner.length = value.length ⌈/⌉ MAX_DATA_SIZE
  contents : inner.flatMap Data.content = value
  sizes : ∀ d ∈ inner, 1 ≤ d.content.length ∧ d.content.length ≤ MAX_DATA_SIZE
  numbered : ∀ (i : Nat) (h : i < inner.length),
    (inner.get ⟨i, h⟩).name = ⟨name.components ++ [⟨54, [0]⟩, segmentComponent i]⟩
  finalBlock : ∀ d ∈ inner, d.finalBlock = some (segmentComponent (inner.length - 1))

/-- Just the segments are in the data store, and nothing has been advertised. -/
structure Stored (nid : NodeID) (seqNo : SeqNo) (inner : List Data) (s' : Publisher) : Prop where
  dataStore : s'.dataStore = s.dataStore ++ inner.mapIdx (outer cfg nid seqNo)
  core : s'.core = s.core

/-- `publish` takes one sequence number for a minimal cover of the value, and stores all of
    it before it advertises the number. -/
def SegmentsExactly : Prop :=
  ∃ inner, Covers name value inner ∧
    (publish cfg m now name value nodePrefix mappingBlocks s).2.dataStore =
      s.dataStore ++ inner.mapIdx (outer cfg (Core.targetNode cfg.core nodePrefix)
        (publish cfg m now name value nodePrefix mappingBlocks s).1) ∧
    .updateSeqNo (publish cfg m now name value nodePrefix mappingBlocks s).1
        (Core.targetNode cfg.core nodePrefix) ∈
      publishCalls cfg name value nodePrefix mappingBlocks s ∧
    ∀ before seq nid after,
      publishCalls cfg name value nodePrefix mappingBlocks s = before ++ .updateSeqNo seq nid :: after →
        nid = Core.targetNode cfg.core nodePrefix ∧
        seq = (publish cfg m now name value nodePrefix mappingBlocks s).1 ∧
        Stored cfg s nid seq inner (Run.state (Call.perform cfg m now) before s)

/-! ## The calls -/

/-- The packets that the loop encapsulates. -/
def segments : List Data :=
  (List.range (value.length / MAX_DATA_SIZE + 1)).map
    (segment name value (segmentComponent (value.length / MAX_DATA_SIZE)))

/-- A segment goes into the data store. -/
def insertCall (nid : NodeID) (seqNo : SeqNo) (i : Nat) (inner : Data) : Call :=
  .insertDataSegment (cfg.wireEncode inner) nid seqNo i
    (segmentComponent (value.length / MAX_DATA_SIZE)) tlv.Data

/-- The calls but for the last one. -/
def storingCalls : List Call :=
  (segments name value).mapIdx (insertCall cfg value (Core.targetNode cfg.core nodePrefix)
      (Core.nextSeqNo cfg.core nodePrefix s.core)) ++
    [.insertMapping (Core.targetNode cfg.core nodePrefix) (Core.nextSeqNo cfg.core nodePrefix s.core)
      name mappingBlocks]

theorem mapIdx_segments {β : Type} (f : Nat → Data → β) :
    (segments name value).mapIdx f =
      (List.range (value.length / MAX_DATA_SIZE + 1)).map fun i =>
        f i (segment name value (segmentComponent (value.length / MAX_DATA_SIZE)) i) := by
  apply List.ext_getElem
  · simp [segments]
  · intro i _ _
    simp [segments]

theorem publishCalls_eq : publishCalls cfg name value nodePrefix mappingBlocks s =
    storingCalls cfg name value nodePrefix mappingBlocks s ++
      [.updateSeqNo (Core.nextSeqNo cfg.core nodePrefix s.core) (Core.targetNode cfg.core nodePrefix)] := by
  rw [storingCalls, mapIdx_segments, List.append_assoc]
  rfl

/-- `publish` makes these calls. -/
theorem publish_eq_calls (h : MAX_DATA_SIZE < value.length) :
    publish cfg m now name value nodePrefix mappingBlocks s =
      (Core.nextSeqNo cfg.core nodePrefix s.core,
        Run.state (Call.perform cfg m now) (publishCalls cfg name value nodePrefix mappingBlocks s) s) := by
  rw [publish, if_pos h, publishCalls, Run.state_append]
  simp only [Run.state, List.foldl_map]
  rfl

/-- The stored packets have the FinalBlockId of the segments. -/
theorem outer_segment (nid : NodeID) (seqNo : SeqNo) {i : Nat} {inner : Data}
    (h : inner.finalBlock = some (segmentComponent (value.length / MAX_DATA_SIZE))) (s' : Publisher) :
    Call.perform cfg m now (insertCall cfg value nid seqNo i inner) s' =
      { s' with dataStore := s'.dataStore ++ [outer cfg nid seqNo i inner] } := by
  rw [outer, h]
  rfl

/-- What the loop does to the state. -/
theorem state_insertCalls (nid : NodeID) (seqNo : SeqNo) (inner : List Data)
    (h : ∀ d ∈ inner, d.finalBlock = some (segmentComponent (value.length / MAX_DATA_SIZE))) (start : Nat) :
    Run.state (Call.perform cfg m now)
        (inner.mapIdx fun i => insertCall cfg value nid seqNo (start + i)) s =
      { s with dataStore :=
          s.dataStore ++ inner.mapIdx fun i => outer cfg nid seqNo (start + i) } := by
  induction inner generalizing s start with
  | nil => simp
  | cons d inner ih =>
    have hd := outer_segment cfg m now value nid seqNo (i := start + 0) (h d List.mem_cons_self) s
    have hrest := ih (s := { s with dataStore := s.dataStore ++ [outer cfg nid seqNo (start + 0) d] })
      (fun d hd => h d (List.mem_cons_of_mem _ hd)) (start + 1)
    simp only [Nat.add_assoc, Nat.add_comm 1] at hrest
    rw [List.mapIdx_cons, List.mapIdx_cons, Run.state_cons, hd, hrest, List.append_assoc,
      List.singleton_append]

theorem finalBlock_segments : ∀ d ∈ segments name value,
    d.finalBlock = some (segmentComponent (value.length / MAX_DATA_SIZE)) := by
  intro d hd
  obtain ⟨i, -, rfl⟩ := List.mem_map.mp hd
  rfl

/-- The state before `updateSeqNo`. -/
theorem state_storingCalls :
    Run.state (Call.perform cfg m now) (storingCalls cfg name value nodePrefix mappingBlocks s) s =
      { s with
        dataStore := s.dataStore ++ (segments name value).mapIdx
          (outer cfg (Core.targetNode cfg.core nodePrefix) (Core.nextSeqNo cfg.core nodePrefix s.core))
        pubSub := s.pubSub.insertMapping cfg.pubSub now (Core.targetNode cfg.core nodePrefix)
          (Core.nextSeqNo cfg.core nodePrefix s.core) name mappingBlocks } := by
  have hloop := state_insertCalls cfg m now value s (Core.targetNode cfg.core nodePrefix)
    (Core.nextSeqNo cfg.core nodePrefix s.core) _ (finalBlock_segments name value) 0
  simp only [Nat.zero_add] at hloop
  rw [storingCalls, Run.state_append, hloop]
  rfl

/-! ## The cover -/

theorem content_segment (finalBlock : Component) (i : Nat) :
    (segment name value finalBlock i).content = (value.drop (i * MAX_DATA_SIZE)).take MAX_DATA_SIZE := by
  rw [List.take_eq_take_min, List.length_drop, Nat.min_comm]
  rfl

/-- The first `k` segments hold the first `k * MAX_DATA_SIZE` bytes. -/
theorem flatMap_content_range (finalBlock : Component) (k : Nat) :
    ((List.range k).map (segment name value finalBlock)).flatMap Data.content =
      value.take (k * MAX_DATA_SIZE) := by
  induction k with
  | zero => simp
  | succ k ih =>
    rw [List.range_succ, List.map_append, List.flatMap_append, ih, List.map_singleton,
      List.flatMap_singleton, content_segment, Nat.add_mul, Nat.one_mul, List.take_add]

/-- Past the multiples of the segment size below it, a size has less than a segment left. -/
theorem contents_segments : (segments name value).flatMap Data.content = value := by
  rw [segments, flatMap_content_range, List.take_of_length_le]
  exact (Nat.lt_mul_of_div_lt (Nat.lt_succ_self _) (by decide)).le

/-- One segment more than the quotient is the quotient rounded up, where it is not exact. -/
theorem ceilDiv_of_not_dvd (h : ¬MAX_DATA_SIZE ∣ value.length) :
    value.length ⌈/⌉ MAX_DATA_SIZE = value.length / MAX_DATA_SIZE + 1 := by
  rw [Nat.ceilDiv_eq_add_pred_div]
  simp only [MAX_DATA_SIZE] at h ⊢
  omega

theorem ceilDiv_of_dvd (h : MAX_DATA_SIZE ∣ value.length) :
    value.length ⌈/⌉ MAX_DATA_SIZE = value.length / MAX_DATA_SIZE := by
  rw [Nat.ceilDiv_eq_add_pred_div]
  simp only [MAX_DATA_SIZE] at h ⊢
  omega

theorem length_segments : (segments name value).length = value.length / MAX_DATA_SIZE + 1 := by
  rw [segments, List.length_map, List.length_range]

/-- The segments cover the value, where the size is no multiple. -/
theorem covers_segments (h : ¬MAX_DATA_SIZE ∣ value.length) : Covers name value (segments name value) where
  length := by rw [length_segments, ceilDiv_of_not_dvd value h]
  contents := contents_segments name value
  sizes := by
    intro d hd
    obtain ⟨i, hi, rfl⟩ := List.mem_map.mp hd
    rw [List.mem_range] at hi
    rw [content_segment, List.length_take, List.length_drop]
    -- only the last segment could be empty, and it is not
    have hlt : i * MAX_DATA_SIZE < value.length := by
      simp only [MAX_DATA_SIZE] at h hi ⊢
      omega
    have hpos : 0 < MAX_DATA_SIZE := by decide
    omega
  numbered := by
    intro i hi
    simp [segments, segment, segmentComponent]
  finalBlock := by
    rw [length_segments, Nat.add_sub_cancel]
    exact finalBlock_segments name value

theorem updateSeqNo_notMem (seq : SeqNo) (nid : NodeID) :
    .updateSeqNo seq nid ∉ storingCalls cfg name value nodePrefix mappingBlocks s := by
  rw [storingCalls, mapIdx_segments]
  simp [insertCall]

/-- The only call that advertises is the last one. -/
theorem before_updateSeqNo {before after : List Call} {seq : SeqNo} {nid : NodeID}
    (h : publishCalls cfg name value nodePrefix mappingBlocks s = before ++ .updateSeqNo seq nid :: after) :
    before = storingCalls cfg name value nodePrefix mappingBlocks s ∧
      seq = Core.nextSeqNo cfg.core nodePrefix s.core ∧ nid = Core.targetNode cfg.core nodePrefix := by
  rw [publishCalls_eq, List.append_eq_append_iff] at h
  obtain ⟨between, hbefore, hlast⟩ | ⟨between, hstoring, hlast⟩ := h
  · obtain ⟨rfl, hlast⟩ | ⟨-, hnil⟩ := List.singleton_eq_append_iff.mp hlast
    · obtain ⟨hcall, -⟩ := List.cons_eq_cons.mp hlast
      obtain ⟨rfl, rfl⟩ := Call.updateSeqNo.inj hcall
      exact ⟨by rw [hbefore, List.append_nil], rfl, rfl⟩
    · exact absurd hnil (List.cons_ne_nil _ _)
  · cases between with
    | nil =>
      obtain ⟨hcall, -⟩ := List.cons_eq_cons.mp hlast
      obtain ⟨rfl, rfl⟩ := Call.updateSeqNo.inj hcall
      exact ⟨by rw [hstoring, List.append_nil], rfl, rfl⟩
    | cons call between =>
      obtain ⟨rfl, -⟩ := List.cons_eq_cons.mp hlast
      refine absurd ?_ (updateSeqNo_notMem cfg name value nodePrefix mappingBlocks s seq nid)
      rw [hstoring]
      exact List.mem_append_right _ List.mem_cons_self

/-- What is in the data store after a call of `publish` for a large value. -/
theorem dataStore_publish (h : MAX_DATA_SIZE < value.length) :
    (publish cfg m now name value nodePrefix mappingBlocks s).1 = Core.nextSeqNo cfg.core nodePrefix s.core ∧
      (publish cfg m now name value nodePrefix mappingBlocks s).2.dataStore =
        s.dataStore ++ (segments name value).mapIdx
          (outer cfg (Core.targetNode cfg.core nodePrefix) (Core.nextSeqNo cfg.core nodePrefix s.core)) := by
  rw [publish_eq_calls cfg m now name value nodePrefix mappingBlocks s h, publishCalls_eq,
    Run.state_append, state_storingCalls]
  exact ⟨rfl, rfl⟩

/-- A size that is a multiple gives one packet too many. -/
theorem not_segmentsExactly_of_dvd (h : MAX_DATA_SIZE < value.length) (hdvd : MAX_DATA_SIZE ∣ value.length) :
    ¬SegmentsExactly cfg m now name value nodePrefix mappingBlocks s := by
  rintro ⟨inner, hcovers, hstore, -⟩
  obtain ⟨-, hstore'⟩ := dataStore_publish cfg m now name value nodePrefix mappingBlocks s h
  have hlength := congrArg List.length (List.append_cancel_left (hstore.symm.trans hstore'))
  rw [List.length_mapIdx, List.length_mapIdx, hcovers.length, length_segments,
    ceilDiv_of_dvd value hdvd] at hlength
  exact Nat.ne_of_lt (Nat.lt_succ_self _) hlength

/-- For a value that is larger than a packet, the segments are exact just when the size is no
    multiple of `MAX_DATA_SIZE`. -/
theorem segmentsExactly_iff (h : MAX_DATA_SIZE < value.length) :
    SegmentsExactly cfg m now name value nodePrefix mappingBlocks s ↔
      ¬MAX_DATA_SIZE ∣ value.length := by
  constructor
  · intro hexact hdvd
    exact not_segmentsExactly_of_dvd cfg m now name value nodePrefix mappingBlocks s h hdvd hexact
  · intro hdvd
    obtain ⟨hseq, hstore⟩ := dataStore_publish cfg m now name value nodePrefix mappingBlocks s h
    refine ⟨segments name value, covers_segments name value hdvd, ?_, ?_, ?_⟩
    · rw [hseq, hstore]
    · rw [hseq, publishCalls_eq]
      exact List.mem_append_right _ List.mem_cons_self
    · intro before seq nid after hcalls
      obtain ⟨rfl, rfl, rfl⟩ := before_updateSeqNo cfg name value nodePrefix mappingBlocks s hcalls
      rw [state_storingCalls]
      exact ⟨rfl, hseq.symm, rfl, rfl⟩

/-- A node of the group `/g`, whose packets are their contents. -/
def group : PublisherConfig := ⟨{}, ⟨{}, {}, fun _ => none⟩, .ofBytes [[103]], Data.content⟩

def newPublisher : Publisher := ⟨Core.init {} 0, { subscriptionCount := 0 }, [], []⟩

/-- A value of 8001 bytes is cut into segments of 8000 bytes and of one byte. -/
theorem segmentsExactly_more :
    SegmentsExactly group (.atMs 1) 0 (.ofBytes [[98]]) (List.replicate 8001 0) (.ofBytes [[97]]) []
      newPublisher := by
  have hlength : (List.replicate 8001 (0 : UInt8)).length = 8001 := List.length_replicate
  apply (segmentsExactly_iff group (.atMs 1) 0 (.ofBytes [[98]]) (List.replicate 8001 0)
    (.ofBytes [[97]]) [] newPublisher (by rw [hlength]; decide)).mpr
  rw [hlength]
  decide

/-- A value of 16000 bytes gets a third segment, with nothing in it. -/
theorem not_segmentsExactly : ¬∀ cfg m now name value nodePrefix mappingBlocks s,
    MAX_DATA_SIZE < value.length →
      SegmentsExactly cfg m now name value nodePrefix mappingBlocks s := by
  intro h
  have hlength : (List.replicate 16000 (0 : UInt8)).length = 16000 := List.length_replicate
  have hlarge : MAX_DATA_SIZE < (List.replicate 16000 (0 : UInt8)).length := by
    rw [hlength]
    decide
  have hdvd : MAX_DATA_SIZE ∣ (List.replicate 16000 (0 : UInt8)).length := by
    rw [hlength]
    decide
  exact not_segmentsExactly_of_dvd group (.atMs 1) 0 (.ofBytes [[98]]) _ (.ofBytes [[97]]) []
    newPublisher hlarge hdvd (h group (.atMs 1) 0 _ _ _ _ _ hlarge)

end Svs.Publisher
