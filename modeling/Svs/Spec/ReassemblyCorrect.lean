import Svs.ForStd.List
import Svs.Native.Reassembly
import Svs.Spec.PubSubRefines
import Svs.Spec.QueueServed

/-!
# Reassembly

## Key results

- `onComplete_reassembles`: every copy stays within the buffer, and the blob subscriptions
  get the whole value iff every element has been validated
- `onComplete_represents`: the buffer that grows in `SVSPubSub.onComplete` is the part of
  the buffer that has been written
-/

namespace Svs

open Std PubSub

/-! ## The sizes of nested blocks -/

namespace Codec

theorem length_readVarNumber {bytes rest : List UInt8} {n : Nat}
    (h : readVarNumber bytes = some (n, rest)) : rest.length ≤ bytes.length := by
  cases bytes with
  | nil => simp [readVarNumber] at h
  | cons first bytes =>
    rw [readVarNumber] at h
    split at h
    · obtain ⟨-, rfl⟩ := Prod.mk.inj (Option.some.inj h)
      simp
    · generalize (if first = 253 then 2 else if first = 254 then 4 else 8) = size at h
      dsimp only at h
      split at h
      · simp at h
      · obtain ⟨-, rfl⟩ := Prod.mk.inj (Option.some.inj h)
        simp only [List.length_drop, List.length_cons]
        omega

theorem length_readBlock {bytes rest : List UInt8} {block : Block}
    (h : readBlock bytes = some (block, rest)) : block.value.length + rest.length ≤ bytes.length := by
  simp only [readBlock, Option.bind_eq_bind, Option.bind_eq_some_iff, Prod.exists,
    Option.pure_def, Option.some.injEq, Prod.mk.injEq] at h
  obtain ⟨type, afterType, htype, -, -, length, afterLength, hlength, -, -, rfl, rfl⟩ := h
  have htype' := length_readVarNumber htype
  have hlength' := length_readVarNumber hlength
  simp only [List.length_take, List.length_drop]
  omega

/-- The values of the elements fit into the value. -/
theorem length_readBlocks {fuel : Nat} {bytes : List UInt8} {blocks : List Block}
    (h : readBlocks fuel bytes = some blocks) :
    (blocks.map (·.value.length)).sum ≤ bytes.length := by
  induction fuel generalizing bytes blocks with
  | zero =>
    cases bytes with
    | nil =>
      obtain rfl := Option.some.inj h
      simp
    | cons _ _ => simp [readBlocks] at h
  | succ fuel ih =>
    cases bytes with
    | nil =>
      obtain rfl := Option.some.inj h
      simp
    | cons b bytes =>
      simp only [readBlocks, Option.bind_eq_bind, Option.bind_eq_some_iff, Prod.exists,
        Option.pure_def, Option.some.injEq] at h
      obtain ⟨block, rest, hblock, blocks, hblocks, rfl⟩ := h
      have hfirst := length_readBlock hblock
      have hrest := ih hblocks
      simp only [List.map_cons, List.sum_cons]
      omega

end Codec

/-- What ndn-cxx says of a packet's content: it is empty, or the value of an element. -/
def ContentInside (decodeData : Block → Option Data) : Prop :=
  ∀ block innerData, decodeData block = some innerData →
    innerData.content = [] ∨ ∃ elements, Codec.packetFormat.elements block.value = some elements ∧
      ∃ element ∈ elements, innerData.content = element.value

theorem ContentInside.length_le {decodeData : Block → Option Data} (h : ContentInside decodeData)
    {block : Block} {innerData : Data} (hdecode : decodeData block = some innerData) :
    innerData.content.length ≤ block.value.length := by
  rcases h block innerData hdecode with hempty | ⟨elements, helements, element, hmem, hcontent⟩
  · simp [hempty]
  · rw [hcontent]
    calc element.value.length ≤ (elements.map (·.value.length)).sum :=
          List.single_le_sum (fun _ _ => Nat.zero_le _) _ (List.mem_map_of_mem hmem)
      _ ≤ block.value.length := Codec.length_readBlocks helements

/-- The contents of the packets fit into a buffer of the size of the packets. -/
theorem ContentInside.length_contents_le {decodeData : Block → Option Data}
    (h : ContentInside decodeData) {elements : List Block} {inner : List Data}
    (hinner : elements.mapM decodeData = some inner) :
    (inner.flatMap Data.content).length ≤ (elements.map (·.value.length)).sum := by
  induction elements generalizing inner with
  | nil =>
    obtain rfl := Option.some.inj hinner
    simp
  | cons element elements ih =>
    obtain ⟨innerData, inner, hfirst, hrest, rfl⟩ := List.exists_of_mapM_cons hinner
    have hle := h.length_le hfirst
    have hrest' := ih hrest
    simp only [List.flatMap_cons, List.length_append, List.map_cons, List.sum_cons]
    omega

/-- A callback of a subscription is called. -/
def PubSub.Effect.isCall : PubSub.Effect → Bool
  | .called _ _ => true
  | _ => false

namespace Assembly

variable {cfg : PubSubConfig} {a a' : Assembly} {s s' s'' : PubSub}
  {p : Publication} {innerName : Name} {n : Nat} {content : List UInt8} {verdicts : List Bool}

/-! ## What the closures know -/

/-- What `content` the loop has copied, and which `verdicts` the validator has given. -/
structure Holds (p : Publication) (innerName : Name) (n : Nat) (content : List UInt8)
    (verdicts : List Bool) (a : Assembly) : Prop where
  publication : a.publication = p
  innerName : a.innerName = innerName
  numElem : a.numElem = n
  written : a.finalBuffer.take a.bufSize = content
  bufSize : a.bufSize = content.length
  validated : a.numValidated = verdicts.count true
  failed : a.numFailed = verdicts.count false

theorem Holds.answered (h : Holds p innerName n content verdicts a) :
    a.numValidated + a.numFailed = verdicts.length := by
  rw [h.validated, h.failed, List.count_true_add_count_false]

/-- What the blob subscriptions are called with. -/
def blobData (p : Publication) (innerName : Name) (content : List UInt8) : SubscriptionData where
  name := innerName
  data := content
  producerPrefix := p.nodeId
  seqNo := p.seqNo
  packet := none

/-- The publication's blob subscriptions have been called with the whole content, iff all
    the elements were accepted, and it is in neither map. -/
structure Delivered (p : Publication) (innerName : Name) (content : List UInt8)
    (verdicts : List Bool) (s s' : PubSub) : Prop where
  calls : s'.log.filter Effect.isCall = s.log.filter Effect.isCall ++
    if ∀ accepted ∈ verdicts, accepted = true then
      ((s.subscribers p).filter (!·.isPacketSubscription)).map
        (.called · (blobData p innerName content))
    else []
  fetchMap : p ∉ s'.fetchMap
  fetchingMap : p ∉ s'.fetchingMap

/-- Nothing is done before all the answers are in. -/
def Progress (p : Publication) (innerName : Name) (n : Nat) (content : List UInt8)
    (verdicts : List Bool) (s s' : PubSub) : Prop :=
  (verdicts.length < n → s' = s) ∧ (verdicts.length = n → Delivered p innerName content verdicts s s')

theorem count_false_pos_iff : 0 < verdicts.count false ↔ ¬∀ accepted ∈ verdicts, accepted = true := by
  rw [List.count_pos_iff]
  constructor
  · intro hmem h
    exact Bool.false_ne_true (h false hmem)
  · intro h
    by_contra hmem
    refine h fun accepted haccepted => ?_
    cases accepted with
    | true => rfl
    | false => exact absurd haccepted hmem

/-- Shrinking the buffer to what was written keeps what was written. -/
theorem resize_bufSize (h : a.finalBuffer.take a.bufSize = content) (hsize : a.bufSize = content.length) :
    resize a.finalBuffer a.bufSize = content := by
  have hlength : a.bufSize ≤ a.finalBuffer.length := by
    rw [← h, List.length_take] at hsize
    omega
  rw [resize, h, Nat.sub_eq_zero_of_le hlength, List.replicate_zero, List.append_nil]

theorem sendFinalBuffer_pending (h : Holds p innerName n content verdicts a)
    (hlt : verdicts.length < n) : sendFinalBuffer a s = (a, s) := by
  have hne : a.numValidated + a.numFailed ≠ a.numElem := by
    rw [h.answered, h.numElem]
    exact Nat.ne_of_lt hlt
  rw [sendFinalBuffer, if_pos hne]

/-- `sendFinalBuffer` with all the answers in. -/
theorem sendFinalBuffer_complete (h : Holds p innerName n content verdicts a)
    (heq : verdicts.length = n) :
    Holds p innerName n content verdicts (sendFinalBuffer a s).1 ∧
      Delivered p innerName content verdicts s (sendFinalBuffer a s).2 := by
  have hanswered : ¬a.numValidated + a.numFailed ≠ a.numElem := by
    rw [h.answered, h.numElem, heq]
    exact not_not.mpr rfl
  have hpub := h.publication
  rw [sendFinalBuffer, if_neg hanswered]
  split
  · next hfailed =>
    rw [h.failed, count_false_pos_iff] at hfailed
    refine ⟨h, ⟨?_, by simp [cleanUpFetch, hpub], by simp [cleanUpFetch, hpub]⟩⟩
    rw [if_neg hfailed]
    simp [cleanUpFetch, Effect.isCall]
  · next hfailed =>
    rw [h.failed, count_false_pos_iff, not_not] at hfailed
    have hbuffer := resize_bufSize h.written h.bufSize
    refine ⟨{ h with written := ?_ }, ⟨?_, by simp [cleanUpFetch, hpub], by simp [cleanUpFetch, hpub]⟩⟩
    · rw [hbuffer, h.bufSize, List.take_length]
    · rw [if_pos hfailed]
      have hcalls (subs : List Subscription) (d : SubscriptionData) :
          (subs.map (Effect.called · d)).filter Effect.isCall = subs.map (Effect.called · d) :=
        List.filter_eq_self.mpr (by simp [Effect.isCall])
      simp [cleanUpFetch, callAll, hpub, h.innerName, hbuffer, hcalls, blobData,
        Effect.isCall, List.filter_append]

/-- `sendFinalBuffer` once more finds nobody in the map. -/
theorem sendFinalBuffer_again (h : Holds p innerName n content verdicts a)
    (heq : verdicts.length = n) (hd : Delivered p innerName content verdicts s s') :
    Delivered p innerName content verdicts s (sendFinalBuffer a s').2 := by
  have hagain := (sendFinalBuffer_complete (s := s') h heq).2
  have hempty : s'.subscribers p = [] := by
    rw [subscribers, ExtTreeMap.getElem?_eq_none hd.fetchMap, Option.getD_none]
  refine ⟨?_, hagain.fetchMap, hagain.fetchingMap⟩
  rw [hagain.calls, hempty, ← hd.calls]
  simp

/-! ## The answers -/

/-- An answer is counted before `sendFinalBuffer` looks at the counters. -/
def counted (a : Assembly) (accepted : Bool) : Assembly :=
  if accepted then { a with numValidated := a.numValidated + 1 }
  else { a with numFailed := a.numFailed + 1 }

@[simp] theorem finalBuffer_counted (a : Assembly) (accepted : Bool) :
    (a.counted accepted).finalBuffer = a.finalBuffer := by
  cases accepted <;> rfl

theorem answer_eq (x : Assembly × PubSub) (accepted : Bool) :
    answer x accepted = sendFinalBuffer (x.1.counted accepted) x.2 := by
  cases accepted <;> rfl

theorem Holds.counted (h : Holds p innerName n content verdicts a) (accepted : Bool) :
    Holds p innerName n content (verdicts ++ [accepted]) (a.counted accepted) := by
  obtain ⟨hp, hname, hn, hwritten, hsize, hvalidated, hfailed⟩ := h
  cases accepted with
  | true =>
    exact ⟨hp, hname, hn, hwritten, hsize, by simp [Assembly.counted, hvalidated],
      by simp [Assembly.counted, hfailed]⟩
  | false =>
    exact ⟨hp, hname, hn, hwritten, hsize, by simp [Assembly.counted, hvalidated],
      by simp [Assembly.counted, hfailed]⟩

/-- The answers that are given one after another, while the buffer has its first size. -/
theorem foldl_answer {size : Nat} (answers : List Bool) (h : Holds p innerName n content verdicts a)
    (hsize : a.finalBuffer.length = size) (hlt : verdicts.length < n)
    (hle : (verdicts ++ answers).length ≤ n) :
    ∃ a' s', answers.foldl answer (a, s) = (a', s') ∧
      Holds p innerName n content (verdicts ++ answers) a' ∧
      Progress p innerName n content (verdicts ++ answers) s s' ∧
      ((verdicts ++ answers).length < n → a'.finalBuffer.length = size) := by
  induction answers generalizing a verdicts with
  | nil =>
    rw [List.append_nil]
    exact ⟨a, s, rfl, h, ⟨fun _ => rfl, fun heq => absurd heq (Nat.ne_of_lt hlt)⟩, fun _ => hsize⟩
  | cons accepted answers ih =>
    have hcounted := h.counted accepted
    rw [List.append_cons] at hle ⊢
    rw [List.foldl_cons, answer_eq]
    rcases Nat.lt_or_ge (verdicts ++ [accepted]).length n with hpending | hlast
    · -- some answers are still missing
      rw [sendFinalBuffer_pending hcounted hpending]
      exact ih hcounted (by rwa [finalBuffer_counted]) hpending hle
    · have hlength := hle
      rw [List.length_append] at hlength
      obtain rfl : answers = [] := List.eq_nil_of_length_eq_zero (by omega)
      have heq : (verdicts ++ [accepted]).length = n := by
        rw [List.append_nil] at hle
        omega
      rw [List.append_nil]
      obtain ⟨hholds, hdelivered⟩ := sendFinalBuffer_complete (s := s) hcounted heq
      exact ⟨_, _, rfl, hholds, ⟨fun hlt => absurd heq (Nat.ne_of_lt hlt), fun _ => hdelivered⟩,
        fun hlt => absurd heq (Nat.ne_of_lt hlt)⟩

/-! ## The loop -/

theorem copy_of_le {bytes : List UInt8} (h : a.bufSize + bytes.length ≤ a.finalBuffer.length) :
    a.copy bytes = some { a with
      finalBuffer := a.finalBuffer.take a.bufSize ++ bytes ++ a.finalBuffer.drop (a.bufSize + bytes.length)
      bufSize := a.bufSize + bytes.length } := by
  rw [copy, memcpy, if_pos h]
  rfl

/-- A copy that fits is appended to what was written. -/
theorem Holds.copy (h : Holds p innerName n content verdicts a) (bytes : List UInt8)
    (hfits : content.length + bytes.length ≤ a.finalBuffer.length) :
    ∃ a', a.copy bytes = some a' ∧ Holds p innerName n (content ++ bytes) verdicts a' ∧
      a'.finalBuffer.length = a.finalBuffer.length := by
  have hfits' : a.bufSize + bytes.length ≤ a.finalBuffer.length := by rwa [h.bufSize]
  have hwritten : (a.finalBuffer.take a.bufSize ++ bytes).length = a.bufSize + bytes.length := by
    rw [List.length_append, List.length_take]
    omega
  refine ⟨_, copy_of_le hfits', { h with written := ?_, bufSize := ?_ }, ?_⟩
  · rw [List.take_left' hwritten, h.written]
  · rw [List.length_append, h.bufSize]
  · rw [List.length_append, hwritten, List.length_drop]
    omega

/-- The call of `sendFinalBuffer` after the loop. -/
theorem progress_sendFinalBuffer (h : Holds p innerName n content verdicts a) (hle : verdicts.length ≤ n)
    (hs : s' = s ∨ verdicts.length = n ∧ Delivered p innerName content verdicts s s') :
    ∃ a'' s'', sendFinalBuffer a s' = (a'', s'') ∧ Holds p innerName n content verdicts a'' ∧
      Progress p innerName n content verdicts s s'' := by
  rcases Nat.lt_or_eq_of_le hle with hlt | heq
  · have hne : ¬verdicts.length = n := Nat.ne_of_lt hlt
    rw [sendFinalBuffer_pending h hlt]
    refine ⟨a, s', rfl, h, fun _ => ?_, fun heq => absurd heq hne⟩
    exact hs.resolve_right fun hd => hne hd.1
  · obtain ⟨hholds, hcomplete⟩ := sendFinalBuffer_complete (s := s') h heq
    refine ⟨_, _, rfl, hholds, fun hlt => absurd heq (Nat.ne_of_lt hlt), fun _ => ?_⟩
    rcases hs with rfl | ⟨-, hd⟩
    · exact hcomplete
    · exact sendFinalBuffer_again h heq hd

/-- The loop, where a validator is called. -/
theorem validateElements_validator (hvalidator : cfg.securityOptions.hasEncapsulatedDataValidator = true)
    {elements : List Block} {inner : List Data} {calls : List (List Bool)}
    (hinner : elements.mapM cfg.decodeData = some inner) (hlength : calls.length = elements.length)
    (htimely : ∀ i ≤ calls.length,
      verdicts.length + (calls.take i).flatten.length + elements.length ≤ n + i)
    (h : Holds p innerName n content verdicts a)
    (hfits : elements ≠ [] →
      content.length + (inner.flatMap Data.content).length ≤ a.finalBuffer.length)
    (hs : s' = s ∨ elements = [] ∧ verdicts.length = n ∧ Delivered p innerName content verdicts s s') :
    ∃ a₁ s₁, validateElements cfg elements calls (a, s') = some (a₁, s₁) ∧
      Holds p innerName n (content ++ inner.flatMap Data.content) (verdicts ++ calls.flatten) a₁ ∧
      Progress p innerName n (content ++ inner.flatMap Data.content) (verdicts ++ calls.flatten) s s₁ := by
  induction elements generalizing inner calls a s' content verdicts with
  | nil =>
    obtain rfl : inner = [] := (Option.some.inj hinner).symm
    obtain rfl := List.eq_nil_of_length_eq_zero hlength
    obtain ⟨a₁, s₁, heq, hholds, hprogress⟩ := progress_sendFinalBuffer h
      (by simpa using htimely 0 (Nat.zero_le _)) (hs.imp_right And.right)
    simp only [List.flatMap_nil, List.flatten_nil, List.append_nil]
    exact ⟨a₁, s₁, by rw [validateElements, heq], hholds, hprogress⟩
  | cons element elements ih =>
    obtain rfl : s' = s := hs.resolve_right fun hd => List.cons_ne_nil _ _ hd.1
    obtain ⟨innerData, inner, hdecode, hrest, rfl⟩ := List.exists_of_mapM_cons hinner
    obtain ⟨answers, calls, rfl⟩ := List.exists_cons_of_length_eq_add_one hlength
    have hfits := hfits (List.cons_ne_nil _ _)
    rw [List.flatMap_cons, List.length_append] at hfits
    obtain ⟨a₁, hcopy, hholds, hsize⟩ := h.copy innerData.content (by omega)
    -- not all answers can be in before this call, nor more than `n` with it
    have hbefore := htimely 0 (Nat.zero_le _)
    have hafter := htimely 1 (by simp)
    simp only [List.take_zero, List.flatten_nil, List.length_nil, List.length_cons] at hbefore
    simp only [List.take_succ_cons, List.take_zero, List.flatten_cons, List.flatten_nil,
      List.append_nil, List.length_cons] at hafter
    obtain ⟨a₂, s₂, hanswers, hholds₂, hprogress, hsize₂⟩ := foldl_answer (s := s') answers hholds hsize
      (by omega) (by rw [List.length_append]; omega)
    rw [validateElements, hdecode]
    dsimp only
    rw [hcopy]
    dsimp only
    rw [if_pos hvalidator, List.headD_cons, List.tail_cons, hanswers]
    rw [List.flatMap_cons, ← List.append_assoc, List.flatten_cons, ← List.append_assoc]
    apply ih hrest (Nat.succ.inj hlength) ?_ hholds₂ ?_ ?_
    · intro i hi
      have htail := htimely (i + 1) (Nat.succ_le_succ hi)
      simp only [List.take_succ_cons, List.flatten_cons, List.length_append, List.length_cons] at htail ⊢
      omega
    · intro hne
      have hpos := List.length_pos_of_ne_nil hne
      rw [hsize₂ (by rw [List.length_append]; omega), List.length_append]
      omega
    · rcases Nat.lt_or_ge (verdicts ++ answers).length n with hlt | hge
      · exact .inl (hprogress.1 hlt)
      · rw [List.length_append] at hge
        have heq : (verdicts ++ answers).length = n := by
          rw [List.length_append]
          omega
        exact .inr ⟨List.eq_nil_of_length_eq_zero (by omega), heq, hprogress.2 heq⟩

/-- The loop, where there is no validator: every element counts as accepted. -/
theorem validateElements_nobody (hvalidator : ¬cfg.securityOptions.hasEncapsulatedDataValidator = true)
    {elements : List Block} {inner : List Data} (calls : List (List Bool))
    (hinner : elements.mapM cfg.decodeData = some inner)
    (hn : verdicts.length + elements.length = n) (h : Holds p innerName n content verdicts a)
    (hfits : content.length + (inner.flatMap Data.content).length ≤ a.finalBuffer.length) :
    ∃ a₁ s₁, validateElements cfg elements calls (a, s) = some (a₁, s₁) ∧
      Delivered p innerName (content ++ inner.flatMap Data.content)
        (verdicts ++ List.replicate elements.length true) s s₁ := by
  induction elements generalizing inner calls a content verdicts with
  | nil =>
    obtain rfl : inner = [] := (Option.some.inj hinner).symm
    simp only [List.flatMap_nil, List.length_nil, List.replicate_zero, List.append_nil]
    exact ⟨(sendFinalBuffer a s).1, _, rfl, (sendFinalBuffer_complete h hn).2⟩
  | cons element elements ih =>
    obtain ⟨innerData, inner, hdecode, hrest, rfl⟩ := List.exists_of_mapM_cons hinner
    rw [List.flatMap_cons, List.length_append] at hfits
    obtain ⟨a₁, hcopy, hholds, hsize⟩ := h.copy innerData.content (by omega)
    rw [validateElements, hdecode]
    dsimp only
    rw [hcopy]
    dsimp only
    rw [if_neg hvalidator, List.flatMap_cons, ← List.append_assoc, List.length_cons,
      List.replicate_succ, List.append_cons]
    apply ih calls.tail hrest ?_ (hholds.counted true) ?_
    · rw [List.length_append, List.length_singleton, ← hn, List.length_cons]
      omega
    · rw [List.length_append]
      dsimp only [Assembly.counted]
      simp only [if_true]
      omega

/-! ## The callback -/

/-- The answers that the validator gives for `n` elements during its calls.  Without a
    validator every element counts as accepted. -/
def verdictsInLoop (cfg : PubSubConfig) (n : Nat) (calls : List (List Bool)) : List Bool :=
  if cfg.securityOptions.hasEncapsulatedDataValidator then calls.flatten else List.replicate n true

/-- There is a call for each element, and no answer for an element before its call. -/
structure Timely (calls : List (List Bool)) (n : Nat) : Prop where
  length : calls.length = n
  answered : ∀ i ≤ n, (calls.take i).flatten.length ≤ i

/-- The answers among what happens later. -/
def answers (events : List Later) : List Bool :=
  events.filterMap fun
    | .answer accepted => some accepted
    | .other _ => none

/-- The rest of what happens later. -/
def others (events : List Later) : List (UInt64 × PubSub.Event) :=
  events.filterMap fun
    | .answer _ => none
    | .other e => some e

variable (cfg) in
/-- What happens before the last answer is counted, and changes nothing else. -/
theorem state_later (events : List Later) (h : Holds p innerName n content verdicts a)
    (hlt : (verdicts ++ answers events).length < n) :
    Holds p innerName n content (verdicts ++ answers events) (Run.state (later cfg) events (a, s)).1 ∧
      (Run.state (later cfg) events (a, s)).2 = Run.state (step cfg) (others events) s := by
  induction events generalizing a s verdicts with
  | nil => exact ⟨by simpa [answers] using h, rfl⟩
  | cons event events ih =>
    cases event with
    | answer accepted =>
      have hanswers : answers (.answer accepted :: events) = accepted :: answers events := rfl
      have hothers : others (.answer accepted :: events) = others events := rfl
      rw [hanswers, List.append_cons] at hlt ⊢
      have hpending : (verdicts ++ [accepted]).length < n := by
        rw [List.length_append] at hlt
        omega
      rw [Run.state_cons, later, answer_eq, sendFinalBuffer_pending (h.counted accepted) hpending, hothers]
      exact ih (h.counted accepted) hlt
    | other e => exact ih h hlt

/-- Nothing has been copied into the buffer as it is allocated. -/
theorem holds_start (p : Publication) (innerName : Name) (n size : Nat) :
    Holds p innerName n [] []
      { publication := p, innerName := innerName, numElem := n, finalBuffer := List.replicate size 0 } :=
  ⟨rfl, rfl, rfl, List.take_zero, rfl, rfl, rfl⟩

/-- The loop of the callback, from the buffer as it is allocated. -/
theorem loop_of_onComplete (hcontent : ContentInside cfg.decodeData) (p : Publication)
    {data : List UInt8} {elements : List Block} {firstInner : Data} {inner : List Data}
    (helements : Codec.packetFormat.elements data = some elements)
    (hinner : elements.mapM cfg.decodeData = some (firstInner :: inner))
    {calls : List (List Bool)} (htimely : Timely calls elements.length) (s : PubSub) :
    ∃ a₁ s₁, onComplete cfg p data calls s = some (some a₁, s₁) ∧
      Progress p (firstInner.name.getPrefix (-2)) elements.length
        ((firstInner :: inner).flatMap Data.content) (verdictsInLoop cfg elements.length calls) s s₁ ∧
      ((verdictsInLoop cfg elements.length calls).length < elements.length →
        Holds p (firstInner.name.getPrefix (-2)) elements.length
          ((firstInner :: inner).flatMap Data.content) (verdictsInLoop cfg elements.length calls) a₁) := by
  have hfits : ((firstInner :: inner).flatMap Data.content).length ≤ data.length :=
    (hcontent.length_contents_le hinner).trans (Codec.length_readBlocks helements)
  cases elements with
  | nil => simp at hinner
  | cons element elements =>
    have hfirst : cfg.decodeData element = some firstInner := by
      obtain ⟨innerData, _, hdecode, -, heq⟩ := List.exists_of_mapM_cons hinner
      rw [(List.cons.inj heq).1]
      exact hdecode
    have hholds := holds_start p (firstInner.name.getPrefix (-2)) (element :: elements).length data.length
    have hfits' : ([] : List UInt8).length + ((firstInner :: inner).flatMap Data.content).length ≤
        (List.replicate data.length (0 : UInt8)).length := by
      rw [List.length_nil, List.length_replicate, Nat.zero_add]
      exact hfits
    rw [onComplete, helements]
    dsimp only
    rw [hfirst]
    dsimp only
    by_cases hvalidator : cfg.securityOptions.hasEncapsulatedDataValidator = true
    · have htimely' : ∀ i ≤ calls.length, ([] : List Bool).length + (calls.take i).flatten.length +
          (element :: elements).length ≤ (element :: elements).length + i := by
        intro i hi
        have hanswered := htimely.answered i (htimely.length ▸ hi)
        rw [List.length_nil]
        omega
      obtain ⟨a₁, s₁, hloop, hholds₁, hprogress⟩ := validateElements_validator (s := s) hvalidator hinner
        htimely.length htimely' hholds (fun _ => hfits') (.inl rfl)
      rw [hloop, verdictsInLoop, if_pos hvalidator]
      exact ⟨a₁, s₁, rfl, hprogress, fun _ => hholds₁⟩
    · obtain ⟨a₁, s₁, hloop, hdelivered⟩ := validateElements_nobody (s := s) hvalidator calls
        hinner (Nat.zero_add _) hholds hfits'
      have hcomplete : ¬(List.replicate (element :: elements).length true).length <
          (element :: elements).length := by
        rw [List.length_replicate]
        exact lt_irrefl _
      rw [hloop, verdictsInLoop, if_neg hvalidator]
      exact ⟨a₁, s₁, rfl, ⟨fun hlt => absurd hlt hcomplete, fun _ => hdelivered⟩,
        fun hlt => absurd hlt hcomplete⟩

/-- The reassembled packets `inner` fit into the buffer, whenever the validator answers.
    Until the last answer nothing is done, and with it the blob subscriptions are called
    with the concatenated contents iff all answers accept, and the fetch is cleaned up. -/
theorem onComplete_reassembles (cfg : PubSubConfig) (hcontent : ContentInside cfg.decodeData)
    (p : Publication) {data : List UInt8} {elements : List Block} {firstInner : Data}
    {inner : List Data} (helements : Codec.packetFormat.elements data = some elements)
    (hinner : elements.mapM cfg.decodeData = some (firstInner :: inner))
    {calls : List (List Bool)} (htimely : Timely calls elements.length) (s : PubSub) :
    let content := (firstInner :: inner).flatMap Data.content
    let innerName := firstInner.name.getPrefix (-2)
    let verdicts := verdictsInLoop cfg elements.length calls
    ∃ a₁ s₁, onComplete cfg p data calls s = some (some a₁, s₁) ∧
      Progress p innerName elements.length content verdicts s s₁ ∧
      ∀ events, (verdicts ++ answers events).length < elements.length →
        (Run.state (later cfg) events (a₁, s₁)).2 = Run.state (step cfg) (others events) s₁ ∧
        ∀ accepted, (verdicts ++ answers events).length + 1 = elements.length →
          Delivered p innerName content (verdicts ++ answers events ++ [accepted])
            (Run.state (step cfg) (others events) s₁)
            (answer (Run.state (later cfg) events (a₁, s₁)) accepted).2 := by
  intro content innerName verdicts
  obtain ⟨a₁, s₁, hloop, hprogress, hholds⟩ := loop_of_onComplete hcontent p helements hinner htimely s
  refine ⟨a₁, s₁, hloop, hprogress, fun events hlt => ?_⟩
  have hpending : verdicts.length < elements.length := by
    rw [List.length_append] at hlt
    omega
  obtain ⟨hholds', hstate⟩ := state_later cfg events (s := s₁) (hholds hpending) hlt
  refine ⟨hstate, fun accepted heq => ?_⟩
  rw [answer_eq, ← hstate]
  exact (sendFinalBuffer_complete (hholds'.counted accepted) (by rw [List.length_append]; exact heq)).2

/-- A validator for the decoder of the two packets. -/
def validated : PubSubConfig :=
  { twoPackets with securityOptions := { hasEncapsulatedDataValidator := true } }

theorem contentInside_twoPackets : ContentInside twoPackets.decodeData := by
  intro block innerData hdecode
  right
  simp only [twoPackets] at hdecode
  split at hdecode
  · next hblock =>
    subst hblock
    obtain rfl := Option.some.inj hdecode
    exact ⟨[⟨7, [8, 1, 98]⟩, ⟨21, [42]⟩, ⟨22, [27, 1, 200]⟩, ⟨23, []⟩], by decide, ⟨21, [42]⟩,
      by simp, rfl⟩
  · split at hdecode
    · next hblock =>
      subst hblock
      obtain rfl := Option.some.inj hdecode
      exact ⟨[⟨7, [8, 1, 98]⟩, ⟨20, [26, 3, 50, 1, 0]⟩, ⟨21, [42]⟩, ⟨22, [27, 1, 200]⟩, ⟨23, []⟩],
        by decide, ⟨21, [42]⟩, by simp, rfl⟩
    · simp at hdecode

/-- A node with a blob subscription to `/a`, for which its first publication is queued. -/
def subscribed : PubSub where
  subscriptionCount := 1
  fetchMap := ExtTreeMap.insert ∅ ⟨.ofBytes [[97]], 1⟩ [⟨1, .ofBytes [[97]], ⟨0, true⟩, false, false⟩]

/-- Two packets, of which the first one is accepted late: the blob subscription gets both
    contents with the last answer. -/
theorem onComplete_reassembles_late :
    ∃ a₁ s₁, onComplete validated ⟨.ofBytes [[97]], 1⟩ (finalPacketBlock.wire ++ finalPacketBlock.wire)
        [[], [true]] subscribed = some (some a₁, s₁) ∧
      Delivered ⟨.ofBytes [[97]], 1⟩ ((Name.ofBytes [[98]]).getPrefix (-2)) [42, 42] [true, true]
        subscribed (answer (a₁, s₁) true).2 := by
  have helements : Codec.packetFormat.elements (finalPacketBlock.wire ++ finalPacketBlock.wire) =
      some [finalPacketBlock, finalPacketBlock] := by
    decide
  have hinner : [finalPacketBlock, finalPacketBlock].mapM validated.decodeData =
      some [finalPacket, finalPacket] := by
    decide
  have htimely : Timely [[], [true]] 2 := ⟨rfl, by decide⟩
  obtain ⟨a₁, s₁, hloop, hprogress, hlater⟩ := onComplete_reassembles validated contentInside_twoPackets
    ⟨.ofBytes [[97]], 1⟩ helements hinner htimely subscribed
  obtain rfl := hprogress.1 (by decide)
  exact ⟨a₁, subscribed, hloop, (hlater [] (by decide)).2 true rfl⟩

/-! ## The two models of the callback -/

/-- The assembly holds what the blob does, in the part of the buffer that is written. -/
structure Represents (b : Blob) (a : Assembly) : Prop where
  publication : a.publication = b.publication
  innerName : a.innerName = b.innerName
  numElem : a.numElem = b.numElem
  written : a.finalBuffer.take a.bufSize = b.finalBuffer
  bufSize : a.bufSize = b.finalBuffer.length
  numValidated : a.numValidated = b.numValidated
  numFailed : a.numFailed = b.numFailed

variable {b : Blob}

theorem Represents.sendFinalBuffer (h : Represents b a) (s : PubSub) :
    (a.sendFinalBuffer s).2 = s.sendFinalBuffer b ∧ Represents b (a.sendFinalBuffer s).1 := by
  obtain ⟨hp, hname, hn, hwritten, hsize, hvalidated, hfailed⟩ := h
  rw [Assembly.sendFinalBuffer, PubSub.sendFinalBuffer, hvalidated, hfailed, hn]
  split
  · exact ⟨rfl, hp, hname, hn, hwritten, hsize, hvalidated, hfailed⟩
  · split
    · exact ⟨by rw [hp], hp, hname, hn, hwritten, hsize, hvalidated, hfailed⟩
    · have hbuffer := resize_bufSize hwritten hsize
      refine ⟨by rw [hbuffer, hname, hp], hp, hname, rfl, ?_, hsize, rfl, rfl⟩
      rw [hbuffer, hsize, List.take_length]

/-- An answer, for an element that the loop has come to. -/
theorem Represents.answer (h : Represents b a) (hunanswered : 0 < b.unanswered) (accepted : Bool)
    (s : PubSub) :
    (Assembly.answer (a, s) accepted).2 =
        s.sendFinalBuffer (Blob.answer { b with unanswered := b.unanswered - 1 } accepted) ∧
      Represents (Blob.answer { b with unanswered := b.unanswered - 1 } accepted)
        (Assembly.answer (a, s) accepted).1 := by
  rw [answer_eq]
  apply Represents.sendFinalBuffer
  obtain ⟨hp, hname, hn, hwritten, hsize, hvalidated, hfailed⟩ := h
  have hnumElem : ∀ accepted : Bool,
      (Blob.answer { b with unanswered := b.unanswered - 1 } accepted).numElem = b.numElem := by
    intro accepted
    cases accepted <;> simp only [Blob.answer, Blob.numElem, if_true, Bool.false_eq_true, if_false] <;> omega
  cases accepted with
  | true =>
    exact ⟨hp, hname, hn.trans (hnumElem true).symm, hwritten, hsize, congrArg (· + 1) hvalidated, hfailed⟩
  | false =>
    exact ⟨hp, hname, hn.trans (hnumElem false).symm, hwritten, hsize, hvalidated, congrArg (· + 1) hfailed⟩

/-- A copy that fits, of an element that waits for its answer from here on. -/
theorem Represents.copy (h : Represents b a) {element : Block} {elements : List Block}
    (hremaining : b.remaining = element :: elements) (bytes : List UInt8)
    (hfits : a.bufSize + bytes.length ≤ a.finalBuffer.length) :
    ∃ a₁, a.copy bytes = some a₁ ∧ a₁.finalBuffer.length = a.finalBuffer.length ∧
      a₁.bufSize = a.bufSize + bytes.length ∧
      Represents { b.copy bytes elements with unanswered := b.unanswered + 1 } a₁ := by
  obtain ⟨hp, hname, hn, hwritten, hsize, hvalidated, hfailed⟩ := h
  have hlength : (a.finalBuffer.take a.bufSize ++ bytes).length = a.bufSize + bytes.length := by
    rw [List.length_append, List.length_take]
    omega
  refine ⟨_, copy_of_le hfits, ?_, rfl, hp, hname, hn.trans ?_, ?_, ?_, hvalidated, hfailed⟩
  · rw [List.length_append, hlength, List.length_drop]
    omega
  · simp only [Blob.numElem, Blob.copy, hremaining, List.length_cons]
    omega
  · rw [List.take_left' hlength, hwritten]
    rfl
  · simp only [Blob.copy, List.length_append, hsize]

/-- An answer while elements are left leaves the buffer alone. -/
theorem answer_of_remaining (h : Represents b a) (hremaining : b.remaining ≠ [])
    (hunanswered : 0 < b.unanswered) (accepted : Bool) (s : PubSub) :
    answer (a, s) accepted = (a.counted accepted, s) := by
  have hne : (a.counted accepted).numValidated + (a.counted accepted).numFailed ≠
      (a.counted accepted).numElem := by
    have hlength := List.length_pos_of_ne_nil hremaining
    have hn : (a.counted accepted).numElem = b.numElem := by
      cases accepted <;> exact h.numElem
    have hcount : (a.counted accepted).numValidated + (a.counted accepted).numFailed =
        b.numValidated + b.numFailed + 1 := by
      rw [← h.numValidated, ← h.numFailed]
      cases accepted <;> simp only [Assembly.counted, if_true, Bool.false_eq_true, if_false] <;> omega
    rw [hn, hcount, Blob.numElem]
    omega
  rw [answer_eq, Assembly.sendFinalBuffer, if_pos hne]

/-- What the loop of `SVSPubSub.onComplete` keeps is what the closures share. -/
theorem validateElements_represents (hcontent : ContentInside cfg.decodeData) {elements : List Block}
    (answers : List (Option Bool)) (h : Represents b a) (hremaining : b.remaining = elements)
    (hfits : elements ≠ [] →
      a.bufSize + (elements.map (·.value.length)).sum ≤ a.finalBuffer.length) :
    ∃ b' a' s', validateElements cfg elements (answers.map Option.toList) (a, s) = some (a', s') ∧
      PubSub.validateElements cfg elements answers b s = s'.keepBlob b' ∧ Represents b' a' := by
  induction elements generalizing answers a b s with
  | nil =>
    obtain ⟨hsend, hrepresents⟩ := h.sendFinalBuffer s
    rw [validateElements, PubSub.validateElements, ← hsend]
    exact ⟨b, _, _, rfl, rfl, hrepresents⟩
  | cons element elements ih =>
    have hcalls : (answers.map Option.toList).headD [] = (answers.headD none).toList := by
      cases answers <;> rfl
    rw [validateElements, PubSub.validateElements, hcalls, ← List.map_tail]
    cases hdecode : cfg.decodeData element with
    | none => exact ⟨b, a, _, rfl, by rw [h.publication], h⟩
    | some innerData =>
      have hfits := hfits (List.cons_ne_nil _ _)
      rw [List.map_cons, List.sum_cons] at hfits
      have hlength := hcontent.length_le hdecode
      obtain ⟨a₁, hcopy, hsize₁, hbufSize₁, hrepresents⟩ := h.copy hremaining
        innerData.content (by omega)
      dsimp only
      rw [hcopy]
      dsimp only
      split
      · cases hanswer : answers.headD none with
        | none =>
          refine ih answers.tail hrepresents rfl fun _ => ?_
          omega
        | some accepted =>
          have hanswered : (answer (a₁, s) accepted).2 =
                s.sendFinalBuffer ((b.copy innerData.content elements).answer accepted) ∧
              Represents ((b.copy innerData.content elements).answer accepted)
                (answer (a₁, s) accepted).1 := hrepresents.answer (Nat.succ_pos _) accepted s
          have hpending := fun hremaining hunanswered =>
            answer_of_remaining hrepresents hremaining hunanswered accepted s
          dsimp only [Option.toList, List.foldl_cons, List.foldl_nil]
          generalize answer (a₁, s) accepted = x at hanswered hpending ⊢
          obtain ⟨a₂, s₂⟩ := x
          rw [← hanswered.1]
          refine ih answers.tail hanswered.2 (remaining_answer _ accepted) fun hne => ?_
          obtain ⟨rfl, -⟩ := Prod.mk.inj (hpending hne (Nat.succ_pos _))
          have hcounted : (a₁.counted accepted).bufSize = a₁.bufSize := by
            cases accepted <;> rfl
          rw [hcounted, finalBuffer_counted]
          omega
      · obtain ⟨hp, hname, hn, hwritten, hsize, hvalidated, hfailed⟩ := hrepresents
        have hn' : a₁.numElem = Blob.numElem { (b.copy innerData.content elements) with
            numValidated := b.numValidated + 1 } := by
          rw [hn]
          simp only [Blob.numElem, Blob.copy]
          omega
        refine ih answers.tail
          ⟨hp, hname, hn', hwritten, hsize, congrArg (· + 1) hvalidated, hfailed⟩ rfl fun _ => ?_
        dsimp only
        omega

/-- Where each call answers for its own element or not at all, the callback does to the node
    what `SVSPubSub.onComplete` does. -/
theorem onComplete_represents (hcontent : ContentInside cfg.decodeData) (p : Publication)
    (data : List UInt8) (answers : List (Option Bool)) (s : PubSub) :
    ∃ a' s', onComplete cfg p data (answers.map Option.toList) s = some (a', s') ∧
      ((a' = none ∧ s.onComplete cfg p data answers = s') ∨
        ∃ a b, a' = some a ∧ s.onComplete cfg p data answers = s'.keepBlob b ∧ Represents b a) := by
  rw [onComplete, PubSub.onComplete]
  cases helements : Codec.packetFormat.elements data with
  | none => exact ⟨none, _, rfl, .inl ⟨rfl, rfl⟩⟩
  | some elements =>
    cases elements with
    | nil => exact ⟨none, _, rfl, .inl ⟨rfl, rfl⟩⟩
    | cons element elements =>
      cases hdecode : cfg.decodeData element with
      | none => exact ⟨none, s.cleanUpFetch p, by simp only [hdecode], .inl ⟨rfl, by simp only [hdecode]⟩⟩
      | some firstInner =>
        have hrepresents : Represents
            { publication := p, innerName := firstInner.name.getPrefix (-2)
              remaining := element :: elements }
            { publication := p, innerName := firstInner.name.getPrefix (-2)
              numElem := (element :: elements).length, finalBuffer := List.replicate data.length 0 } :=
          ⟨rfl, rfl, rfl, List.take_zero, rfl, rfl, rfl⟩
        obtain ⟨b, a, s', hloop, hblob, hrepresents'⟩ := validateElements_represents (s := s)
          hcontent answers hrepresents rfl fun _ => by
            rw [List.length_replicate, Nat.zero_add]
            exact Codec.length_readBlocks helements
        dsimp only
        rw [hdecode]
        dsimp only
        rw [hloop, hblob]
        exact ⟨some a, s', rfl, .inr ⟨a, b, rfl, rfl, hrepresents'⟩⟩

end Assembly

end Svs
