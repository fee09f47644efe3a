import Svs.ForStd.Run
import Svs.Native.PubSubPublish
import Svs.Spec.FetchRelease

/-!
# Who has been served when the queue is erased

## Key results

- `erased_called`: runs in which nobody is erased without having been called
- `not_erased_called`: a run in which somebody is
-/

namespace Svs

open Std Delivery

namespace PubSub

variable {cfg : PubSubConfig} {p : Publication} {s : PubSub} {e : UInt64 × Event}

/-! ## What goes well -/

/-- The rest of the publication is being fetched, or validated. -/
def Reassembling (p : Publication) (s : PubSub) : Prop := ∃ task ∈ s.tasks, task.2.isRest p

instance (p : Publication) (s : PubSub) : Decidable (Reassembling p s) :=
  inferInstanceAs (Decidable (∃ _ ∈ _, _))

theorem reassembling_iff : Reassembling p s ↔ 0 < (s.item p).rest := List.countP_pos_iff.symm

/-- The step does not give up serving blob subscriptions, and queues no packet subscription
    while the publication is being reassembled. -/
def Serves (cfg : PubSubConfig) (p : Publication) (e : UInt64 × Event) (s : PubSub) : Prop :=
  ¬GivesUp cfg p e s ∧ ¬(Reassembling p s ∧ QueuesPacket cfg p e s)

/-- Whoever is on the publication's list when it is erased has been called before. -/
def ErasedCalled (p : Publication) (log : List Effect) : Prop :=
  ∀ before subs after, log = before ++ .erased p subs :: after → ∀ sub ∈ subs,
    ∃ subData, .called sub subData ∈ before ∧
      Publication.mk subData.producerPrefix subData.seqNo = p

theorem erasedCalled_of_complete {log : List Effect} (h : Complete (log.filterMap (Effect.entry p))) :
    ErasedCalled p log := by
  intro before subs after hlog sub hsub
  have hhistory : log.filterMap (Effect.entry p) =
      before.filterMap (Effect.entry p) ++ .dropped subs :: after.filterMap (Effect.entry p) := by
    rw [hlog, List.filterMap_append, List.filterMap_cons_some (by rw [Effect.entry, if_pos rfl])]
  obtain ⟨effect, hmem, hentry⟩ := List.mem_filterMap.mp (h _ _ _ hhistory sub hsub)
  -- only a call makes such an entry
  obtain ⟨subData, rfl, hp⟩ := Effect.entry_eq_served_iff.mp hentry
  exact ⟨subData, hmem, hp⟩

theorem kept_step (hs : Sound (s.item p)) (hk : Kept (·.isPacketSubscription) (s.item p))
    (h : Serves cfg p e s) : Kept (·.isPacketSubscription) ((s.step cfg e).item p) := by
  refine (step_refines cfg p e s).kept hs ?_ h.1 hk
  rintro ⟨hrest, hpacket⟩
  exact h.2 ⟨reassembling_iff.mpr hrest, hpacket⟩

/-- In a run of such steps whoever is erased from the publication's list has been called. -/
theorem erased_called (cfg : PubSubConfig) (count : UInt32) (p : Publication)
    (events : List (UInt64 × Event))
    (h : Run.Always (step cfg) (Serves cfg p) events { subscriptionCount := count }) :
    ErasedCalled p (Run.state (step cfg) events { subscriptionCount := count }).log := by
  have hinit : Kept (·.isPacketSubscription) (item p { subscriptionCount := count }) := by
    rw [item_init]
    exact ⟨complete_nil, nofun⟩
  have hkept := h.invariant
    (I := fun s => Sound (s.item p) ∧ Kept (·.isPacketSubscription) (s.item p))
    ⟨sound_init p count, hinit⟩ fun _ _ hI hserves => ⟨sound_step hI.1, kept_step hI.1 hI.2 hserves⟩
  exact erasedCalled_of_complete hkept.2.1

/-! ## Publications -/

/-- The packets that `publish` and `publishPacket` encapsulate: one, or the segments of a
    value that does not fit into one. -/
inductive Published
  | packet (innerData : Data)
  | segments (innerData : List Data)

/-- Segments have a FinalBlockId. -/
def Published.WellFormed : Published → Prop
  | .packet _ => True
  | .segments innerData => innerData ≠ [] ∧ ∀ d ∈ innerData, d.finalBlock.isSome = true

/-- The packet encapsulates the other one. -/
def Encapsulates (cfg : PubSubConfig) (data innerData : Data) : Prop :=
  data.contentType = tlv.Data ∧ (blockFromValue data.content).bind cfg.decodeData = some innerData

/-- The packet is one that `publishData` or `insertDataSegment` makes for the publication. -/
def IsOuter (cfg : PubSubConfig) (syncPrefix : Name) (p : Publication) (pub : Published)
    (data : Data) : Prop :=
  match pub with
  | .packet innerData => data.name = getDataName syncPrefix p ∧ Encapsulates cfg data innerData
  | .segments innerData => ∃ segNo inner, innerData[UInt64.toNat segNo]? = some inner ∧
      data.name = getSegmentName syncPrefix p segNo ∧ Encapsulates cfg data inner

/-- The fetch of the publication ends with one of its packets, and its segments arrive. -/
def Arrives (cfg : PubSubConfig) (syncPrefix : Name) (p : Publication) (pub : Published)
    (e : UInt64 × Event) (s : PubSub) : Prop :=
  match e.2 with
  | .fetchData event _ => ∀ outcome,
      s.dataFetcher.Ends cfg.securityOptions event (.fetch p) outcome →
        ∃ data, outcome = .satisfied data ∧ IsOuter cfg syncPrefix p pub data
  | .segmentsComplete task data _ => ∀ pubName s' innerData,
      s.takeTask task = some (.segments p pubName, s') → pub = .segments innerData →
        ∃ elements, Codec.packetFormat.elements data = some elements ∧
          elements.mapM cfg.decodeData = some innerData
  | .segmentsError task => ∀ pubName s' innerData,
      s.takeTask task = some (.segments p pubName, s') → pub ≠ .segments innerData
  | _ => True

/-! ## Two packets -/

/-- A packet with the name `/b` and the content 42. -/
def packet : Data := { name := .ofBytes [[98]], content := [42] }

/-- The same packet with a FinalBlockId. -/
def finalPacket : Data := { packet with finalBlock := some ⟨50, [0]⟩ }

/-- The packets as blocks, with a signature of type 200. -/
def packetBlock : Block := ⟨tlv.Data, [7, 3, 8, 1, 98, 21, 1, 42, 22, 3, 27, 1, 200, 23, 0]⟩
def finalPacketBlock : Block :=
  ⟨tlv.Data, [7, 3, 8, 1, 98, 20, 5, 26, 3, 50, 1, 0, 21, 1, 42, 22, 3, 27, 1, 200, 23, 0]⟩

/-- A decoder that knows the two packets, and nobody who validates. -/
def twoPackets : PubSubConfig where
  decodeData b :=
    if b = packetBlock then some packet else if b = finalPacketBlock then some finalPacket else none

/-- What `publishPacket` makes of an encapsulated packet, for the first publication of `/a`
    in the group `/g`. -/
def outerPacket (block : Block) : Data :=
  { name := getDataName (.ofBytes [[103]]) ⟨.ofBytes [[97]], 1⟩
    contentType := tlv.Data, content := block.wire }

/-- The node subscribes to `/a`, and gets the first packet of a publication. -/
def received (block : Block) : List (UInt64 × Event) :=
  [(0, .subscribeToProducer (.ofBytes [[97]]) false false), (0, .update [⟨.ofBytes [[97]], 1, 1, 0⟩]),
    (0, .fetchData (.data 1 (outerPacket block)) none)]

/-- A blob subscription is called with a packet that has no FinalBlockId. -/
theorem erased_called_packet :
    ErasedCalled ⟨.ofBytes [[97]], 1⟩
      (Run.state (step twoPackets) (received packetBlock) { subscriptionCount := 0 }).log := by
  apply erased_called
  refine ⟨⟨nofun, nofun⟩, ⟨nofun, ?_⟩, ⟨?_, fun h => h.2⟩, trivial⟩
  · intro h
    exact absurd h.1 (by decide)
  · rintro ⟨data, innerData, hends, hreturned, hfinal, -⟩
    -- the Data that arrives encapsulates the packet without FinalBlockId
    rw [← Fetcher.step_eq_some_iff] at hends
    have hended : (Fetcher.step twoPackets.securityOptions (.data 1 (outerPacket packetBlock))
        (Run.state (step twoPackets) ((received packetBlock).take 2)
          { subscriptionCount := 0 }).dataFetcher).2 =
        some (.fetch ⟨.ofBytes [[97]], 1⟩, .satisfied (outerPacket packetBlock)) := by
      decide
    obtain ⟨-, hdata⟩ := Prod.mk.inj (Option.some.inj (hended.symm.trans hends))
    obtain rfl := FetchOutcome.satisfied.inj hdata
    have hpacket : returnedAtOnce twoPackets (outerPacket packetBlock) none = some packet := by decide
    obtain rfl := Option.some.inj (hpacket.symm.trans hreturned)
    exact nomatch hfinal

/-- A packet with a FinalBlockId that `publishPacket` publishes arrives, and the blob
    subscription is erased when nothing answers for the segments that it does not have. -/
theorem not_erased_called : ¬∀ cfg syncPrefix count p pub events, Published.WellFormed pub →
    Run.Always (step cfg) (Arrives cfg syncPrefix p pub) events { subscriptionCount := count } →
      ErasedCalled p (Run.state (step cfg) events { subscriptionCount := count }).log := by
  intro h
  have hlog : (Run.state (step twoPackets) (received finalPacketBlock ++ [(0, .segmentsError 0)])
      { subscriptionCount := 0 }).log =
      [.queued ⟨1, .ofBytes [[97]], ⟨0, true⟩, false, false⟩ ⟨.ofBytes [[97]], 1⟩,
        .updated [⟨.ofBytes [[97]], 1, 1, 0⟩]] ++
        .erased ⟨.ofBytes [[97]], 1⟩ [⟨1, .ofBytes [[97]], ⟨0, true⟩, false, false⟩] :: [] := by
    decide
  have harrives : Run.Always (step twoPackets)
      (Arrives twoPackets (.ofBytes [[103]]) ⟨.ofBytes [[97]], 1⟩ (.packet finalPacket))
      (received finalPacketBlock ++ [(0, .segmentsError 0)]) { subscriptionCount := 0 } := by
    refine ⟨trivial, trivial, ?_, ?_, trivial⟩
    · intro outcome hends
      rw [← Fetcher.step_eq_some_iff] at hends
      have hended : (Fetcher.step twoPackets.securityOptions (.data 1 (outerPacket finalPacketBlock))
          (Run.state (step twoPackets) ((received finalPacketBlock).take 2)
            { subscriptionCount := 0 }).dataFetcher).2 =
          some (.fetch ⟨.ofBytes [[97]], 1⟩, .satisfied (outerPacket finalPacketBlock)) := by
        decide
      obtain ⟨-, rfl⟩ := Prod.mk.inj (Option.some.inj (hended.symm.trans hends))
      exact ⟨_, rfl, rfl, rfl, by decide⟩
    · intro _ _ _ _
      exact nofun
  obtain ⟨subData, hmem, -⟩ := h twoPackets _ _ _ (.packet finalPacket) _ trivial harrives _ _ _ hlog _
    List.mem_cons_self
  simp at hmem

end PubSub

end Svs
