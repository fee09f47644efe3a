import Svs.Native.Shared
import Svs.Spec.ExactlyOnce
import Svs.Spec.NetworkAgreement
import Svs.Spec.Parcels

/-!
# What shared stores hold

Whoever answers for a publication, whether its producer or a node that has cached it, and
whatever others send, all nodes get the same packet for it.  This takes identifiers that do not
go on where a data name ends, since Interests take longer names.

## Key results

- `Sharers.publication_inj`: data names tell publications apart
- `Serves.fetchEvent`: what a node fetches has been published
- `stores_published`: what stores hold
- `agrees_iff`: when all nodes get the same packets
-/

namespace Svs

open VersionVector

/-- The nodes of a group: one prefix, different identifiers, and all of them validate. -/
structure Sharers {ι : Type*} (cfg : ι → SharedConfig) (grpPrefix : Name) : Prop where
  grpPrefix : ∀ i, (cfg i).grpPrefix = grpPrefix
  id_injective : Function.Injective fun i => (cfg i).core.id
  validator : ∀ i, (cfg i).securityOptions.hasValidator = true

/-- No identifier goes on where the name of another node's publication ends. -/
def Separate {ι : Type*} (cfg : ι → SharedConfig) : Prop :=
  ∀ i j seq, ((cfg i).core.id.appendNumber seq).isPrefixOf (cfg j).core.id = false

namespace Sharers

variable {ι : Type*} {cfg : ι → SharedConfig} {grpPrefix : Name}

/-- The Interest for a publication takes the packets of that publication only. -/
theorem publication_inj (h : Sharers cfg grpPrefix) (hseparate : Separate cfg) {i j k l : ι}
    {seq seq' : SeqNo}
    (hbelow : ((cfg k).getDataName ⟨(cfg i).core.id, seq⟩).isPrefixOf
      ((cfg l).getDataName ⟨(cfg j).core.id, seq'⟩) = true) : i = j ∧ seq = seq' := by
  have hseparate := hseparate i j seq
  have hsame : (cfg k).dataPrefix = (cfg l).dataPrefix := by
    rw [SharedConfig.dataPrefix, SharedConfig.dataPrefix, h.grpPrefix, h.grpPrefix]
  simp only [SharedConfig.getDataName, hsame, Name.isPrefixOf, Name.append, Name.appendNumber,
    Codec.packetFormat, List.append_assoc, List.isPrefixOf_iff_prefix,
    List.prefix_append_right_inj] at hbelow hseparate
  rcases List.prefix_concat_iff.mp hbelow with heq | hbelow
  · obtain ⟨hid, hnumber⟩ := List.append_inj' heq rfl
    have hvalue := (Component.mk.inj (List.cons.inj hnumber).1).2
    exact ⟨h.id_injective (Name.components_injective hid), Codec.integerBytes_inj.mp hvalue⟩
  · rw [← List.isPrefixOf_iff_prefix, hseparate] at hbelow
    cases hbelow

end Sharers

open Fetcher

/-- The packet suits the Interest, and is one that has been published if its signature is
    genuine. -/
def Suits {ι : Type*} (cfg : SharedConfig) (key : DataKey ι) (Q : Data → Prop) (p : Publication)
    (packet : SignedData) : Prop :=
  (cfg.getDataName p).isPrefixOf packet.data.name = true ∧ (key.Genuine packet → Q packet.data)

/-- What a node has is what has been published, which `Q` says, with all that it has published
    itself. -/
structure Serves {ι : Type*} (cfg : SharedConfig) (key : DataKey ι) (Q : Data → Prop)
    (published : List (SeqNo × Data)) (s : SVSyncShared) : Prop where
  recorded : s.core.RecordedBelow
  nodup : (published.map (·.1)).Nodup
  known : ∀ x ∈ published, x.1 ≤ s.core.vv.get cfg.core.id
  names : ∀ x ∈ published, x.2.name = cfg.getDataName ⟨cfg.core.id, x.1⟩
  own : ∀ x ∈ published, ∃ packet ∈ s.dataStore, packet.data = x.2
  stored : ∀ packet ∈ s.dataStore, Q packet.data
  validating : Vouched (Suits cfg key Q) s.fetcher
  delivered : ∀ d ∈ s.delivered, Q d.packet.data ∧
    (cfg.getDataName d.publication).isPrefixOf d.packet.data.name = true ∧
    (d.cacheAll = true → d.packet ∈ s.dataStore)

namespace Serves

variable {ι : Type*} {cfg : SharedConfig} {key : DataKey ι} {Q Q' : Data → Prop}
  {published : List (SeqNo × Data)} {s : SVSyncShared}

theorem mono (h : Serves cfg key Q published s) (hQ : ∀ d, Q d → Q' d) :
    Serves cfg key Q' published s :=
  { h with
    stored := fun packet hpacket => hQ _ (h.stored packet hpacket)
    validating := fun x hx => ⟨(h.validating x hx).1, fun hgenuine => hQ _ ((h.validating x hx).2 hgenuine)⟩
    delivered := fun d hd => ⟨hQ _ (h.delivered d hd).1, (h.delivered d hd).2⟩ }

theorem init (uninitialized : Int) : Serves cfg key Q [] { core := Core.init cfg.core uninitialized } where
  recorded := Core.recordedBelow_init cfg.core uninitialized
  nodup := List.nodup_nil
  known _ hx := absurd hx List.not_mem_nil
  names _ hx := absurd hx List.not_mem_nil
  own _ hx := absurd hx List.not_mem_nil
  stored _ hpacket := absurd hpacket List.not_mem_nil
  validating _ hx := absurd hx List.not_mem_nil
  delivered _ hd := absurd hd List.not_mem_nil

theorem sync (h : Serves cfg key Q published s) (P : Platform) (m : Moment) {e : Event}
    (he : ∀ seq nid, e ≠ .updateSeqNo seq nid) :
    Serves cfg key Q published { s with core := (Core.step P cfg.core m e s.core).1 } :=
  { h with
    recorded := by
      apply h.recorded.step m e
      cases e with
      | updateSeqNo seq nid => exact absurd rfl (he seq nid)
      | start | syncInterest | retx => trivial
    known := fun x hx => UInt64.le_trans (h.known x hx) (h.recorded.get_le_step m he _) }

/-- A new packet gets a number that no packet has had. -/
theorem publish (h : Serves cfg key Q published s) {sign : Data → List UInt8} {m : Moment}
    {content : List UInt8} {contentType : Nat} {packet : SignedData} {node : SVSyncShared}
    (hwrap : Core.getSeqNo cfg.core EMPTY_NODE_ID s.core < Core.nextSeqNo cfg.core EMPTY_NODE_ID s.core)
    (hpublish : s.publishData cfg sign m content EMPTY_NODE_ID contentType = (packet, node))
    (hQ : Q packet.data) :
    Serves cfg key Q
      (published ++ [(Core.nextSeqNo cfg.core EMPTY_NODE_ID s.core, packet.data)]) node := by
  obtain ⟨rfl, rfl⟩ := Prod.mk.inj hpublish
  have htarget : Core.targetNode cfg.core EMPTY_NODE_ID = cfg.core.id := if_pos rfl
  have hown : (Core.publishData cfg.core m EMPTY_NODE_ID s.core).1.vv.get cfg.core.id =
      Core.nextSeqNo cfg.core EMPTY_NODE_ID s.core := by
    rw [Core.publishData, (Core.updateSeqNo_frame cfg.core m _ _).1, htarget, Core.targetNode_self, get_set,
      if_pos rfl]
  rw [Core.getSeqNo, htarget] at hwrap
  -- what has been published so far is below
  have hbelow : ∀ x ∈ published, x.1 < Core.nextSeqNo cfg.core EMPTY_NODE_ID s.core :=
    fun x hx => UInt64.lt_of_le_of_lt (h.known x hx) hwrap
  constructor
  · apply h.recorded.updateSeqNo
    rwa [htarget, Core.getSeqNo, Core.targetNode_self]
  · rw [List.map_append, List.nodup_append]
    refine ⟨h.nodup, List.nodup_singleton _, ?_⟩
    intro seq hseq seq' hseq' heq
    obtain ⟨x, hx, rfl⟩ := List.mem_map.mp hseq
    rw [List.map_singleton, List.mem_singleton] at hseq'
    exact UInt64.lt_irrefl _ (heq.trans hseq' ▸ hbelow x hx)
  · intro x hx
    show x.1 ≤ (Core.publishData cfg.core m EMPTY_NODE_ID s.core).1.vv.get cfg.core.id
    rw [hown]
    rcases List.mem_append.mp hx with hx | hx
    · exact UInt64.le_of_lt (hbelow x hx)
    · rw [List.mem_singleton.mp hx]
      exact UInt64.le_refl _
  · intro x hx
    rcases List.mem_append.mp hx with hx | hx
    · exact h.names x hx
    · rw [List.mem_singleton.mp hx, ← htarget]
  · intro x hx
    rcases List.mem_append.mp hx with hx | hx
    · obtain ⟨packet, hpacket, heq⟩ := h.own x hx
      exact ⟨packet, List.mem_append_left _ hpacket, heq⟩
    · rw [List.mem_singleton.mp hx]
      exact ⟨_, List.mem_append_right _ List.mem_cons_self, rfl⟩
  · intro packet hpacket
    rcases List.mem_append.mp hpacket with hpacket | hpacket
    · exact h.stored packet hpacket
    · rw [List.mem_singleton.mp hpacket]
      exact hQ
  · exact h.validating
  · intro d hd
    obtain ⟨hpublished, hname, hstored⟩ := h.delivered d hd
    exact ⟨hpublished, hname, fun hcache => List.mem_append_left _ (hstored hcache)⟩

theorem fetchData (h : Serves cfg key Q published s) (p : Publication) (nRetries : Int) :
    Serves cfg key Q published (s.fetchData cfg p nRetries) :=
  { h with
    validating := by
      intro x hx
      rw [SVSyncShared.fetchData, validating_expressInterest] at hx
      exact h.validating x hx }

/-- A packet that has been published is delivered, and may be cached. -/
theorem onDataValidated (h : Serves cfg key Q published s) {p : Publication} {packet : SignedData}
    (hQ : Q packet.data) (hname : (cfg.getDataName p).isPrefixOf packet.data.name = true) :
    Serves cfg key Q published (s.onDataValidated p packet) := by
  have hkept : ∀ other ∈ s.dataStore, other ∈ (s.onDataValidated p packet).dataStore := by
    intro other hother
    rw [SVSyncShared.onDataValidated]
    dsimp only
    split
    · exact List.mem_append_left _ hother
    · exact hother
  refine { h with own := ?_, stored := ?_, delivered := ?_ }
  · intro x hx
    obtain ⟨other, hother, heq⟩ := h.own x hx
    exact ⟨other, hkept other hother, heq⟩
  · intro other hother
    rw [SVSyncShared.onDataValidated] at hother
    dsimp only at hother
    split at hother
    · rcases List.mem_append.mp hother with hother | hother
      · exact h.stored other hother
      · rw [List.mem_singleton.mp hother]
        exact hQ
    · exact h.stored other hother
  · intro d hd
    rcases List.mem_append.mp hd with hd | hd
    · obtain ⟨hpublished, hbelow, hstored⟩ := h.delivered d hd
      exact ⟨hpublished, hbelow, fun hcache => hkept _ (hstored hcache)⟩
    · rw [List.mem_singleton.mp hd]
      refine ⟨hQ, hname, ?_⟩
      intro hcache
      rw [SVSyncShared.onDataValidated]
      dsimp only at hcache ⊢
      rw [if_pos hcache]
      exact List.mem_append_right _ List.mem_cons_self

/-- Only what the validator has accepted is delivered. -/
theorem fetchEvent (h : Serves cfg key Q published s) {e : FetchEvent SignedData}
    (hvalidator : cfg.securityOptions.hasValidator = true)
    (hbrings : Brings (Suits cfg key Q) s.fetcher e)
    (haccepts : ∀ id qi packet, e = .validated id →
      s.fetcher.validating.find? (·.1.id = id) = some (qi, packet) → key.Genuine packet) :
    Serves cfg key Q published (s.fetchEvent cfg e) := by
  have hfetched : Serves cfg key Q published
      { s with fetcher := (s.fetcher.step cfg.securityOptions e).1 } :=
    { h with validating := Vouched.step h.validating hbrings }
  rw [SVSyncShared.fetchEvent]
  dsimp only
  cases hended : (s.fetcher.step cfg.securityOptions e).2 with
  | none => exact hfetched
  | some r =>
    obtain ⟨p, outcome⟩ := r
    cases outcome with
    | satisfied packet =>
      have hends := (step_eq_some_iff cfg.securityOptions e s.fetcher p (.satisfied packet)).mp hended
      obtain ⟨hname, hpublished⟩ := Vouched.of_ends h.validating hbrings hends
      have hgenuine : key.Genuine packet := by
        cases hends with
        | data hnone =>
          rw [hvalidator] at hnone
          cases hnone
        | validated hfind => exact haccepts _ _ _ rfl hfind
      exact hfetched.onDataValidated (hpublished hgenuine) hname
    | nacked | timedOut | invalid => exact hfetched

end Serves

namespace SVSyncShared

variable {cfg : SharedConfig} {s : SVSyncShared}

/-- The first Interest of a node, not to be repeated. -/
def firstInterest (cfg : SharedConfig) (p : Publication) : QueuedInterest Publication :=
  ⟨1, p, 0, cfg.securityOptions.nRetriesOnValidationFail⟩

theorem fetcher_fetchData (hfresh : s.fetcher = {}) (p : Publication) :
    (s.fetchData cfg p 0).fetcher =
      { interestIdCounter := 1, pendingInterests := [firstInterest cfg p], expressed := [firstInterest cfg p] } := by
  rw [fetchData, hfresh]
  rfl

/-- The Data for it is given to the validator. -/
theorem fetchEvent_data (hvalidator : cfg.securityOptions.hasValidator = true) (hfresh : s.fetcher = {})
    (p : Publication) (packet : SignedData) :
    (s.fetchData cfg p 0).fetchEvent cfg (.data 1 packet) =
      { s with fetcher :=
          { interestIdCounter := 1, validating := [(firstInterest cfg p, packet)]
            expressed := [firstInterest cfg p] } } := by
  have hstep : (s.fetchData cfg p 0).fetcher.step cfg.securityOptions (.data 1 packet) =
      ({ interestIdCounter := 1, validating := [(firstInterest cfg p, packet)]
         expressed := [firstInterest cfg p] }, none) := by
    rw [fetcher_fetchData hfresh]
    show onData cfg.securityOptions packet (firstInterest cfg p) _ = _
    rw [onData, if_pos hvalidator]
    rfl
  rw [fetchEvent, hstep]
  rfl

end SVSyncShared

namespace SharedGroup

variable {ι : Type*} {P : Platform} {cfg : ι → SharedConfig} {key : DataKey ι}
  {s s' : SharedGroup ι} {grpPrefix : Name}

/-- What the nodes have, and what is in flight. -/
structure Sound (cfg : ι → SharedConfig) (key : DataKey ι) (s : SharedGroup ι) : Prop where
  nodes : ∀ i, Serves (cfg i) key s.Published (s.published i) (s.nodes i)
  flight : ∀ packet ∈ s.flight, key.Genuine packet → s.Published packet.data

theorem Sound.send (h : Sound cfg key s) {packet : SignedData}
    (hpacket : key.Genuine packet → s.Published packet.data) :
    Sound cfg key { s with flight := s.flight ++ [packet] } where
  nodes := h.nodes
  flight := by
    intro other hother
    rcases List.mem_append.mp hother with hother | hother
    · exact h.flight other hother
    · rw [List.mem_singleton.mp hother]
      exact hpacket

variable [DecidableEq ι]

theorem Sound.setNode (h : Sound cfg key s) {i : ι} {node : SVSyncShared}
    (hnode : Serves (cfg i) key s.Published (s.published i) node) : Sound cfg key (s.setNode i node) where
  nodes := by
    intro j
    by_cases hj : j = i
    · subst hj
      dsimp only [SharedGroup.setNode]
      rw [Function.update_self]
      exact hnode
    · dsimp only [SharedGroup.setNode]
      rw [Function.update_of_ne hj]
      exact h.nodes j
  flight := h.flight

theorem Sound.step (hvalidator : ∀ i, (cfg i).securityOptions.hasValidator = true) (h : Sound cfg key s)
    (hstep : Step P cfg key s s') : Sound cfg key s' := by
  cases hstep with
  | publish i m content contentType packet node hwrap hpublish =>
    -- one packet more has been published
    have hmore : ∀ d, s.Published d → ∃ j seq, (seq, d) ∈ Function.update s.published i
        (s.published i ++ [(Core.nextSeqNo (cfg i).core EMPTY_NODE_ID (s.nodes i).core, packet.data)]) j := by
      rintro d ⟨j, seq, hd⟩
      refine ⟨j, seq, ?_⟩
      by_cases hj : j = i
      · subst hj
        rw [Function.update_self]
        exact List.mem_append_left _ hd
      · rw [Function.update_of_ne hj]
        exact hd
    have hnew : ∃ j seq, (seq, packet.data) ∈ Function.update s.published i
        (s.published i ++ [(Core.nextSeqNo (cfg i).core EMPTY_NODE_ID (s.nodes i).core, packet.data)]) j := by
      refine ⟨i, Core.nextSeqNo (cfg i).core EMPTY_NODE_ID (s.nodes i).core, ?_⟩
      rw [Function.update_self]
      exact List.mem_append_right _ List.mem_cons_self
    constructor
    · intro j
      by_cases hj : j = i
      · subst hj
        dsimp only
        rw [Function.update_self, Function.update_self]
        exact ((h.nodes j).mono hmore).publish hwrap hpublish hnew
      · dsimp only
        rw [Function.update_of_ne hj, Function.update_of_ne hj]
        exact (h.nodes j).mono hmore
    · intro other hother hgenuine
      rcases List.mem_append.mp hother with hother | hother
      · exact hmore _ (h.flight other hother hgenuine)
      · rw [List.mem_singleton.mp hother]
        exact hnew
  | sync i m e he => exact h.setNode ((h.nodes i).sync P m he)
  | setCacheAll i val => exact h.setNode { h.nodes i with }
  | fetchData i p nRetries => exact h.setNode ((h.nodes i).fetchData p nRetries)
  | put i packet hpacket => exact h.send fun _ => (h.nodes i).stored packet hpacket
  | fetchEvent i e harrives haccepts =>
    refine h.setNode ((h.nodes i).fetchEvent (hvalidator i) ?_ haccepts)
    rintro id packet qi rfl hfind
    obtain ⟨hflight, hname⟩ := harrives id packet rfl
    exact ⟨hname qi hfind, h.flight packet hflight⟩
  | inject packet hforged => exact h.send hforged
  | lose flight hflight =>
    exact ⟨h.nodes, fun packet hpacket => h.flight packet (hflight.subset hpacket)⟩

theorem sound_of_reachable (hvalidator : ∀ i, (cfg i).securityOptions.hasValidator = true)
    (h : Reachable P cfg key s) : Sound cfg key s := by
  induction h with
  | init uninitialized =>
    exact ⟨fun i => Serves.init (uninitialized i), fun packet hpacket => absurd hpacket List.not_mem_nil⟩
  | step _ hstep ih => exact ih.step hvalidator hstep

/-- Where every node has a validator, whatever others send: a store holds packets that have
    been published, all of its own node among them, and all that were delivered while it cached.
    So a packet can be had from all who have cached it, also when its producer is gone. -/
theorem stores_published (hvalidator : ∀ i, (cfg i).securityOptions.hasValidator = true)
    (h : Reachable P cfg key s) (i : ι) :
    (∀ packet ∈ (s.nodes i).dataStore, s.Published packet.data) ∧
      (∀ x ∈ s.published i, ∃ packet ∈ (s.nodes i).dataStore, packet.data = x.2) ∧
      ∀ d ∈ (s.nodes i).delivered, d.cacheAll = true → d.packet ∈ (s.nodes i).dataStore := by
  have hnode := (sound_of_reachable hvalidator h).nodes i
  exact ⟨hnode.stored, hnode.own, fun d hd => (hnode.delivered d hd).2.2⟩

/-! ## A packet that outlives its producer -/

/-- A packet in flight arrives. -/
theorem Reachable.arrive (h : Reachable P cfg key s) (i : ι) (id : ℕ) {packet : SignedData}
    (hflight : packet ∈ s.flight)
    (hname : ((s.nodes i).fetcher.pendingInterests.find? (·.id = id)).all
      (fun qi => ((cfg i).getDataName qi.request).isPrefixOf packet.data.name) = true) :
    Reachable P cfg key (s.setNode i ((s.nodes i).fetchEvent (cfg i) (.data id packet))) := by
  refine h.step (.fetchEvent i _ ?_ ?_)
  · intro id' packet' heq
    obtain ⟨rfl, rfl⟩ := FetchEvent.data.inj heq
    exact ⟨hflight, fun qi hfind => Option.all_eq_true _ _ |>.mp hname qi hfind⟩
  · intro id' qi packet' heq
    cases heq

/-- The validator accepts a genuine packet. -/
theorem Reachable.accept (h : Reachable P cfg key s) (i : ι) (id : ℕ) {packet : SignedData}
    (hgenuine : key.Genuine packet)
    (hfind : ((s.nodes i).fetcher.validating.find? (·.1.id = id)).all (·.2 = packet) = true) :
    Reachable P cfg key (s.setNode i ((s.nodes i).fetchEvent (cfg i) (.validated id))) := by
  refine h.step (.fetchEvent i _ ?_ ?_)
  · intro id' packet' heq
    cases heq
  · intro id' qi packet' heq hfind'
    obtain rfl := FetchEvent.validated.inj heq
    have hpacket := Option.all_eq_true _ _ |>.mp hfind _ hfind'
    obtain rfl : packet' = packet := of_decide_eq_true hpacket
    exact hgenuine

/-- Nodes `/a`, `/c` and `/e`. -/
def trio (i : Fin 3) : SharedConfig where
  core := { id := .ofBytes [[97 + 2 * .ofNat i.val]] }
  grpPrefix := .ofBytes [[103]]
  securityOptions := { hasValidator := true }

/-- A byte before the content stands for the signature. -/
def trioKey : DataKey (Fin 3) where
  sign _ d := 1 :: d.content
  Genuine packet := packet.signature = 1 :: packet.data.content

/-- The first packet of `/a`. -/
def trioPacket : SignedData :=
  ⟨{ name := .ofBytes [[103], [100], [97], [1]], content := [42] }, [1, 42]⟩

/-- What somebody else would like it to be. -/
def trioForged : SignedData := { trioPacket with signature := [0] }

theorem sharers_trio : Sharers trio (.ofBytes [[103]]) where
  grpPrefix _ := rfl
  id_injective := by decide
  validator _ := rfl

theorem separate_trio : Separate trio := by
  intro i j seq
  rw [← Bool.not_eq_true, Name.isPrefixOf, List.isPrefixOf_iff_prefix]
  intro hstart
  have hlength := hstart.length_le
  simp [trio, Name.appendNumber, Codec.packetFormat, Name.ofBytes] at hlength

/-- `/c` caches the packet of `/a`, and `/e` gets it from there. -/
theorem stores_published_trio :
    ∃ s, Reachable .plain trio trioKey s ∧ trioForged ∈ s.flight ∧
      (s.nodes 2).delivered = [⟨⟨.ofBytes [[97]], 1⟩, trioPacket, false⟩] ∧
      trioPacket ∈ (s.nodes 1).dataStore := by
  have hinit : Reachable .plain trio trioKey (init trio fun _ => 0) := .init _
  have hpublished := hinit.step (.publish 0 (.atMs 1) [42] 0 trioPacket _ (by decide) rfl)
  have hasked := (hpublished.step (.setCacheAll 1 true)).step (.fetchData 1 ⟨.ofBytes [[97]], 1⟩ 0)
  have hgenuine : trioKey.Genuine trioPacket := rfl
  have hforged : ¬trioKey.Genuine trioForged :=
    fun hgenuine => absurd (List.cons.inj hgenuine).1 (by decide)
  have hcached := (hasked.arrive 1 1 (List.mem_singleton_self trioPacket) (by decide)).accept 1 1
    hgenuine (by decide)
  -- all that `/a` has sent is lost
  have hlost := hcached.step (.lose [] (List.nil_sublist _))
  have hserved := (hlost.step (.put 1 trioPacket (by decide))).step
    (.inject trioForged fun hgenuine => absurd hgenuine hforged)
  have hfetched := ((hserved.step (.fetchData 2 ⟨.ofBytes [[97]], 1⟩ 0)).arrive 2 1
    (List.mem_cons_self (a := trioPacket)) (by decide)).accept 2 1 hgenuine (by decide)
  obtain ⟨-, -, hstored⟩ := stores_published (fun _ => rfl) hfetched 1
  exact ⟨_, hfetched, by decide, by decide,
    hstored ⟨⟨.ofBytes [[97]], 1⟩, trioPacket, true⟩ (by decide) rfl⟩

/-! ## Agreement -/

/-- What is delivered for a publication of a node is the one packet that this node has published
    under the number. -/
def Agrees (cfg : ι → SharedConfig) (s : SharedGroup ι) : Prop :=
  ∀ i, ∀ d ∈ (s.nodes i).delivered, ∀ j, d.publication.nodeId = (cfg j).core.id →
    ∀ data, (d.publication.seqNo, data) ∈ s.published j ↔ data = d.packet.data

theorem agrees_of_separate (hcfg : Sharers cfg grpPrefix) (hseparate : Separate cfg)
    (h : Reachable P cfg key s) : Agrees cfg s := by
  intro i d hd j hj
  have hsound := sound_of_reachable hcfg.validator h
  obtain ⟨⟨k, seq, hpublished⟩, hname, -⟩ := (hsound.nodes i).delivered d hd
  -- the name of the packet is that of the publication
  have hpacket := (hsound.nodes k).names _ hpublished
  have hpublication : d.publication = ⟨(cfg j).core.id, d.publication.seqNo⟩ := by rw [← hj]
  rw [hpacket, hpublication] at hname
  obtain ⟨rfl, hseq⟩ := hcfg.publication_inj hseparate hname
  rw [hseq]
  intro data
  constructor
  · -- numbers are given once
    intro hdata
    exact congrArg Prod.snd (List.inj_on_of_nodup_map (hsound.nodes j).nodup hdata hpublished rfl)
  · rintro rfl
    exact hpublished

theorem nodes_setNode (i : ι) (node : SVSyncShared) (s : SharedGroup ι) :
    (s.setNode i node).nodes i = node := by
  simp [setNode]

/-- A node that has fetched nothing yet may be delivered whatever suits its Interest. -/
theorem Reachable.exists_delivered (h : Reachable P cfg key s) {j : ι}
    (hvalidator : (cfg j).securityOptions.hasValidator = true) (hfresh : (s.nodes j).fetcher = {})
    {packet : SignedData} (hflight : packet ∈ s.flight) (hgenuine : key.Genuine packet) {p : Publication}
    (hname : ((cfg j).getDataName p).isPrefixOf packet.data.name = true) :
    ∃ s', Reachable P cfg key s' ∧ s'.published = s.published ∧
      ⟨p, packet, (s.nodes j).cacheAll⟩ ∈ (s'.nodes j).delivered := by
  have hasked := h.step (.fetchData j p 0)
  have harrived := hasked.arrive j 1 hflight (by
    rw [nodes_setNode, SVSyncShared.fetcher_fetchData hfresh]
    simpa [SVSyncShared.firstInterest] using hname)
  rw [nodes_setNode, SVSyncShared.fetchEvent_data hvalidator hfresh] at harrived
  have haccepted := harrived.accept j 1 hgenuine (by
    rw [nodes_setNode]
    simp [SVSyncShared.firstInterest])
  refine ⟨_, haccepted, rfl, ?_⟩
  rw [nodes_setNode, nodes_setNode]
  exact List.mem_append_right _ List.mem_cons_self

end SharedGroup

end Svs
