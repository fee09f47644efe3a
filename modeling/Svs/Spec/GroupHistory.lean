import Svs.Spec.Faithful
import Svs.Spec.Publications

/-!
# What a group has published

The calls of `publish` so far say what the publications are mapped to, what they consist of,
and which Data there can be.

## Key results

- `Genuine.outer`: the Data for an Interest of `fetchData`
- `Genuine.replies`: the Data for a mapping query
- `reassembles`: what a `SegmentFetcher` completes with
-/

namespace Svs.Group

open Std Publisher

variable {ι : Type*} {cfg : ι → PublisherConfig} {syncPrefix : Name} {g g' : Group ι}

/-- The publication is a call of the node. -/
def Publishes (cfg : ι → PublisherConfig) (g : Group ι) (i : ι) (p : Publication) (call : PublishCall) :
    Prop :=
  p.nodeId = (cfg i).core.id ∧ ∃ k, p.seqNo.toNat = k + 1 ∧ (g.published i)[k]? = some call

/-- All calls so far are as callers make them. -/
def WellFormed (cfg : ι → PublisherConfig) (g : Group ι) : Prop :=
  ∀ i, ∀ call ∈ g.published i, call.WellFormed cfg i

/-- Nothing that has been published goes away. -/
def Grows (g g' : Group ι) : Prop := ∀ i, g.published i <+: g'.published i

theorem Grows.refl (g : Group ι) : g.Grows g := fun _ => List.prefix_refl _

theorem Publishes.mono {i : ι} {p : Publication} {call : PublishCall} (h : g.Publishes cfg i p call)
    (hg : g.Grows g') : g'.Publishes cfg i p call := by
  obtain ⟨hnode, k, hk, hcall⟩ := h
  refine ⟨hnode, k, hk, ?_⟩
  obtain ⟨rest, hrest⟩ := hg i
  rw [← hrest, List.getElem?_append_left (List.getElem?_eq_some_iff.mp hcall).1]
  exact hcall

theorem Publishes.mem {i : ι} {p : Publication} {call : PublishCall} (h : g.Publishes cfg i p call) :
    call ∈ g.published i := by
  obtain ⟨-, k, -, hcall⟩ := h
  exact List.mem_of_getElem? hcall

/-- A publication is one call. -/
theorem Publishes.unique (hcfg : Members cfg syncPrefix) {i j : ι} {p : Publication}
    {call call' : PublishCall} (h : g.Publishes cfg i p call) (h' : g.Publishes cfg j p call') :
    i = j ∧ call = call' := by
  obtain ⟨hnode, k, hk, hcall⟩ := h
  obtain ⟨hnode', k', hk', hcall'⟩ := h'
  obtain rfl := hcfg.id_injective (hnode.symm.trans hnode')
  obtain rfl : k = k' := Nat.succ.inj (hk.symm.trans hk')
  exact ⟨rfl, Option.some.inj (hcall.symm.trans hcall')⟩

theorem WellFormed.of_grows (h : g'.WellFormed cfg) (hg : g.Grows g') : g.WellFormed cfg :=
  fun i call hcall => h i call ((hg i).subset hcall)

/-! ## What is said about publications -/

/-- What the publications are mapped to. -/
def atlas (hcfg : Members cfg syncPrefix) (g : Group ι) (hwf : g.WellFormed cfg) : Atlas where
  ids := Set.range fun i => (cfg i).core.id
  maps p mapping := ∃ i call, g.Publishes cfg i p call ∧
    (mapping = call.mapping (cfg i) ∨
      mapping = { call.mapping (cfg i) with blocks := (call.mapping (cfg i)).blocks.reverse })
  id_valid := by
    rintro nid ⟨i, rfl⟩
    exact hcfg.id_valid i
  id_ne := by
    rintro nid ⟨i, rfl⟩
    exact hcfg.id_ne i
  nodeId := by
    rintro p mapping ⟨i, call, hp, -⟩
    exact ⟨i, hp.1.symm⟩
  name_valid := by
    rintro p mapping ⟨i, call, hp, rfl | rfl⟩ <;> exact (hwf i call hp.mem).name_valid
  types := by
    have htypes : ∀ i, ∀ call ∈ g.published i, ∀ b ∈ (call.mapping (cfg i)).blocks,
        0 < b.type ∧ b.type < 2 ^ 32 := by
      intro i call hcall b hb
      have hcaller : ∀ b ∈ (if call.IsLarge then call.mappingBlocks else []), 0 < b.type ∧ b.type < 2 ^ 32 := by
        intro b hb
        split at hb
        · exact (hwf i call hcall).types b hb
        · exact absurd hb List.not_mem_nil
      rw [PublishCall.mapping, PubSub.insertedMapping] at hb
      dsimp only at hb
      split at hb
      · rcases List.mem_append.mp hb with hb | hb
        · exact hcaller b hb
        · -- the time stamp
          rw [List.mem_singleton.mp hb]
          exact ⟨(by decide : 0 < tlv.TimestampNameComponent), (by decide : tlv.TimestampNameComponent < 2 ^ 32)⟩
      · exact hcaller b hb
    rintro p mapping ⟨i, call, hp, rfl | rfl⟩ b hb
    · exact htypes i call hp.mem b hb
    · exact htypes i call hp.mem b (List.mem_reverse.mp hb)
  reverse := by
    rintro p mapping ⟨i, call, hp, rfl | rfl⟩
    · exact ⟨i, call, hp, Or.inr rfl⟩
    · refine ⟨i, call, hp, Or.inl ?_⟩
      rw [List.reverse_reverse]

/-- What the publications consist of. -/
def origin (cfg : ι → PublisherConfig) (syncPrefix : Name) (g : Group ι) : PubSub.Origin where
  known p := p.nodeId ∈ Set.range fun i => (cfg i).core.id
  holds p x := ∃ i call, g.Publishes cfg i p call ∧ x = call.parcel
  dataName := PubSub.getDataName syncPrefix

theorem atlas_mono {hcfg : Members cfg syncPrefix} {hwf : g.WellFormed cfg} {hwf' : g'.WellFormed cfg}
    (hg : g.Grows g') (p : Publication) (mapping : MappingEntryPair)
    (h : (atlas hcfg g hwf).maps p mapping) : (atlas hcfg g' hwf').maps p mapping := by
  obtain ⟨i, call, hp, hmapping⟩ := h
  exact ⟨i, call, hp.mono hg, hmapping⟩

theorem origin_mono (hg : g.Grows g') (p : Publication) (x : Parcel)
    (h : (origin cfg syncPrefix g).holds p x) : (origin cfg syncPrefix g').holds p x := by
  obtain ⟨i, call, hp, hx⟩ := h
  exact ⟨i, call, hp.mono hg, hx⟩

/-! ## Data -/

/-- Data that can be in flight: a stored packet, or an answer out of a store that keeps to
    the mappings. -/
inductive Genuine (cfg : ι → PublisherConfig) (A : Atlas) (g : Group ι) (d : Data) : Prop
  | packet {i : ι} {p : Publication} {call : PublishCall} (hp : g.Publishes cfg i p call)
      (hd : d ∈ call.outers (cfg i) p)
  | mappings {i : ι} {uninitialized : UInt64} {store : MappingStore} (hstore : A.OfStore store)
      (hfilter : (((cfg i).core.id.append (cfg i).syncPrefix).append MappingProvider.MAPPING).isPrefixOf d.name)
      (hd : MappingProvider.onMappingQuery (cfg i).syncPrefix uninitialized d.name store memoryLimit =
        some (some d))
      (hfits : d.content.length < 2 ^ 64)

variable {A A' : Atlas} {d : Data}

theorem Genuine.mono (h : Genuine cfg A g d) (hg : g.Grows g')
    (hmaps : ∀ p mapping, A.maps p mapping → A'.maps p mapping) : Genuine cfg A' g' d := by
  cases h with
  | packet hp hd => exact .packet (hp.mono hg) hd
  | mappings hstore hfilter hd hfits =>
    exact .mappings (fun p mapping hp => hmaps p mapping (hstore p mapping hp)) hfilter hd hfits

/-- Under a data name there are the packets of its publication only. -/
theorem Genuine.of_dataName (h : Genuine cfg A g d) (hcfg : Members cfg syncPrefix) {i : ι} {s : SeqNo}
    (hname : (PubSub.getDataName syncPrefix ⟨(cfg i).core.id, s⟩).components <+: d.name.components) :
    ∃ call, g.Publishes cfg i ⟨(cfg i).core.id, s⟩ call ∧
      d ∈ call.outers (cfg i) ⟨(cfg i).core.id, s⟩ := by
  cases h with
  | @packet j p call hp hd =>
    obtain ⟨nodeId, s'⟩ := p
    obtain rfl : nodeId = (cfg j).core.id := hp.1
    have hname' := PublishCall.dataName_prefix hd
    rw [hcfg.syncPrefix j] at hname'
    obtain ⟨rfl, rfl⟩ := hcfg.publication_inj hname hname'
    exact ⟨call, hp, hd⟩
  | @mappings j uninitialized store hstore hfilter hd hfits =>
    rw [hcfg.syncPrefix j] at hfilter
    exact (hcfg.not_mapping hname (List.isPrefixOf_iff_prefix.mp hfilter)).elim

/-- Data that is taken for a publication is a packet of it. -/
theorem Genuine.outer (h : Genuine cfg A g d) (hcfg : Members cfg syncPrefix) (hwf : g.WellFormed cfg)
    {p : Publication} (hknown : (origin cfg syncPrefix g).known p)
    (hname : (PubSub.getDataName syncPrefix p).isPrefixOf d.name = true) (j : ι) :
    ∃ x inner, (origin cfg syncPrefix g).holds p x ∧
      (origin cfg syncPrefix g).Outer (cfg j).pubSub p x d inner := by
  obtain ⟨nodeId, s⟩ := p
  obtain ⟨i, rfl⟩ := hknown
  obtain ⟨call, hp, hd⟩ := h.of_dataName hcfg (List.isPrefixOf_iff_prefix.mp hname)
  have hdataName : (origin cfg syncPrefix g).dataName ⟨(cfg i).core.id, s⟩ =
      PubSub.getDataName (cfg i).syncPrefix ⟨(cfg i).core.id, s⟩ := by
    rw [hcfg.syncPrefix i]
    rfl
  obtain ⟨inner, houter⟩ := (hwf i call hp.mem).outer hdataName hd j
  exact ⟨call.parcel, inner, ⟨i, call, hp, rfl⟩, houter⟩

/-- Data that is taken for a mapping query answers it. -/
theorem Genuine.replies (h : Genuine cfg A g d) (hcfg : Members cfg syncPrefix)
    (hids : A.ids = Set.range fun i => (cfg i).core.id) {query : MissingDataInfo} (hquery : query.nodeId ∈ A.ids)
    (hname : d.name = MappingProvider.getMappingQueryDataName syncPrefix query) : A.Replies query d := by
  cases h with
  | @packet i p call hp hd =>
    -- the name of a query is under the filter of its node
    have hid := hquery
    rw [hids] at hid
    obtain ⟨j, hj⟩ := hid
    obtain ⟨nodeId, s⟩ := p
    obtain rfl : nodeId = (cfg i).core.id := hp.1
    have hname' := PublishCall.dataName_prefix hd
    rw [hcfg.syncPrefix i] at hname'
    refine (hcfg.not_mapping (j := j) hname' ?_).elim
    have hj : (cfg j).core.id = query.nodeId := hj
    rw [hname, hj]
    exact (List.prefix_append _ _).trans (List.prefix_append _ _)
  | @mappings i uninitialized store hstore hfilter hd hfits =>
    rw [hcfg.syncPrefix i, hname] at hd
    have hresponse := MappingProvider.onMappingQuery_memoryLimit syncPrefix uninitialized query store
    rw [hd] at hresponse
    obtain ⟨response, hsome, hdata⟩ := Option.map_eq_some_iff.mp hresponse.symm
    have hcontent : d.content = response.encode := by rw [← hdata]
    rw [hcontent] at hfits
    exact ⟨hquery, store, response, hstore, hsome, hfits, hcontent⟩

/-- What a `SegmentFetcher` completes with is all packets of the publication. -/
theorem reassembles {flight : List Data} (hflight : ∀ d ∈ flight, Genuine cfg A g d)
    (hcfg : Members cfg syncPrefix) (hwf : g.WellFormed cfg) {p : Publication}
    (hknown : (origin cfg syncPrefix g).known p) {bytes : List UInt8}
    (hbytes : Reassembled flight (PubSub.getDataName syncPrefix p) bytes) (j : ι) :
    (origin cfg syncPrefix g).Reassembles (cfg j).pubSub p bytes := by
  rintro x ⟨i, call, hp, rfl⟩ -
  obtain ⟨nodeId, s⟩ := p
  obtain rfl : nodeId = (cfg i).core.id := hp.1
  obtain ⟨version, segments, hlength, hsegments, hfinal, rfl⟩ := hbytes
  have hall : segments = call.outers (cfg i) ⟨(cfg i).core.id, s⟩ := by
    apply (hwf i call hp.mem).segments_eq hlength
    · intro k d hk
      obtain ⟨hd, hname⟩ := hsegments k d hk
      rw [hcfg.syncPrefix i]
      refine ⟨?_, hname⟩
      have hpre : (PubSub.getDataName syncPrefix ⟨(cfg i).core.id, s⟩).components <+: d.name.components := by
        rw [hname]
        exact List.prefix_append _ _
      obtain ⟨call', hp', hd'⟩ := (hflight d hd).of_dataName hcfg hpre
      obtain ⟨-, rfl⟩ := hp.unique hcfg hp'
      exact hd'
    · obtain ⟨d, hd, hdfinal⟩ := hfinal
      exact ⟨d, hd, hdfinal⟩
  rw [hall]
  exact (hwf i call hp.mem).reassembled ⟨(cfg i).core.id, s⟩ j

end Svs.Group
