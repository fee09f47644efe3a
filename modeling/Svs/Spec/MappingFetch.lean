import Svs.Native.MappingQuery
import Svs.Spec.StoredMappings
import Svs.Spec.UpdateActions

/-!
# Fetching mappings

A query names a node and a range of its sequence numbers.  The provider answers when it
has the mappings of the whole range, and the requester adds those that it does not have.

## Key results

- `parse_getMappingQueryDataName`: the name of a query tells the query
- `onMappingQuery_spec`: what the provider answers
- `mapping_fetch`: query, answer and what the requester makes of it
-/

namespace Svs

open Std

/-! ## Names -/

namespace Name

theorem get_neg_one (cs : List Component) (c : Component) : get ⟨cs ++ [c]⟩ (-1) = some c := by
  show (if _ then none else _) = some c
  simp

theorem get_neg_two (cs : List Component) (c c' : Component) :
    get ⟨cs ++ [c] ++ [c']⟩ (-2) = some c := by
  show (if _ then none else _) = some c
  simp

/-- A prefix that leaves components out at the end. -/
theorem getPrefix_append (cs cs' : List Component) {k : Nat} (h : cs'.length = k + 1) :
    getPrefix ⟨cs ++ cs'⟩ (Int.negSucc k) = ⟨cs⟩ := by
  have hlength : (cs ++ cs').length = cs.length + (k + 1) := by rw [List.length_append, h]
  rw [getPrefix]
  dsimp only
  rw [if_neg (by omega), hlength, Nat.add_sub_cancel, List.take_left]

end Name

theorem Component.toNumber_integerBytes (i : UInt64) :
    Component.toNumber ⟨8, Codec.integerBytes i⟩ = some i :=
  Codec.readNonNegativeInteger_integerBytes 8 i

namespace MappingProvider

/-- The parser gets back what the name was made from. -/
theorem parse_getMappingQueryDataName (syncPrefix : Name) (uninitialized : UInt64)
    (info : MissingDataInfo) :
    parseMappingQueryDataName syncPrefix uninitialized (getMappingQueryDataName syncPrefix info) =
      some { info with incomingFace := uninitialized } := by
  let low : Component := ⟨8, Codec.integerBytes info.low⟩
  let high : Component := ⟨8, Codec.integerBytes info.high⟩
  have hname : getMappingQueryDataName syncPrefix info =
      ⟨info.nodeId.components ++ syncPrefix.components ++ MAPPING.components ++ [low] ++ [high]⟩ := rfl
  have hprefix : (getMappingQueryDataName syncPrefix info).getPrefix
      (-3 - (syncPrefix.components.length : Int)) = info.nodeId := by
    have hindex : (-3 - (syncPrefix.components.length : Int)) =
        Int.negSucc (syncPrefix.components.length + 2) := by
      rw [Int.negSucc_eq]
      omega
    rw [hname, hindex, List.append_assoc, List.append_assoc, List.append_assoc]
    exact Name.getPrefix_append info.nodeId.components _ (by simp [MAPPING, Name.ofBytes])
  have hlow : (getMappingQueryDataName syncPrefix info).get (-2) = some low := by
    rw [hname, Name.get_neg_two]
  have hhigh : (getMappingQueryDataName syncPrefix info).get (-1) = some high := by
    rw [hname, Name.get_neg_one]
  simp only [parseMappingQueryDataName, hprefix, hlow, hhigh, low, high, bind, Option.bind,
    Component.toNumber_integerBytes, pure]

end MappingProvider

/-! ## The provider -/

namespace MappingStore

variable {query : MissingDataInfo} {store : MappingStore}

/-- The publication has a mapping. -/
def Maps (store : MappingStore) (nodeId : NodeID) (seqNo : SeqNo) : Prop :=
  ∃ mapping, store.getMapping ⟨nodeId, seqNo⟩ = some mapping

/-- The response has the mappings of the query's numbers below `i`. -/
structure Responds (query : MissingDataInfo) (store : MappingStore) (i : SeqNo)
    (response : MappingList) : Prop where
  nodeId : response.nodeId = query.nodeId
  low_le : query.low ≤ i
  found : ∀ x ∈ response.pairs, query.low ≤ x.1 ∧ x.1 ≤ query.high ∧
    store.getMapping ⟨query.nodeId, x.1⟩ = some x.2
  all : ∀ j, query.low ≤ j → j < i → j ∈ response.pairs.map (·.1)

/-- The state of the loop: a response so far, or a mapping is missing. -/
def QueryState (query : MissingDataInfo) (store : MappingStore) (x : SeqNo × Option MappingList) :
    Prop :=
  match x.2 with
  | some response => Responds query store x.1 response
  | none => ∃ i, query.low ≤ i ∧ i ≤ query.high ∧ ¬store.Maps query.nodeId i

/-- How many rounds are left at most. -/
def roundsLeft (query : MissingDataInfo) (x : SeqNo × Option MappingList) : Nat :=
  match x.2 with
  | some _ => query.high.toNat + 2 - x.1.toNat
  | none => 0

/-- A round that finds a mapping adds it to the response. -/
theorem Responds.concat {i : SeqNo} {response : MappingList} {mapping : MappingEntryPair}
    (h : Responds query store i response) (hi : i ≤ query.high)
    (hsucc : (i + 1).toNat = i.toNat + 1)
    (hmapping : store.getMapping ⟨query.nodeId, i⟩ = some mapping) :
    Responds query store (i + 1) { response with pairs := response.pairs ++ [(i, mapping)] } where
  nodeId := h.nodeId
  low_le := by
    have hlow : query.low.toNat ≤ i.toNat := UInt64.le_iff_toNat_le.mp h.low_le
    rw [UInt64.le_iff_toNat_le, hsucc]
    omega
  found x hx := by
    rcases List.mem_append.mp hx with hx | hx
    · exact h.found x hx
    · obtain rfl := List.mem_singleton.mp hx
      exact ⟨h.low_le, hi, hmapping⟩
  all j hj hlt := by
    rw [UInt64.lt_iff_toNat_lt, hsucc] at hlt
    rw [List.map_append, List.mem_append]
    by_cases heq : j = i
    · -- the number of this round
      exact .inr (by simp [heq])
    · have hne : j.toNat ≠ i.toNat := fun hsame => heq (UInt64.toNat_inj.mp hsame)
      have hbelow : j < i := UInt64.lt_iff_toNat_lt.mpr (by omega)
      exact .inl (h.all j hj hbelow)

theorem onMappingQueryRound_spec (hle : query.low ≤ query.high) (hhigh : query.high.toNat < 2 ^ 64 - 1)
    {x y : SeqNo × Option MappingList} (hx : QueryState query store x)
    (hround : store.onMappingQueryRound query x = some y) :
    QueryState query store y ∧ roundsLeft query y < roundsLeft query x := by
  obtain ⟨i, response⟩ := x
  cases response with
  | none => simp [onMappingQueryRound] at hround
  | some response =>
    rw [onMappingQueryRound, MissingDataInfo.max_eq_of_le hle] at hround
    split at hround
    · next hi =>
      have hbound : i.toNat ≤ query.high.toNat := UInt64.le_iff_toNat_le.mp hi
      split at hround
      · next mapping hmapping =>
        obtain rfl := Option.some.inj hround
        have hsucc : (i + 1).toNat = i.toNat + 1 := Loop.toNat_add_one (by omega)
        refine ⟨Responds.concat hx hi hsucc hmapping, ?_⟩
        show query.high.toNat + 2 - (i + 1).toNat < query.high.toNat + 2 - i.toNat
        rw [hsucc]
        omega
      · next hnone =>
        -- the loop is left in the next round, without a response
        obtain rfl := Option.some.inj hround
        refine ⟨⟨i, Responds.low_le hx, hi, ?_⟩, ?_⟩
        · rintro ⟨mapping, hmapping⟩
          rw [hnone] at hmapping
          cases hmapping
        · show 0 < query.high.toNat + 2 - i.toNat
          omega
    · cases hround

/-- The response has the mappings of the whole query. -/
structure Answers (query : MissingDataInfo) (store : MappingStore) (response : MappingList) : Prop where
  nodeId : response.nodeId = query.nodeId
  found : ∀ x ∈ response.pairs, query.low ≤ x.1 ∧ x.1 ≤ query.high ∧
    store.getMapping ⟨query.nodeId, x.1⟩ = some x.2
  all : ∀ i, query.low ≤ i → i ≤ query.high → i ∈ response.pairs.map (·.1)

/-- The loop is left, with an answer or at a mapping that is missing. -/
theorem run_onMappingQueryRound (query : MissingDataInfo) (store : MappingStore)
    (hle : query.low ≤ query.high) (hhigh : query.high.toNat < 2 ^ 64 - 1) :
    (∃ rounds r, Loop.run (store.onMappingQueryRound query) rounds
      (query.low, some { nodeId := query.nodeId }) = some r) ∧
    ∀ rounds r, Loop.run (store.onMappingQueryRound query) rounds
        (query.low, some { nodeId := query.nodeId }) = some r →
      QueryState query store r ∧ ∀ response, r.2 = some response → Answers query store response := by
  have hinit : QueryState query store (query.low, some { nodeId := query.nodeId }) := by
    refine ⟨rfl, UInt64.le_refl _, nofun, ?_⟩
    intro j hlow hlt
    exact absurd hlt (UInt64.not_lt.mpr hlow)
  have hround : ∀ x y, QueryState query store x → store.onMappingQueryRound query x = some y →
      QueryState query store y ∧ roundsLeft query y < roundsLeft query x :=
    fun x y hx hxy => onMappingQueryRound_spec hle hhigh hx hxy
  refine ⟨Loop.exists_run (roundsLeft query) hinit hround, ?_⟩
  intro rounds r hrun
  obtain ⟨hstate, hleft⟩ :=
    Loop.run_invariant hrun hinit fun x y hx hxy => (hround x y hx hxy).1
  refine ⟨hstate, ?_⟩
  intro response hresponse
  obtain ⟨i, list⟩ := r
  subst hresponse
  refine ⟨hstate.nodeId, hstate.found, ?_⟩
  intro j hlow hj
  apply hstate.all j hlow
  -- the loop is left above the last number
  rw [onMappingQueryRound] at hleft
  split at hleft
  · split at hleft <;> cases hleft
  · next hi =>
    rw [MissingDataInfo.max_eq_of_le hle, UInt64.not_le] at hi
    exact UInt64.lt_of_le_of_lt hj hi

end MappingStore

namespace MappingProvider

open MappingStore

variable {syncPrefix : Name} {uninitialized : UInt64} {info : MissingDataInfo} {store : MappingStore}

/-- Within the rounds that fit into memory this is the query of a run. -/
theorem onMappingQuery_memoryLimit (syncPrefix : Name) (uninitialized : UInt64)
    (info : MissingDataInfo) (store : MappingStore) :
    (onMappingQuery syncPrefix uninitialized (getMappingQueryDataName syncPrefix info) store
      memoryLimit).join =
      (store.onMappingQuery { info with incomingFace := uninitialized }).map fun queryResponse =>
        { name := getMappingQueryDataName syncPrefix info, content := queryResponse.encode } := by
  simp only [onMappingQuery, parse_getMappingQueryDataName, MappingStore.onMappingQuery, bind,
    Option.bind]
  cases Loop.run (store.onMappingQueryRound { info with incomingFace := uninitialized }) memoryLimit
      (info.low, some { nodeId := info.nodeId }) with
  | none => rfl
  | some r =>
    obtain ⟨i, list⟩ := r
    cases list with
    | none => rfl
    | some response => by_cases hnil : response.pairs = [] <;> simp [hnil]

/-- The provider comes to an answer: nothing, since a mapping is missing, or a Data with
    the mappings of the whole query. -/
theorem onMappingQuery_spec (syncPrefix : Name) (uninitialized : UInt64) (store : MappingStore)
    (hle : info.low ≤ info.high) (hhigh : info.high.toNat < 2 ^ 64 - 1) :
    (∃ rounds answer, onMappingQuery syncPrefix uninitialized
      (getMappingQueryDataName syncPrefix info) store rounds = some answer) ∧
    ∀ rounds answer, onMappingQuery syncPrefix uninitialized
        (getMappingQueryDataName syncPrefix info) store rounds = some answer →
      (answer = none ∧ ∃ i, info.low ≤ i ∧ i ≤ info.high ∧ ¬store.Maps info.nodeId i) ∨
        ∃ response, Answers info store response ∧ answer = some
          { name := getMappingQueryDataName syncPrefix info, content := response.encode } := by
  obtain ⟨⟨rounds, r, hrun⟩, hstate⟩ :=
    run_onMappingQueryRound { info with incomingFace := uninitialized } store hle hhigh
  simp only [onMappingQuery, parse_getMappingQueryDataName, bind, Option.bind]
  constructor
  · exact ⟨rounds, _, by rw [hrun]; rfl⟩
  · intro rounds answer hanswer
    cases hrun' : Loop.run (store.onMappingQueryRound { info with incomingFace := uninitialized }) rounds
        (info.low, some { nodeId := info.nodeId }) with
    | none =>
      rw [hrun'] at hanswer
      cases hanswer
    | some r =>
      rw [hrun'] at hanswer
      obtain rfl := Option.some.inj hanswer
      obtain ⟨hquery, hanswers⟩ := hstate rounds r hrun'
      obtain ⟨i, list⟩ := r
      cases list with
      | none => exact .inl ⟨rfl, hquery⟩
      | some response =>
        obtain ⟨hnode, hfound, hall⟩ := hanswers response rfl
        refine .inr ⟨response, ⟨hnode, hfound, hall⟩, ?_⟩
        have hne : response.pairs ≠ [] := by
          intro hnil
          have hlow := hall info.low (UInt64.le_refl _) hle
          rw [hnil] at hlow
          exact List.not_mem_nil hlow
        simp [Option.filter, hne]

/-- The provider replies just when it has the mappings of the whole range. -/
theorem replies_iff (syncPrefix : Name) (uninitialized : UInt64) (store : MappingStore)
    (hle : info.low ≤ info.high) (hhigh : info.high.toNat < 2 ^ 64 - 1) :
    (∃ rounds data, onMappingQuery syncPrefix uninitialized
      (getMappingQueryDataName syncPrefix info) store rounds = some (some data)) ↔
      ∀ i, info.low ≤ i → i ≤ info.high → store.Maps info.nodeId i := by
  obtain ⟨⟨rounds, answer, hanswer⟩, hspec⟩ :=
    onMappingQuery_spec syncPrefix uninitialized store hle hhigh
  constructor
  · rintro ⟨rounds, data, hdata⟩ i hlow hi
    rcases hspec rounds _ hdata with ⟨hnone, -⟩ | ⟨response, hresponse, -⟩
    · cases hnone
    · obtain ⟨x, hx, rfl⟩ := List.mem_map.mp (hresponse.all i hlow hi)
      exact ⟨x.2, (hresponse.found x hx).2.2⟩
  · intro hmaps
    rcases hspec rounds answer hanswer with ⟨-, i, hlow, hi, hmissing⟩ | ⟨response, -, rfl⟩
    · exact absurd (hmaps i hlow hi) hmissing
    · exact ⟨rounds, _, hanswer⟩

end MappingProvider

/-! ## The requester -/

namespace MappingStore

/-- The names and blocks in the store are such as ndn-cxx has them. -/
structure Valid (store : MappingStore) : Prop where
  name : ∀ p mapping, store.getMapping p = some mapping → mapping.name.Valid
  types : ∀ p mapping, store.getMapping p = some mapping →
    ∀ b ∈ mapping.blocks, 0 < b.type ∧ b.type < 2 ^ 32

/-- The requester's store `s` has become `s'` with the mappings of the provider. -/
structure Learned (info : MissingDataInfo) (provider s s' : MappingStore) : Prop where
  kept : ∀ i, info.low ≤ i → i ≤ info.high → ∀ mapping, s.getMapping ⟨info.nodeId, i⟩ = some mapping →
    s'.getMapping ⟨info.nodeId, i⟩ = some mapping
  added : ∀ i, info.low ≤ i → i ≤ info.high → s.getMapping ⟨info.nodeId, i⟩ = none →
    ∃ mapping mapping', provider.getMapping ⟨info.nodeId, i⟩ = some mapping ∧
      s'.getMapping ⟨info.nodeId, i⟩ = some mapping' ∧ mapping'.name = mapping.name
  other : ∀ key, (∀ i, info.low ≤ i → i ≤ info.high → info.nodeId.appendNumber i ≠ key) →
    s'[key]? = s[key]?

variable {info : MissingDataInfo} {provider : MappingStore} {response : MappingList}

theorem Answers.encodable (h : Answers info provider response) (hnode : info.nodeId.Valid)
    (hprovider : provider.Valid) (hlength : response.encode.length < 2 ^ 64) :
    response.Encodable where
  nodeId := by rwa [h.nodeId]
  names x hx := hprovider.name _ _ (h.found x hx).2.2
  types x hx := hprovider.types _ _ (h.found x hx).2.2
  length_lt := hlength

/-- The entries arrive with their names, each with its number. -/
theorem Answers.firstEntry_mirror (h : Answers info provider response) {i : SeqNo}
    (hlow : info.low ≤ i) (hi : i ≤ info.high) :
    ∃ mapping mapping', provider.getMapping ⟨info.nodeId, i⟩ = some mapping ∧
      MappingList.firstEntry response.mirror.pairs i = some mapping' ∧ mapping'.name = mapping.name := by
  have hmirror : response.mirror.pairs.map (·.1) = (response.pairs.map (·.1)).reverse := by
    simp [MappingList.mirror, MappingList.mirrorEntry, Function.comp_def]
  have hsome : MappingList.firstEntry response.mirror.pairs i ≠ none := by
    rw [Ne, MappingList.firstEntry_eq_none_iff, not_not, hmirror, List.mem_reverse]
    exact h.all i hlow hi
  obtain ⟨mapping', hfirst⟩ := Option.ne_none_iff_exists'.mp hsome
  obtain ⟨x, hfind, rfl⟩ := Option.map_eq_some_iff.mp hfirst
  have hseq : x.1 = i := by simpa using List.find?_some hfind
  -- it mirrors an entry of the response
  have hx := List.mem_of_find?_eq_some hfind
  rw [MappingList.mirror, List.mem_reverse, List.mem_map] at hx
  obtain ⟨y, hy, rfl⟩ := hx
  obtain rfl : y.1 = i := hseq
  exact ⟨y.2, _, (h.found y hy).2.2, hfirst, rfl⟩

theorem Answers.learned (h : Answers info provider response) (s : MappingStore) :
    Learned info provider s (s.addMappings info.nodeId response.mirror.pairs) where
  kept i hlow hi mapping hmapping := by
    rw [getMapping_addMappings, hmapping, Option.some_or]
  added i hlow hi hnone := by
    obtain ⟨mapping, mapping', hmapping, hfirst, hname⟩ := h.firstEntry_mirror hlow hi
    refine ⟨mapping, mapping', hmapping, ?_, hname⟩
    rw [getMapping_addMappings, hnone, Option.none_or, if_pos rfl, hfirst]
  other key hkey := by
    apply getElem?_addMappings_of_ne
    intro x hx
    rw [MappingList.mirror, List.mem_reverse, List.mem_map] at hx
    obtain ⟨y, hy, rfl⟩ := hx
    obtain ⟨hlow, hi, -⟩ := h.found y hy
    exact hkey y.1 hlow hi

end MappingStore

namespace PubSub

theorem onMappingList_mappings (cfg : PubSubConfig) (now : UInt64) (streamName : NodeID)
    (pairs : List (SeqNo × MappingEntryPair)) (queued : Bool) (s : PubSub) :
    (onMappingList cfg now streamName pairs queued s).1.mappings = s.mappings := by
  induction pairs generalizing queued s with
  | nil =>
    rw [onMappingList]
    split
    · exact (silent_fetchAll s).frame.mappings
    · rfl
  | cons x pairs ih =>
    rw [onMappingList]
    cases hprocess : processMapping cfg now ⟨streamName, x.1⟩ s with
    | error e => rfl
    | ok r =>
      dsimp only
      rw [ih, (performs_processMapping hprocess).frame.mappings]

theorem decodeReply_encode {list : MappingList} (h : list.Encodable) (data : Data)
    (hcontent : data.content = list.encode) : decodeReply data = .ok list.mirror := by
  rw [decodeReply, hcontent, MappingList.blockFromValue_encode h]
  exact MappingList.decode_listBlock h

end PubSub

open MappingProvider in
/-- A query for a range of mappings, from the name to what the requester stores: the name
    tells the query, the provider replies when it has them all, and the requester keeps
    what it has and gets the other names. -/
theorem mapping_fetch (syncPrefix : Name) (uninitialized : UInt64) (info : MissingDataInfo)
    (provider : MappingStore) (hle : info.low ≤ info.high) (hhigh : info.high.toNat < 2 ^ 64 - 1)
    (hnode : info.nodeId.Valid) (hprovider : provider.Valid) :
    parseMappingQueryDataName syncPrefix uninitialized (getMappingQueryDataName syncPrefix info) =
        some { info with incomingFace := uninitialized } ∧
      (∃ rounds answer, onMappingQuery syncPrefix uninitialized
        (getMappingQueryDataName syncPrefix info) provider rounds = some answer) ∧
      ((∃ rounds data, onMappingQuery syncPrefix uninitialized
        (getMappingQueryDataName syncPrefix info) provider rounds = some (some data)) ↔
        ∀ i, info.low ≤ i → i ≤ info.high → provider.Maps info.nodeId i) ∧
      ∀ rounds data, onMappingQuery syncPrefix uninitialized
          (getMappingQueryDataName syncPrefix info) provider rounds = some (some data) →
        data.content.length < 2 ^ 64 → ∀ (cfg : PubSubConfig) (now : UInt64) (s : PubSub),
          MappingStore.Learned info provider s.mappings
            (s.onDataValidated cfg now info data).1.mappings := by
  obtain ⟨hreturns, hspec⟩ := onMappingQuery_spec syncPrefix uninitialized provider hle hhigh
  refine ⟨parse_getMappingQueryDataName syncPrefix uninitialized info, hreturns,
    replies_iff syncPrefix uninitialized provider hle hhigh, ?_⟩
  intro rounds data hdata hlength cfg now s
  rcases hspec rounds _ hdata with ⟨hnone, -⟩ | ⟨response, hanswers, hresponse⟩
  · cases hnone
  · obtain rfl := Option.some.inj hresponse
    have hdecode := PubSub.decodeReply_encode (hanswers.encodable hnode hprovider hlength)
      ⟨getMappingQueryDataName syncPrefix info, 0, response.encode, none⟩ rfl
    rw [PubSub.onDataValidated, hdecode]
    dsimp only
    rw [PubSub.onMappingList_mappings]
    exact hanswers.learned s.mappings

/-- The mappings of the first two publications of `/a`, which come with blocks. -/
def firstMapping : MappingEntryPair := ⟨.ofBytes [[98]], [⟨56, [5]⟩]⟩
def secondMapping : MappingEntryPair := ⟨.ofBytes [[99]], [⟨200, [1]⟩, ⟨201, []⟩]⟩

/-- A provider with both mappings, the query for both, and the reply. -/
def twoMappings : MappingStore :=
  MappingStore.insertMapping .packetFormat (.ofBytes [[97]]) 2 secondMapping
    (MappingStore.insertMapping .packetFormat (.ofBytes [[97]]) 1 firstMapping ∅)
def twoQuery : MissingDataInfo := ⟨.ofBytes [[97]], 1, 2, 0⟩
def twoReply : Data where
  name := MappingProvider.getMappingQueryDataName (.ofBytes [[103]]) twoQuery
  content := MappingList.encode ⟨.ofBytes [[97]], [(1, firstMapping), (2, secondMapping)]⟩

theorem getMapping_twoMappings {p : Publication} {mapping : MappingEntryPair}
    (h : twoMappings.getMapping p = some mapping) : mapping = secondMapping ∨ mapping = firstMapping := by
  rw [twoMappings, MappingStore.getMapping_insertMapping, MappingStore.getMapping_insertMapping] at h
  split at h
  · exact .inl (Option.some.inj h).symm
  · split at h
    · exact .inr (Option.some.inj h).symm
    · simp [MappingStore.getMapping] at h

theorem valid_twoMappings : twoMappings.Valid where
  name p mapping hmapping := by
    rcases getMapping_twoMappings hmapping with rfl | rfl <;> decide
  types p mapping hmapping := by
    rcases getMapping_twoMappings hmapping with rfl | rfl <;> decide

/-- A requester that takes the first publication for `/d`. -/
def halfKnowing : PubSub where
  subscriptionCount := 0
  mappings := MappingStore.insertMapping .packetFormat (.ofBytes [[97]]) 1 ⟨.ofBytes [[100]], []⟩ ∅

/-- What the requester has stored after the reply. -/
def halfKnowingThen : MappingStore :=
  (halfKnowing.onDataValidated { decodeData := fun _ => none } 0 twoQuery twoReply).1.mappings

open MappingProvider in
/-- In a group `/g` the query is answered; the requester keeps the mapping that it has, and
    learns the name of the other publication. -/
theorem mapping_fetch_twoMappings :
    onMappingQuery (.ofBytes [[103]]) 7 (getMappingQueryDataName (.ofBytes [[103]]) twoQuery) twoMappings 3 =
        some (some twoReply) ∧
      halfKnowingThen.getMapping ⟨.ofBytes [[97]], 1⟩ = some ⟨.ofBytes [[100]], []⟩ ∧
      ∃ mapping, halfKnowingThen.getMapping ⟨.ofBytes [[97]], 2⟩ = some mapping ∧
        mapping.name = .ofBytes [[99]] := by
  obtain ⟨-, -, -, hstored⟩ := mapping_fetch (.ofBytes [[103]]) 7 twoQuery twoMappings (by decide)
    (by decide) (by decide) valid_twoMappings
  have hreply : onMappingQuery (.ofBytes [[103]]) 7 (getMappingQueryDataName (.ofBytes [[103]]) twoQuery)
      twoMappings 3 = some (some twoReply) := by
    decide
  have hlearned : MappingStore.Learned twoQuery twoMappings halfKnowing.mappings halfKnowingThen :=
    hstored 3 twoReply hreply (by decide) { decodeData := fun _ => none } 0 halfKnowing
  obtain ⟨mapping, mapping', hprovided, hstored, hname⟩ :=
    hlearned.added 2 (by decide) (by decide) (by decide)
  have hsecond : twoMappings.getMapping ⟨.ofBytes [[97]], 2⟩ = some secondMapping := by decide
  obtain rfl := Option.some.inj (hprovided.symm.trans hsecond)
  exact ⟨hreply, hlearned.kept 1 (by decide) (by decide) _ (by decide), mapping', hstored, hname⟩

end Svs
