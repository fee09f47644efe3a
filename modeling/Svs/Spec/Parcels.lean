import Svs.Native.Group
import Svs.Spec.DeliveryOnce

/-!
# What the callbacks are called with

A publication has a name and a value, and the packets that hold the value: one packet with
the name, or segments.  If the Data that arrives for a publication encapsulates its packets,
then a callback gets one of them, and a blob subscription the name and the value.

## Key results

- `Fetcher.Vouched.step`: what is being validated has arrived for its request
- `Truthful.step`: what the callbacks are called with
-/

namespace Svs

open Std

/-- The name and the value of a publication, and its packets: one without FinalBlockId, or
    segments that have one. -/
structure Parcel where
  name : Name
  value : List UInt8
  packets : List Data
  nonempty : packets ≠ []
  contents : packets.flatMap (·.content) = value
  whole : ∀ d ∈ packets, d.finalBlock = none → packets = [d] ∧ d.name = name
  segment : ∀ d ∈ packets, d.finalBlock ≠ none → d.name.getPrefix (-2) = name

namespace Parcel

variable {x : Parcel} {d : Data}

theorem value_eq_of_whole (hd : d ∈ x.packets) (hfinal : d.finalBlock = none) :
    x.value = d.content := by
  rw [← x.contents, (x.whole d hd hfinal).1, List.flatMap_singleton]

/-- Where one packet is a segment all are. -/
theorem segmented (hd : d ∈ x.packets) (hfinal : d.finalBlock ≠ none) :
    ∀ d' ∈ x.packets, d'.finalBlock ≠ none := by
  intro d' hd' hnone
  rw [(x.whole d' hd' hnone).1, List.mem_singleton] at hd
  exact hfinal (hd ▸ hnone)

/-- A packet subscription is called with a packet, and a blob subscription with the name and
    the value. -/
structure Gives (x : Parcel) (sub : Subscription) (subData : SubscriptionData) : Prop where
  packet : ∀ d, subData.packet = some d →
    d ∈ x.packets ∧ subData.name = d.name ∧ subData.data = d.content
  whole : subData.packet = none → subData.name = x.name ∧ subData.data = x.value
  blob : sub.isPacketSubscription = false → subData.name = x.name ∧ subData.data = x.value

end Parcel

/-! ## What has arrived for a request -/

namespace Fetcher

variable {π δ : Type} {Q : π → δ → Prop} {opts : SecurityOptions} {f : Fetcher π δ} {e : FetchEvent δ}

/-- Data that arrives does so for a request that it suits. -/
def Brings (Q : π → δ → Prop) (f : Fetcher π δ) (e : FetchEvent δ) : Prop :=
  ∀ id data qi, e = .data id data → f.pendingInterests.find? (·.id = id) = some qi →
    Q qi.request data

/-- What is being validated suits its request. -/
def Vouched (Q : π → δ → Prop) (f : Fetcher π δ) : Prop :=
  ∀ x ∈ f.validating, Q x.1.request x.2

theorem brings_of_not_isData (h : e.isData = false) : Brings Q f e := by
  rintro id data qi rfl
  cases h

theorem validating_processQueueLoop (queue : List (QueuedInterest π)) (f : Fetcher π δ) :
    (processQueueLoop queue f).validating = f.validating := by
  induction queue generalizing f with
  | nil => rfl
  | cons i queue ih =>
    rw [processQueueLoop]
    split
    · rw [ih]
    · rfl

@[simp] theorem validating_processQueue (f : Fetcher π δ) : f.processQueue.validating = f.validating :=
  validating_processQueueLoop _ f

@[simp] theorem validating_enqueue (qi : QueuedInterest π) (f : Fetcher π δ) :
    (f.enqueue qi).validating = f.validating :=
  validating_processQueue _

@[simp] theorem validating_expressInterest (opts : SecurityOptions) (request : π) (nRetries : Int)
    (f : Fetcher π δ) : (f.expressInterest opts request nRetries).validating = f.validating :=
  validating_enqueue _ f

/-- Only Data that arrives is given to the validator. -/
theorem Vouched.step (h : Vouched Q f) (hbrings : Brings Q f e) : Vouched Q (f.step opts e).1 := by
  have hmoves := moves_step opts e f
  generalize f.step opts e = r at hmoves ⊢
  cases hmoves with
  | lacks => exact h
  | satisfied htake | nacked htake | timedOut htake =>
    obtain ⟨-, rfl⟩ := takePending_eq_some_iff.mp htake
    intro x hx
    rw [validating_processQueue] at hx
    exact h x hx
  | @validating id data qi f' htake =>
    obtain ⟨hfind, rfl⟩ := takePending_eq_some_iff.mp htake
    intro x hx
    simp only [validating_processQueue, List.mem_append, List.mem_singleton] at hx
    rcases hx with hx | rfl
    · exact h x hx
    · exact hbrings id data qi rfl hfind
  | resent htake =>
    obtain ⟨-, rfl⟩ := takePending_eq_some_iff.mp htake
    intro x hx
    rw [validating_enqueue] at hx
    exact h x hx
  | validated htake | scheduled htake | invalid htake =>
    obtain ⟨-, rfl⟩ := takeValidating_eq_some_iff.mp htake
    exact fun x hx => h x (List.mem_of_mem_eraseP hx)
  | retried htake =>
    obtain ⟨-, rfl⟩ := takeScheduled_eq_some_iff.mp htake
    intro x hx
    rw [validating_enqueue] at hx
    exact h x hx

/-- What satisfies a request suits it. -/
theorem Vouched.of_ends (h : Vouched Q f) (hbrings : Brings Q f e) {request : π} {data : δ}
    (hends : Ends opts f e request (.satisfied data)) : Q request data := by
  cases hends with
  | data hvalidator hfind => exact hbrings _ _ _ rfl hfind
  | validated hfind => exact h _ (List.mem_of_find?_eq_some hfind)

end Fetcher

namespace PubSub

variable {T T' : FetchTask → Prop} {C C' : Subscription → SubscriptionData → Prop}
  {s s' s'' : PubSub} {cfg : PubSubConfig} {p : Publication}

/-! ## Deliveries -/

/-- In between, the tasks that are added are as `T` says, and the calls that are made as `C`
    says. -/
structure Proceeds (T : FetchTask → Prop) (C : Subscription → SubscriptionData → Prop)
    (s s' : PubSub) : Prop where
  tasks : ∀ task ∈ s'.tasks, task ∈ s.tasks ∨ T task.2
  called : ∀ sub subData, .called sub subData ∈ s'.log → .called sub subData ∈ s.log ∨ C sub subData
  dataFetcher : s'.dataFetcher = s.dataFetcher
  notificationMappingList : s'.notificationMappingList = s.notificationMappingList

theorem Proceeds.refl (s : PubSub) : Proceeds T C s s :=
  ⟨fun _ h => Or.inl h, fun _ _ h => Or.inl h, rfl, rfl⟩

theorem Proceeds.trans (h : Proceeds T C s s') (h' : Proceeds T C s' s'') : Proceeds T C s s'' where
  tasks task htask := (h'.tasks task htask).elim (h.tasks task) Or.inr
  called sub subData hcalled := (h'.called sub subData hcalled).elim (h.called sub subData) Or.inr
  dataFetcher := h'.dataFetcher.trans h.dataFetcher
  notificationMappingList := h'.notificationMappingList.trans h.notificationMappingList

theorem proceeds_cleanUpFetch (p : Publication) (s : PubSub) : Proceeds T C s (s.cleanUpFetch p) where
  tasks _ h := Or.inl h
  called sub subData h := by
    rw [cleanUpFetch, List.mem_append, List.mem_singleton] at h
    rcases h with h | h
    · exact Or.inl h
    · cases h
  dataFetcher := rfl
  notificationMappingList := rfl

theorem proceeds_callAll {chosen : Subscription → Bool} {subData : SubscriptionData}
    (h : ∀ sub, chosen sub = true → C sub subData) (p : Publication) (s : PubSub) :
    Proceeds T C s (s.callAll p chosen subData) where
  tasks _ h := Or.inl h
  called sub subData' hcalled := by
    rw [callAll, List.mem_append, List.mem_map] at hcalled
    rcases hcalled with hcalled | ⟨sub', hsub', heq⟩
    · exact Or.inl hcalled
    · obtain ⟨rfl, rfl⟩ := Effect.called.inj heq
      exact Or.inr (h sub' (List.mem_filter.mp hsub').2)
  dataFetcher := rfl
  notificationMappingList := rfl

theorem proceeds_await {task : FetchTask} (h : T task) (s : PubSub) : Proceeds T C s (s.await task) where
  tasks task' htask := by
    rw [await, List.mem_append, List.mem_singleton] at htask
    rcases htask with htask | rfl
    · exact Or.inl htask
    · exact Or.inr h
  called _ _ h := Or.inl h
  dataFetcher := rfl
  notificationMappingList := rfl

theorem proceeds_keepBlob {b : Blob} (h : T (.blob b)) (s : PubSub) : Proceeds T C s (s.keepBlob b) := by
  rw [keepBlob]
  split
  · exact .refl s
  · exact proceeds_await h s

theorem proceeds_takeTask {id : Nat} {task : FetchTask} (h : s.takeTask id = some (task, s')) :
    Proceeds T C s s' ∧ ∃ t ∈ s.tasks, t.2 = task := by
  obtain ⟨t, hfind, heq⟩ := Option.map_eq_some_iff.mp h
  obtain ⟨rfl, rfl⟩ := Prod.mk.inj heq
  exact ⟨⟨fun _ h => Or.inl (List.mem_of_mem_eraseP h), fun _ _ h => Or.inl h, rfl, rfl⟩, t,
    List.mem_of_find?_eq_some hfind, rfl⟩

/-! ## What is fetched -/

/-- Which publications are looked at, what they consist of, and the names of their packets
    without version and segment number. -/
structure Origin where
  known : Publication → Prop
  holds : Publication → Parcel → Prop
  dataName : Publication → Name

variable {O : Origin}

/-- The Data encapsulates a packet of the parcel; a segment is named after the publication. -/
structure Origin.Outer (O : Origin) (cfg : PubSubConfig) (p : Publication) (x : Parcel)
    (data inner : Data) : Prop where
  mem : inner ∈ x.packets
  encapsulates : Encapsulates cfg data inner
  named : inner.finalBlock ≠ none → data.name.getPrefix (-2) = O.dataName p ∧
    2 < data.name.components.length

/-- The Data suits a request for a publication. -/
def Origin.Suits (O : Origin) (cfg : PubSubConfig) : DataRequest → Data → Prop
  | .fetch p, data => O.known p → ∃ x inner, O.holds p x ∧ O.Outer cfg p x data inner
  | .prefetch _ _, _ => True

/-- What is called is part of the publication. -/
def Origin.Calls (O : Origin) (sub : Subscription) (subData : SubscriptionData) : Prop :=
  O.known ⟨subData.producerPrefix, subData.seqNo⟩ →
    ∃ x, O.holds ⟨subData.producerPrefix, subData.seqNo⟩ x ∧ x.Gives sub subData

/-- What a task knows. -/
def Origin.Awaits (O : Origin) (cfg : PubSubConfig) : FetchTask → Prop
  | .validation _ => True
  | .segments p pubName =>
    O.known p → pubName = O.dataName p ∧ ∃ x, O.holds p x ∧ ∀ d ∈ x.packets, d.finalBlock ≠ none
  | .blob b =>
    O.known b.publication → ∃ x inner, O.holds b.publication x ∧ b.innerName = x.name ∧
      b.remaining.mapM cfg.decodeData = some inner ∧
      b.finalBuffer ++ inner.flatMap (·.content) = x.value

/-- The bytes are all packets of the publication. -/
def Origin.Reassembles (O : Origin) (cfg : PubSubConfig) (p : Publication) (bytes : List UInt8) : Prop :=
  ∀ x, O.holds p x → (∀ d ∈ x.packets, d.finalBlock ≠ none) →
    ∃ elements, Codec.packetFormat.elements bytes = some elements ∧
      elements.mapM cfg.decodeData = some x.packets

theorem proceeds_returnData {firstData innerData : Data}
    (h : O.known p → ∃ x, O.holds p x ∧ O.Outer cfg p x firstData innerData) (s : PubSub) :
    Proceeds (O.Awaits cfg) O.Calls s (s.returnData p firstData innerData) := by
  have hcalls : ∀ sub : Subscription, (sub.isPacketSubscription || !innerData.finalBlock.isSome) = true →
      O.Calls sub ⟨innerData.name, innerData.content, p.nodeId, p.seqNo, some innerData⟩ := by
    intro sub hsub hknown
    obtain ⟨x, hx, houter⟩ := h hknown
    refine ⟨x, hx, ⟨?_, (fun hnone => by cases hnone), ?_⟩⟩
    · intro d hd
      obtain rfl := Option.some.inj hd
      exact ⟨houter.mem, rfl, rfl⟩
    · intro hblob
      -- a blob subscription is called only where the packet is all there is
      have hfinal : innerData.finalBlock = none := by
        rw [hblob, Bool.false_or, Bool.not_eq_true', Option.isSome_eq_false_iff, Option.isNone_iff_eq_none] at hsub
        exact hsub
      exact ⟨(x.whole _ houter.mem hfinal).2, (x.value_eq_of_whole houter.mem hfinal).symm⟩
  rw [returnData]
  refine (proceeds_callAll hcalls p s).trans ?_
  split
  · next hsegmented =>
    simp only [Bool.and_eq_true] at hsegmented
    apply proceeds_await
    intro hknown
    obtain ⟨x, hx, houter⟩ := h hknown
    have hfinal : innerData.finalBlock ≠ none := Option.isSome_iff_ne_none.mp hsegmented.1.2
    exact ⟨(houter.named hfinal).1, x, hx, x.segmented houter.mem hfinal⟩
  · exact proceeds_cleanUpFetch p _

theorem proceeds_onSyncData {firstData : Data} (h : O.Suits cfg (.fetch p) firstData)
    (answer : Option Bool) (s : PubSub) :
    Proceeds (O.Awaits cfg) O.Calls s (s.onSyncData cfg p firstData answer) := by
  rw [onSyncData]
  split
  · exact ⟨fun _ h => Or.inl h, fun _ _ h => Or.inl h, rfl, rfl⟩
  · split
    · exact .refl s
    · next innerData hdecode =>
      have houter : O.known p → ∃ x, O.holds p x ∧ O.Outer cfg p x firstData innerData := by
        intro hknown
        obtain ⟨x, inner, hx, houter⟩ := h hknown
        obtain rfl := Option.some.inj (houter.encapsulates.2.symm.trans hdecode)
        exact ⟨x, hx, houter⟩
      split
      · split
        · exact proceeds_returnData houter s
        · exact .refl s
        · exact proceeds_await trivial s
      · exact proceeds_returnData houter s

/-- With the last answer the buffer is the value. -/
theorem proceeds_sendFinalBuffer {b : Blob} (h : O.Awaits cfg (.blob b)) (s : PubSub) :
    Proceeds (O.Awaits cfg) O.Calls s (s.sendFinalBuffer b) := by
  rw [sendFinalBuffer]
  split
  · exact .refl s
  · next hall =>
    split
    · exact proceeds_cleanUpFetch _ s
    · refine (proceeds_callAll ?_ _ s).trans (proceeds_cleanUpFetch _ _)
      intro sub _ hknown
      obtain ⟨x, inner, hx, hname, hinner, hvalue⟩ := h hknown
      obtain ⟨hnil, -⟩ := (answered_iff b).mpr (not_not.mp hall)
      rw [hnil] at hinner
      obtain rfl : inner = [] := (Option.some.inj hinner).symm
      rw [List.flatMap_nil, List.append_nil] at hvalue
      exact ⟨x, hx, ⟨(fun _ hd => by cases hd), fun _ => ⟨hname, hvalue⟩, fun _ => ⟨hname, hvalue⟩⟩⟩

/-- The loop copies the packets one after the other. -/
theorem proceeds_validateElements {elements : List Block} {answers : List (Option Bool)} {b : Blob}
    (hremaining : b.remaining = elements) (h : O.Awaits cfg (.blob b)) (s : PubSub) :
    Proceeds (O.Awaits cfg) O.Calls s (validateElements cfg elements answers b s) := by
  induction elements generalizing answers b s with
  | nil =>
    rw [validateElements]
    exact (proceeds_sendFinalBuffer h s).trans (proceeds_keepBlob h _)
  | cons element elements ih =>
    rw [validateElements]
    split
    · exact (proceeds_cleanUpFetch _ s).trans (proceeds_keepBlob h _)
    · next innerData hdecode =>
      have hcopied : ∀ b' : Blob, b'.publication = b.publication → b'.innerName = b.innerName →
          b'.remaining = elements → b'.finalBuffer = b.finalBuffer ++ innerData.content →
          O.Awaits cfg (.blob b') := by
        intro b' hp hname hrest hbuffer hknown
        rw [hp] at hknown ⊢
        obtain ⟨x, inner, hx, hname', hinner, hvalue⟩ := h hknown
        rw [hremaining] at hinner
        obtain ⟨d, rest, hd, hrest', rfl⟩ := List.exists_of_mapM_cons hinner
        obtain rfl := Option.some.inj (hdecode.symm.trans hd)
        refine ⟨x, rest, hx, hname.trans hname', by rw [hrest, hrest'], ?_⟩
        rw [hbuffer, List.append_assoc, ← List.flatMap_cons, hvalue]
      split
      · split
        · next accepted _ =>
          have hanswered : O.Awaits cfg (.blob ((b.copy innerData.content elements).answer accepted)) := by
            apply hcopied <;> cases accepted <;> rfl
          exact (proceeds_sendFinalBuffer hanswered s).trans
            (ih (by cases accepted <;> rfl) hanswered _)
        · refine ih rfl ?_ s
          exact hcopied _ rfl rfl rfl rfl
      · refine ih rfl ?_ s
        exact hcopied _ rfl rfl rfl rfl

theorem proceeds_onComplete {data : List UInt8} {answers : List (Option Bool)}
    (hsegmented : O.known p → ∃ x, O.holds p x ∧ ∀ d ∈ x.packets, d.finalBlock ≠ none)
    (hdata : O.known p → O.Reassembles cfg p data) (s : PubSub) :
    Proceeds (O.Awaits cfg) O.Calls s (s.onComplete cfg p data answers) := by
  rw [onComplete]
  split
  · exact proceeds_cleanUpFetch p s
  · exact proceeds_cleanUpFetch p s
  · next element elements helements =>
    split
    · exact proceeds_cleanUpFetch p s
    · next firstInner hfirst =>
      refine proceeds_validateElements (b := ⟨p, firstInner.name.getPrefix (-2), [], _, 0, 0, 0⟩) rfl ?_ s
      intro hknown
      obtain ⟨x, hx, hfinal⟩ := hsegmented hknown
      obtain ⟨elements', helements', hinner⟩ := hdata hknown x hx hfinal
      obtain rfl := Option.some.inj (helements.symm.trans helements')
      obtain ⟨d, inner, hd, -, hpackets⟩ := List.exists_of_mapM_cons hinner
      obtain rfl := Option.some.inj (hfirst.symm.trans hd)
      have hmem : firstInner ∈ x.packets := hpackets ▸ List.mem_cons_self
      exact ⟨x, x.packets, hx, x.segment _ hmem (hfinal _ hmem), hinner, x.contents⟩

/-! ## Steps -/

/-- What has arrived, is awaited and has been called, is part of the publications. -/
structure Truthful (O : Origin) (cfg : PubSubConfig) (s : PubSub) : Prop where
  vouched : s.dataFetcher.Vouched (O.Suits cfg)
  awaits : ∀ task ∈ s.tasks, O.Awaits cfg task.2
  calls : ∀ sub subData, .called sub subData ∈ s.log → O.Calls sub subData

/-- What the event brings is part of the publications. -/
def Brings (O : Origin) (cfg : PubSubConfig) (e : Event) (s : PubSub) : Prop :=
  match e with
  | .fetchData event _ => s.dataFetcher.Brings (O.Suits cfg) event
  | .segmentsComplete task data _ => ∀ p pubName s', s.takeTask task = some (.segments p pubName, s') →
      O.known p → pubName = O.dataName p → O.Reassembles cfg p data
  | _ => True

theorem truthful_init (O : Origin) (cfg : PubSubConfig) (count : UInt32) :
    Truthful O cfg { subscriptionCount := count } := by
  refine ⟨?_, ?_, ?_⟩
  · rintro x ⟨⟩
  · rintro task ⟨⟩
  · rintro sub subData ⟨⟩

theorem Truthful.proceeds (h : Truthful O cfg s) (hp : Proceeds (O.Awaits cfg) O.Calls s s') :
    Truthful O cfg s' where
  vouched := hp.dataFetcher ▸ h.vouched
  awaits task htask := (hp.tasks task htask).elim (h.awaits task) id
  calls sub subData hcalled := (hp.called sub subData hcalled).elim (h.calls sub subData) id

/-- Actions that queue and request call nobody. -/
theorem Truthful.performs {P : Subscription → Publication → Prop} {c : Callback → Publication → Nat}
    (h : Truthful O cfg s) (hp : Performs cfg P c s s') : Truthful O cfg s' := by
  obtain ⟨actions, rfl, -⟩ := hp
  induction actions generalizing s with
  | nil => exact h
  | cons a actions ih =>
    refine ih (s := a.apply cfg s) ?_
    have hlog : ∀ (log : List Effect) (effect : Effect) (sub : Subscription)
        (subData : SubscriptionData), .called sub subData ≠ effect →
        .called sub subData ∈ log ++ [effect] → .called sub subData ∈ log := by
      intro log effect sub subData hne hcalled
      exact (List.mem_append.mp hcalled).resolve_right fun h => hne (List.mem_singleton.mp h)
    cases a with
    | queue p sub =>
      exact ⟨h.vouched, h.awaits, fun sub' subData hcalled => h.calls _ _ (hlog _ _ _ _ (by simp) hcalled)⟩
    | updated info =>
      exact ⟨h.vouched, h.awaits, fun sub' subData hcalled => h.calls _ _ (hlog _ _ _ _ (by simp) hcalled)⟩
    | fetchNameMapping info => exact ⟨h.vouched, h.awaits, h.calls⟩
    | prefetch nodeId seqNo =>
      refine ⟨?_, h.awaits, h.calls⟩
      intro x hx
      rw [Action.apply, fetchData, Fetcher.validating_expressInterest] at hx
      exact h.vouched x hx
    | fetchOne p =>
      rw [Action.apply, fetchOne]
      split
      · exact h
      · refine ⟨?_, h.awaits, h.calls⟩
        intro x hx
        rw [fetchData, Fetcher.validating_expressInterest] at hx
        exact h.vouched x hx

/-- With more publications the same is true. -/
theorem Truthful.mono {O' : Origin} (h : Truthful O cfg s) (hknown : O'.known = O.known)
    (hholds : ∀ p x, O.holds p x → O'.holds p x) (hname : O'.dataName = O.dataName) :
    Truthful O' cfg s := by
  obtain ⟨known, holds, dataName⟩ := O
  obtain ⟨known', holds', dataName'⟩ := O'
  obtain rfl : known' = known := hknown
  obtain rfl : dataName' = dataName := hname
  refine ⟨?_, ?_, ?_⟩
  · intro y hy
    have hsuits := h.vouched y hy
    revert hsuits
    cases y.1.request with
    | prefetch nodeId seqNo => exact id
    | fetch p =>
      intro hsuits hp
      obtain ⟨x, inner, hx, houter⟩ := hsuits hp
      exact ⟨x, inner, hholds p x hx, houter.mem, houter.encapsulates, houter.named⟩
  · intro task htask
    have hawaits := h.awaits task htask
    revert hawaits
    cases task.2 with
    | validation p => exact id
    | segments p pubName =>
      intro hawaits hp
      obtain ⟨hname, x, hx, hfinal⟩ := hawaits hp
      exact ⟨hname, x, hholds p x hx, hfinal⟩
    | blob b =>
      intro hawaits hp
      obtain ⟨x, inner, hx, hrest⟩ := hawaits hp
      exact ⟨x, inner, hholds _ x hx, hrest⟩
  · intro sub subData hcalled hp
    obtain ⟨x, hx, hgives⟩ := h.calls sub subData hcalled hp
    exact ⟨x, hholds _ x hx, hgives⟩

theorem Truthful.fetchData (h : Truthful O cfg s) {now : UInt64} {event : FetchEvent Data}
    (hbrings : s.dataFetcher.Brings (O.Suits cfg) event) (answer : Option Bool) :
    Truthful O cfg (s.step cfg (now, .fetchData event answer)) := by
  have hfetched : Truthful O cfg
      { s with dataFetcher := (s.dataFetcher.step cfg.securityOptions event).1 } :=
    ⟨h.vouched.step hbrings, h.awaits, h.calls⟩
  show Truthful O cfg (onDataOutcome cfg answer _ (s.dataFetcher.step cfg.securityOptions event).2)
  unfold onDataOutcome
  split
  · next p data hended =>
    have hends := (s.dataFetcher.step_eq_some_iff cfg.securityOptions event _ _).mp hended
    exact hfetched.proceeds (proceeds_onSyncData (h.vouched.of_ends hbrings hends) answer _)
  · exact hfetched

/-- Every step keeps to the truth. -/
theorem Truthful.step (h : Truthful O cfg s) {e : UInt64 × Event} (hbrings : Brings O cfg e.2 s) :
    Truthful O cfg (s.step cfg e) := by
  obtain ⟨now, event⟩ := e
  cases event with
  | update info =>
    rcases step_update_cases cfg now info s with hstep | ⟨s', hupdate, hstep⟩
    · rw [hstep]
      exact h
    · rw [hstep]
      exact h.performs (performs_updateCallbackInternal hupdate)
  | fetchMapping event =>
    rcases step_fetchMapping_cases cfg now event s with hstep | ⟨info, data, list, -, -, hstep⟩
    · rw [hstep]
      exact ⟨h.vouched, h.awaits, h.calls⟩
    · rw [hstep]
      have hstored : Truthful O cfg
          ((s.afterMappingFetcher cfg event).storeMappings info.nodeId list.pairs) :=
        ⟨h.vouched, h.awaits, h.calls⟩
      exact hstored.performs (performs_processMappings cfg now info.nodeId list.pairs false _)
  | fetchData event answer => exact h.fetchData hbrings answer
  | validationFailed task =>
    rw [PubSub.step]
    dsimp only
    split
    · next p s' htask => exact h.proceeds (proceeds_takeTask htask).1
    · exact h
  | segmentsComplete task data answers =>
    rw [PubSub.step]
    dsimp only
    split
    · next p pubName s' htask =>
      obtain ⟨htaken, t, ht, htask'⟩ := proceeds_takeTask htask
      have hawaits := h.awaits t ht
      rw [htask'] at hawaits
      exact h.proceeds (htaken.trans (proceeds_onComplete (fun hp => (hawaits hp).2)
        (fun hp => hbrings p pubName s' htask hp (hawaits hp).1) s'))
    · exact h
  | segmentsError task =>
    rw [PubSub.step]
    dsimp only
    split
    · next p pubName s' htask =>
      exact h.proceeds ((proceeds_takeTask htask).1.trans (proceeds_cleanUpFetch p s'))
    · exact h
  | blobAnswer task accepted =>
    rw [PubSub.step]
    dsimp only
    split
    · next b s' htask =>
      obtain ⟨htaken, t, ht, htask'⟩ := proceeds_takeTask htask
      have hawaits := h.awaits t ht
      rw [htask'] at hawaits
      have hanswered :
          O.Awaits cfg (.blob (Blob.answer { b with unanswered := b.unanswered - 1 } accepted)) := by
        cases accepted <;> exact hawaits
      exact h.proceeds (htaken.trans
        ((proceeds_sendFinalBuffer hanswered s').trans (proceeds_keepBlob hanswered _)))
    · exact h
  | _ => exact ⟨h.vouched, h.awaits, h.calls⟩

end PubSub

end Svs
