import Svs.Native.Secured
import Svs.Spec.GroupDelivery

/-!
# Who has no key changes nothing

## Key results

- `Group.Step.beside`: a step leaves alone what else is in flight
- `secured_refines`: the nodes of a secured group are those of a group to itself, and
  exceptions are raised by rejecting validators only
- `exists_raised`: where they are
-/

namespace Svs

variable {ι : Type*} {P : Platform} {cfg : ι → PublisherConfig}

/-- Every node checks the signatures. -/
def GroupKey.Checked (key : GroupKey ι) (cfg : ι → PublisherConfig) : Prop :=
  ∀ i, key.signerType i = .HMAC ∨
    key.signerType i = .other ∧ (cfg i).pubSub.securityOptions.hasValidator = true

/-- Only what verifies is validated at once. -/
theorem GroupKey.Checked.verified {key : GroupKey ι} (h : key.Checked cfg) {i : ι} {verified : Bool}
    (hvalidated : SVSyncCore.onSyncInterest (key.signerType i)
      (cfg i).pubSub.securityOptions.hasValidator verified = .validated) : verified = true := by
  rcases h i with hmac | ⟨hother, hvalidator⟩
  · rw [hmac, SVSyncCore.onSyncInterest] at hvalidated
    by_contra hnot
    rw [if_neg hnot] at hvalidated
    cases hvalidated
  · rw [hother, hvalidator, SVSyncCore.onSyncInterest, if_pos rfl] at hvalidated
    cases hvalidated

/-- Only nodes that are neither unsigned nor use HMAC ask a validator. -/
theorem GroupKey.other_of_validating {key : GroupKey ι} {i : ι} {hasValidator verified : Bool}
    (h : SVSyncCore.onSyncInterest (key.signerType i) hasValidator verified = .validating) :
    key.signerType i = .other := by
  cases hsigner : key.signerType i with
  | other => rfl
  | NULL =>
    rw [hsigner, SVSyncCore.onSyncInterest] at h
    cases h
  | HMAC =>
    rw [hsigner, SVSyncCore.onSyncInterest] at h
    split at h <;> cases h

variable [DecidableEq ι]

/-- A step that no Sync Interest has part in is possible whatever Sync Interests are in flight. -/
theorem Group.Step.beside {g g' : Group ι} (h : Group.Step P cfg g g') (hbefore : g.syncInterests = [])
    (hafter : g'.syncInterests = []) (bytes : List (List UInt8)) :
    Group.Step P cfg { g with syncInterests := bytes } { g' with syncInterests := bytes } := by
  obtain ⟨nodes, syncInterests, data, published⟩ := g
  obtain rfl : syncInterests = [] := hbefore
  cases h with
  | publish i m call hwrap => exact .publish i m call hwrap
  | fire i m now e he hfits =>
    -- the timer sends nothing
    have hsent : ((nodes i).fire P (cfg i) m now e).2 = [] := hafter
    have hstep : Group.Step P cfg ⟨nodes, bytes, data, published⟩ _ := .fire i m now e he hfits
    dsimp only at hstep
    rw [hsent, List.append_nil] at hstep
    exact hstep
  | receive i m now bytes' face hbytes => exact absurd hbytes List.not_mem_nil
  | act i e he => exact .act i e he
  | put i d hd => exact .put i d hd
  | answer i uninitialized name d hfilter hd hfits => exact .answer i uninitialized name d hfilter hd hfits
  | fetchData i now id d answer hd hname => exact .fetchData i now id d answer hd hname
  | fetchMapping i now id d hd hname => exact .fetchMapping i now id d hd hname
  | segments i now task bytes' answers hbytes => exact .segments i now task bytes' answers hbytes
  | lose kept data' hinterests hdata => exact .lose bytes data' (List.Sublist.refl bytes) hdata

namespace SecuredGroup

variable {key : GroupKey ι} {s s' : SecuredGroup ι}

/-- A genuine signature stands for parameters that a node has signed. -/
def Covered (key : GroupKey ι) (s : SecuredGroup ι) (x : SignedInterest) : Prop :=
  key.Genuine x → ∃ bytes ∈ s.signed, x.applicationParameters = some bytes

/-- The secured group is a group that loses no Sync Interest, with others around it. -/
structure Follows (key : GroupKey ι) (s : SecuredGroup ι) (g : Group ι) : Prop where
  nodes : s.nodes = g.nodes
  data : s.data = g.data
  published : s.published = g.published
  signed : s.signed = g.syncInterests
  flight : ∀ x ∈ s.flight, Covered key s x
  validating : ∀ i, ∀ x ∈ s.validating i, Covered key s x.1 ∧ key.signerType i = .other
  raised : ∀ i, s.raised i ≠ [] → key.signerType i = .other

/-- What the validators are asked about comes from what was there. -/
theorem Follows.of_validating {g : Group ι} (h : Follows key s g) {i : ι}
    {l : List (SignedInterest × Option UInt64)}
    (hl : ∀ x ∈ l, Covered key s x.1 ∧ key.signerType i = .other) :
    Follows key { s with validating := Function.update s.validating i l } g :=
  { h with
    validating := by
      intro j x hx
      by_cases hj : j = i
      · subst hj
        simp only [Function.update_self] at hx
        exact hl x hx
      · simp only [Function.update_of_ne hj] at hx
        exact h.validating j x hx }

/-- A validator that has been asked may raise an exception. -/
theorem Follows.raise {g : Group ι} (h : Follows key s g) {i : ι} (hother : key.signerType i = .other)
    (l : List SignedInterest) : Follows key { s with raised := Function.update s.raised i l } g :=
  { h with
    raised := by
      intro j hj
      by_cases hji : j = i
      · rw [hji, hother]
      · simp only [Function.update_of_ne hji] at hj
        exact h.raised j hj }

/-- A genuine Interest does to a node what the Sync Interest with its parameters does. -/
theorem Follows.receive {g : Group ι} (h : Follows key s g) {x : SignedInterest} (hx : Covered key s x)
    (hgenuine : key.Genuine x) (i : ι) (m : Moment) (now : UInt64) (face : Option UInt64) :
    ∃ g', Group.Step P cfg g g' ∧ Follows key (s.receive P cfg i m now x face) g' := by
  obtain ⟨bytes, hbytes, hparameters⟩ := hx hgenuine
  rw [h.signed] at hbytes
  refine ⟨_, .receive i m now bytes face hbytes, ?_⟩
  exact
    { nodes := by
        rw [SecuredGroup.receive, h.nodes, hparameters]
      data := h.data
      published := h.published
      signed := h.signed
      flight := h.flight
      validating := h.validating
      raised := h.raised }

/-- Each step of the secured group is one of the group, or none. -/
theorem follows_step (hkey : key.Checked cfg) {g : Group ι} (h : Follows key s g)
    (hstep : Step P cfg key s s') :
    Follows key s' g ∨ ∃ g', Group.Step P cfg g g' ∧ Follows key s' g' := by
  cases hstep with
  | fire i m now e he hfits =>
    -- more has been signed, so what was covered stays so
    have hgrows : ∀ x sent, Covered key s x → Covered key { s with signed := s.signed ++ sent } x := by
      intro x sent hx hgenuine
      obtain ⟨bytes, hbytes, hparameters⟩ := hx hgenuine
      exact ⟨bytes, List.mem_append_left _ hbytes, hparameters⟩
    rw [h.nodes] at hfits ⊢
    refine Or.inr ⟨_, .fire i m now e he hfits, ?_⟩
    exact
      { nodes := rfl
        data := h.data
        published := h.published
        signed := by
          show s.signed ++ _ = g.syncInterests ++ _
          rw [h.signed]
        flight := by
          intro x hx
          rcases List.mem_append.mp hx with hx | hx
          · exact hgrows x _ (h.flight x hx)
          · -- the node has signed it just now
            obtain ⟨bytes, hbytes, rfl⟩ := List.mem_map.mp hx
            exact fun _ => ⟨bytes, List.mem_append_right _ hbytes, rfl⟩
        validating := fun j x hx => ⟨hgrows x.1 _ (h.validating j x hx).1, (h.validating j x hx).2⟩
        raised := h.raised }
  | other g' hg hnone =>
    -- the same step, with the Sync Interests beside it that the group keeps for ever
    have hs : { s.group with syncInterests := s.signed } = g := by
      rw [group, h.nodes, h.data, h.published, h.signed]
    refine Or.inr ⟨_, hs ▸ hg.beside rfl hnone s.signed, ?_⟩
    exact
      { nodes := rfl
        data := rfl
        published := rfl
        signed := rfl
        flight := h.flight
        validating := h.validating
        raised := h.raised }
  | arrive i m now x face verified hx hverified =>
    rw [arrive]
    cases hadmission : SVSyncCore.onSyncInterest (key.signerType i)
        (cfg i).pubSub.securityOptions.hasValidator verified with
    | validated =>
      exact Or.inr (h.receive (h.flight x hx) (hverified (hkey.verified hadmission)) i m now face)
    | validating =>
      -- nothing happens yet that the group would see
      refine Or.inl (h.of_validating ?_)
      intro y hy
      rcases List.mem_append.mp hy with hy | hy
      · exact h.validating i y hy
      · rw [List.mem_singleton.mp hy]
        exact ⟨h.flight x hx, GroupKey.other_of_validating hadmission⟩
    | dropped => exact Or.inl h
  | accept i m now x face hx hgenuine =>
    have hrest : Follows key
        { s with validating := Function.update s.validating i ((s.validating i).erase (x, face)) } g :=
      h.of_validating fun y hy => h.validating i y (List.mem_of_mem_erase hy)
    exact Or.inr (hrest.receive (h.validating i _ hx).1 hgenuine i m now face)
  | reject i x face hx =>
    have hrest : Follows key
        { s with validating := Function.update s.validating i ((s.validating i).erase (x, face)) } g :=
      h.of_validating fun y hy => h.validating i y (List.mem_of_mem_erase hy)
    exact Or.inl (hrest.raise (h.validating i _ hx).2 _)
  | inject x hforged =>
    refine Or.inl { h with flight := ?_ }
    intro y hy
    rcases List.mem_append.mp hy with hy | hy
    · exact h.flight y hy
    · rw [List.mem_singleton.mp hy]
      exact hforged
  | lose flight hflight => exact Or.inl { h with flight := fun x hx => h.flight x (hflight.subset hx) }

/-- Where every node checks the signatures, those who have no key change no node: whatever Sync
    Interests they send, keep, repeat or hold back, and whatever the validators reject, the nodes
    are as they come to be in a group to itself.  What they can bring about is that the validator
    of a node rejects and raises an exception; under HMAC none is raised. -/
theorem secured_refines (hkey : key.Checked cfg) (h : Reachable P cfg key s) :
    (∃ g, Group.Reachable P cfg g ∧ g.nodes = s.nodes ∧ g.published = s.published) ∧
      ∀ i, s.raised i ≠ [] →
        key.signerType i = .other ∧ (cfg i).pubSub.securityOptions.hasValidator = true := by
  have hfollows : ∃ g, Group.Reachable P cfg g ∧ Follows key s g := by
    induction h with
    | init uninitialized count =>
      refine ⟨_, .init uninitialized count, ?_⟩
      exact
        { nodes := rfl
          data := rfl
          published := rfl
          signed := rfl
          flight := fun x hx => absurd hx List.not_mem_nil
          validating := fun i x hx => absurd hx List.not_mem_nil
          raised := fun i hraised => absurd rfl hraised }
    | step _ hstep ih =>
      obtain ⟨g, hg, hfollows⟩ := ih
      rcases follows_step hkey hfollows hstep with hsame | ⟨g', hgroup, hsame⟩
      · exact ⟨g, hg, hsame⟩
      · exact ⟨g', hg.step hgroup, hsame⟩
  obtain ⟨g, hg, hsame⟩ := hfollows
  refine ⟨⟨g, hg, hsame.nodes.symm, hsame.published.symm⟩, fun i hraised => ?_⟩
  have hother := hsame.raised i hraised
  refine ⟨hother, ((hkey i).resolve_left fun hmac => ?_).2⟩
  rw [hmac] at hother
  cases hother

/-- Whoever has no key can bring this about at a node with a validator. -/
theorem exists_raised (h : Reachable P cfg key s) {i : ι} (hother : key.signerType i = .other)
    (hvalidator : (cfg i).pubSub.securityOptions.hasValidator = true) {x : SignedInterest}
    (hx : ¬key.Genuine x) :
    ∃ s', Reachable P cfg key s' ∧ s'.nodes = s.nodes ∧ s'.raised i = s.raised i ++ [x] := by
  have hsent := h.step (.inject x fun hgenuine => absurd hgenuine hx)
  have harrived := hsent.step (.arrive i (.atMs 0) 0 x none false
    (List.mem_append_right _ List.mem_cons_self) fun hverified => absurd hverified Bool.false_ne_true)
  rw [arrive, hother, hvalidator, SVSyncCore.onSyncInterest, if_pos rfl] at harrived
  -- the validator is asked, and rejects
  have hrejected := harrived.step (.reject i x none (by simp))
  exact ⟨_, hrejected, rfl, by simp⟩

/-! ## Two nodes and somebody else -/

/-- Both nodes use HMAC, where a byte before the parameters stands for the signature. -/
def duoKey : GroupKey (Fin 2) where
  signerType _ := .HMAC
  sign _ bytes := 1 :: bytes
  Genuine x := ∃ bytes, x.applicationParameters = some bytes ∧ x.signature = 1 :: bytes

/-- The vector says that `/a` has published nine times. -/
def duoForged : SignedInterest := ⟨some [201, 10, 202, 8, 7, 3, 8, 1, 97, 204, 1, 9], [0]⟩

/-- The forged Interest is dropped, and that of `/a` arrives. -/
theorem secured_refines_duo :
    ∃ s, Reachable .plain Group.duo duoKey s ∧ (s.nodes 1).core.vv.get (.ofBytes [[97]]) = 1 ∧
      duoForged ∈ s.flight ∧ (∃ g, Group.Reachable .plain Group.duo g ∧ g.nodes = s.nodes) ∧
        s.raised 1 = [] := by
  have hinit : Reachable .plain Group.duo duoKey (init Group.duo (fun _ => 0) fun _ => 0) := .init _ _
  have hpublished := hinit.step (.other _ (.publish 0 (.atMs 1) Group.duoCall (by decide)) rfl)
  have hsent := (hpublished.step (.fire 0 (.atMs 40000) 0 .start (Or.inl rfl) (by decide +kernel))).step
    (.inject duoForged (by
      rintro ⟨bytes, -, hsignature⟩
      exact absurd (List.cons.inj hsignature).1 (by decide)))
  have hdropped := hsent.step (.arrive 1 (.atMs 40001) 0 duoForged none false
    (List.mem_append_right _ List.mem_cons_self) fun hverified => absurd hverified Bool.false_ne_true)
  have hrun := hdropped.step (.arrive 1 (.atMs 40002) 0 ⟨some Group.duoInterest, 1 :: Group.duoInterest⟩ none true
    (by decide +kernel) fun _ => ⟨_, rfl, rfl⟩)
  obtain ⟨⟨g, hg, hnodes, -⟩, hraised⟩ := secured_refines (fun _ => Or.inl rfl) hrun
  refine ⟨_, hrun, by decide +kernel, by decide +kernel, ⟨g, hg, hnodes⟩, ?_⟩
  by_contra hne
  cases (hraised 1 hne).1

end SecuredGroup

end Svs
