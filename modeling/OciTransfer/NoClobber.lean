import OciTransfer.CopyHandler

/-!
The replacement policy `no_clobber`.

Before the copy the handler reads the destination and refuses the request if
the read returns another digest.  A read that fails is passed over, for whatever
reason it has failed, so the policy is kept exactly if the only failures are
those which show that the destination is absent.
-/

namespace OciTransfer

variable {Ref : Type}

/-- The reply to the first read of a manifest. -/
def firstRead : List (Dialogue.Exchange (@RegistryCall.Reply Ref)) →
    Option (Except ServiceError String)
  | [] => none
  | ⟨.manifestHead _, reply⟩ :: _ => some reply
  | ⟨.connect _, _⟩ :: later => firstRead later
  | ⟨.imageCopy _ _ _, _⟩ :: later => firstRead later
  | ⟨.close _, _⟩ :: later => firstRead later

/-- The target of every copy has been read before, and was absent or had the
planned digest. -/
def CopiesOverNothingElse (absent : ServiceError → Prop) (rootDigest : String)
    (calls : List (Dialogue.Exchange (@RegistryCall.Reply Ref))) : Prop :=
  ∀ earlier source target options reply later,
    calls = earlier ++ ⟨.imageCopy source target options, reply⟩ :: later →
    ⟨.manifestHead target, .ok rootDigest⟩ ∈ earlier ∨
      ∃ error, absent error ∧ ⟨.manifestHead target, .error error⟩ ∈ earlier

def RegistryCall.isCopy : RegistryCall Ref → Bool
  | .imageCopy _ _ _ => true
  | _ => false

def Copies (calls : List (Dialogue.Exchange (@RegistryCall.Reply Ref))) : Prop :=
  ∃ exchange ∈ calls, exchange.1.isCopy = true

private theorem Transfer.conflicts_eq_false {transfer : Transfer Ref}
    {existing : Except ServiceError String}
    (policy : transfer.request.snapshot.replacementPolicy = "no_clobber") :
    transfer.conflicts existing = false ↔
      existing = .ok transfer.rootDigest ∨ ∃ error, existing = .error error := by
  cases existing with
  | error error => exact ⟨fun _ => Or.inr ⟨error, rfl⟩, fun _ => rfl⟩
  | ok digest => simp [conflicts, policy]

namespace Service

variable {service : Service} {references : References Ref} {transfer : Transfer Ref}
  {response : Response} {transcript : List (Dialogue.Exchange (@RegistryCall.Reply Ref))}

private theorem verify_asks (service : Service) (references : References Ref)
    (transfer : Transfer Ref) :
    (service.verify references transfer).Asks fun call => call.isCopy = false := by
  refine ⟨rfl, fun reply => ?_⟩
  cases reply with
  | error error => trivial
  | ok digest =>
      simp only []
      split
      · trivial
      · split
        · refine ⟨rfl, fun tagged => ?_⟩
          cases tagged with
          | error error => trivial
          | ok digest =>
              simp only []
              split <;> trivial
        · trivial

private theorem exchange_copies
    (concludes : (service.exchange references transfer).Concludes transcript response) :
    ∃ existing rest,
      transcript = ⟨.manifestHead (transfer.destinationPublish references), existing⟩ :: rest ∧
      (transfer.conflicts existing = true → rest = []) ∧
      (transfer.conflicts existing = false → ∃ reply later,
        rest = ⟨.imageCopy (transfer.sourceByDigest references)
          (transfer.destinationPublish references) transfer.options, reply⟩ :: later ∧
        ¬ Copies later) := by
  obtain ⟨existing, rest, rfl, going⟩ := Dialogue.concludes_ask.mp concludes
  refine ⟨existing, rest, rfl, fun conflict => ?_, fun free => ?_⟩
  · rw [if_pos conflict] at going
    exact (Dialogue.concludes_done.mp going).1
  · rw [if_neg (Bool.eq_false_iff.mp free)] at going
    obtain ⟨⟨callbacks, failure⟩, later, rfl, ending⟩ := Dialogue.concludes_ask.mp going
    refine ⟨(callbacks, failure), later, rfl, ?_⟩
    rintro ⟨exchange, member, copies⟩
    cases failure with
    | some error =>
        rw [(Dialogue.concludes_done.mp ending).1] at member
        cases member
    | none =>
        obtain ⟨verifying, last, tail, rfl, verified, done⟩ := Dialogue.concludes_bind.mp ending
        rw [(Dialogue.concludes_done.mp done).1, List.append_nil] at member
        have reads := verified.asks (service.verify_asks references transfer) exchange member
        rw [copies] at reads
        cases reads

end Service

section Transcript

variable {absent : ServiceError → Prop} {rootDigest : String}
  {calls tail : List (Dialogue.Exchange (@RegistryCall.Reply Ref))}

private theorem copiesOver_of_none (none : ¬ Copies calls) :
    CopiesOverNothingElse absent rootDigest calls := by
  rintro earlier source target options reply later rfl
  exact absurd ⟨_, List.mem_append_right earlier List.mem_cons_self, rfl⟩ none

/-- With one copy, right after the read of its target, the read decides. -/
theorem copiesOver_iff {hosts : List Host} {source target : Ref} {options : ImageOptions}
    {existing : Except ServiceError String} {reply : List Callback × Option ServiceError}
    (single : ¬ Copies tail) :
    CopiesOverNothingElse absent rootDigest
        (⟨.connect hosts, ()⟩ :: ⟨.manifestHead target, existing⟩ ::
          ⟨.imageCopy source target options, reply⟩ :: tail) ↔
      existing = .ok rootDigest ∨ ∃ error, absent error ∧ existing = .error error := by
  constructor
  · intro guarded
    have readFirst : ∀ wanted : Except ServiceError String,
        (⟨.manifestHead target, wanted⟩ : Dialogue.Exchange (@RegistryCall.Reply Ref)) ∈
          [⟨.connect hosts, ()⟩, ⟨.manifestHead target, existing⟩] → existing = wanted := by
      intro wanted member
      rcases List.mem_cons.mp member with impossible | member
      · cases impossible
      · cases List.mem_singleton.mp member
        rfl
    rcases guarded [⟨.connect hosts, ()⟩, ⟨.manifestHead target, existing⟩] source target options
      reply
      tail rfl with planned | ⟨error, isAbsent, failed⟩
    · exact Or.inl (readFirst _ planned)
    · exact Or.inr ⟨error, isAbsent, readFirst _ failed⟩
  · intro shown earlier otherSource otherTarget otherOptions otherReply later same
    match earlier with
    | [] => cases same
    | [_] => cases same
    | [first, second] =>
        cases same
        rcases shown with rfl | ⟨error, isAbsent, rfl⟩
        · exact Or.inl (List.mem_cons_of_mem _ List.mem_cons_self)
        · exact Or.inr ⟨error, isAbsent, List.mem_cons_of_mem _ List.mem_cons_self⟩
    | first :: second :: third :: rest =>
        simp only [List.cons_append, List.cons.injEq] at same
        obtain ⟨-, -, -, rfl⟩ := same
        exact absurd ⟨_, List.mem_append_right rest List.mem_cons_self, rfl⟩ single

end Transcript

namespace Service

variable {absent : ServiceError → Prop} {service : Service} {references : References Ref}
  {id : String} {request : CopyRequest} {response : Response}
  {transcript : List (Dialogue.Exchange (@RegistryCall.Reply Ref))}

/-- The calls for a `no_clobber` request: none, a read that shows a conflict, or
another read and one copy to its target. -/
theorem no_clobber_calls
    (concludes : (service.copy references id (some request)).Concludes transcript response)
    (policy : request.snapshot.replacementPolicy = "no_clobber") :
    (¬ Copies transcript ∧ ∀ error, firstRead transcript ≠ some (.error error)) ∨
    ∃ hosts source target options reply tail existing,
      transcript = ⟨.connect hosts, ()⟩ :: ⟨.manifestHead target, existing⟩ ::
        ⟨.imageCopy source target options, reply⟩ :: tail ∧ ¬ Copies tail ∧
      (existing = .ok request.snapshot.rootDigest ∨ ∃ error, existing = .error error) := by
  rcases Service.copy_concludes concludes with
    ⟨rfl, -⟩ | ⟨accepted, transfer, hosts, calls, isAccepted, valid, exchanged, rfl⟩
  · left
    constructor
    · rintro ⟨exchange, member, -⟩
      cases member
    · intro error impossible
      cases impossible
  · obtain rfl : request = accepted := Option.some.inj (Service.accept_ok isAccepted)
    obtain ⟨rfl, -⟩ := Service.validate_ok valid
    obtain ⟨existing, rest, rfl, refuses, goesOn⟩ := Service.exchange_copies exchanged
    cases conflict : transfer.conflicts existing with
    | true =>
        left
        rw [refuses conflict]
        constructor
        · rintro ⟨exchange, member, copies⟩
          rcases List.mem_cons.mp member with rfl | member
          · cases copies
          · rcases List.mem_cons.mp member with rfl | member
            · cases copies
            · rw [List.mem_singleton.mp member] at copies
              cases copies
        · intro error failed
          obtain rfl : existing = .error error := Option.some.inj failed
          cases conflict
    | false =>
        right
        obtain ⟨reply, later, rfl, single⟩ := goesOn conflict
        refine ⟨hosts, _, _, _, reply, later ++ [_], existing, rfl, ?_,
          (Transfer.conflicts_eq_false policy).mp conflict⟩
        rintro ⟨exchange, member, copies⟩
        rcases List.mem_append.mp member with earlier | last
        · exact single ⟨exchange, earlier, copies⟩
        · rw [List.mem_singleton.mp last] at copies
          cases copies

private theorem copiesOver_iff_read
    (concludes : (service.copy references id (some request)).Concludes transcript response)
    (policy : request.snapshot.replacementPolicy = "no_clobber") :
    CopiesOverNothingElse absent request.snapshot.rootDigest transcript ↔
      ∀ error, firstRead transcript = some (.error error) → absent error := by
  rcases no_clobber_calls concludes policy with
    ⟨none, notFailed⟩ | ⟨hosts, source, target, options, reply, tail, existing, rfl, single, passed⟩
  · constructor
    · intro _ error failed
      exact absurd failed (notFailed error)
    · intro _
      exact copiesOver_of_none none
  · refine Iff.trans (copiesOver_iff single) ?_
    change _ ↔ ∀ error, some existing = some (.error error) → absent error
    constructor
    · rintro (rfl | ⟨error, isAbsent, rfl⟩) other failed
      · cases failed
      · cases failed
        exact isAbsent
    · intro known
      rcases passed with planned | ⟨error, rfl⟩
      · exact Or.inl planned
      · exact Or.inr ⟨error, known error rfl, rfl⟩

end Service

/-- For a `no_clobber` request every copy is preceded by a read which shows that
its target is absent or has the planned digest, if and only if the read before
the copy fails with no error but those of an absent target; then a target that
has another digest throughout is not written. -/
theorem no_clobber_fails_closed_iff (absent : ServiceError → Prop) {service : Service}
    {references : References Ref} {id : String} {request : CopyRequest} {response : Response}
    {transcript : List (Dialogue.Exchange (@RegistryCall.Reply Ref))}
    (concludes : (service.copy references id (some request)).Concludes transcript response)
    (policy : request.snapshot.replacementPolicy = "no_clobber") :
    (CopiesOverNothingElse absent request.snapshot.rootDigest transcript ↔
      ∀ error, firstRead transcript = some (.error error) → absent error) ∧
    ((∀ error, firstRead transcript = some (.error error) → absent error) →
      (∀ reply, firstRead transcript = some reply → reply ≠ .ok request.snapshot.rootDigest ∧
        ∀ error, absent error → reply ≠ .error error) → ¬ Copies transcript) := by
  refine ⟨Service.copiesOver_iff_read concludes policy, fun known otherwise => ?_⟩
  rcases Service.no_clobber_calls concludes policy with
    ⟨none, -⟩ | ⟨hosts, source, target, options, reply, tail, existing, rfl, -, passed⟩
  · exact none
  · obtain ⟨notPlanned, notAbsent⟩ := otherwise existing rfl
    rcases passed with planned | ⟨error, rfl⟩
    · exact absurd planned notPlanned
    · exact absurd rfl (notAbsent error (known error rfl))

/-- Only a 404 shows that the target is absent. -/
def shownAbsent (error : ServiceError) : Prop :=
  error = .other "request failed: not found [http 404]"

def failingFirst (text : String) (said : List (Dialogue.Exchange (@RegistryCall.Reply SampleRef))) :
    Except ServiceError String :=
  if said.length = 1 then .error (.other text) else .ok "sha256:aa"

private theorem copies_after_failed_read (text : String) :
    ∃ transcript response, (sampleService.copy sampleReferences "operation"
        (some sampleRequest)).Concludes transcript response ∧ Copies transcript ∧
      firstRead transcript = some (.error (.other text)) := by
  obtain ⟨transcript, said, concludes⟩ := Dialogue.converse_concludes
    (sampleRegistries (failingFirst text))
    (sampleService.copy sampleReferences "operation" (some sampleRequest)) []
  rw [List.nil_append] at said
  refine ⟨transcript, _, concludes, ?_, ?_⟩
  · rw [← said]
    exact ⟨_, List.mem_cons_of_mem _ (List.mem_cons_of_mem _ List.mem_cons_self), rfl⟩
  · rw [← said]
    rfl

theorem no_clobber_fails_closed_when_absent :
    ∃ transcript response, (sampleService.copy sampleReferences "operation"
        (some sampleRequest)).Concludes transcript response ∧ Copies transcript ∧
      CopiesOverNothingElse shownAbsent "sha256:aa" transcript := by
  obtain ⟨transcript, response, concludes, copies, failed⟩ :=
    copies_after_failed_read "request failed: not found [http 404]"
  refine ⟨transcript, response, concludes, copies,
    (no_clobber_fails_closed_iff shownAbsent concludes rfl).1.mpr fun error same => ?_⟩
  rw [failed] at same
  cases same
  rfl

/-- The registry answers the read with a 503, and the copy goes ahead. -/
theorem copy_goes_ahead_when_read_fails :
    ¬ ∀ (service : Service) (references : References SampleRef) (id : String)
      (request : CopyRequest) (response : Response)
      (transcript : List (Dialogue.Exchange (@RegistryCall.Reply SampleRef))),
      (service.copy references id (some request)).Concludes transcript response →
      request.snapshot.replacementPolicy = "no_clobber" →
      CopiesOverNothingElse shownAbsent request.snapshot.rootDigest transcript := by
  intro claimed
  obtain ⟨transcript, response, concludes, -, failed⟩ :=
    copies_after_failed_read "request failed: unexpected http status code [http 503]"
  have guarded := claimed _ _ _ _ _ _ concludes rfl
  have known := (Service.copiesOver_iff_read concludes rfl).mp guarded _ failed
  exact absurd (ServiceError.other.inj known) (by decide)

end OciTransfer
