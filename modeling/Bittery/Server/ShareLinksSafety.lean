/-
The accesses of a share link are accounted for: an access is counted once, by a request that
then returns the content, is on its way to it, or has given up; so a link is never returned
more often than its limit allows. That nothing is given up, and nothing returned too late,
holds as long as nothing gets between the count and the return.

Every statement of a request does one of five things to its link (`Resumes`).
-/
import Bittery.Server.ShareLinks
import Mathlib.Data.List.Count

namespace Bittery

open Lib

/-- The link a request has loaded. -/
def ShareAwait.link : ShareAwait → Option ShareLink
  | .load | .ended _ => none
  | .entitlement link | .consumeAccess link | .verify link _ _ | .markVerified link | .log link _ _ => some link

/-- The code that a request uses up next can still be used. -/
def ShareRequest.codeLeft (t : ShareRequest) (codes : Codes) (now : Time) : Bool :=
  match t.await with
  | .verify _ _ code =>
    match code.await with
    | .consume id => codes.any (·.isConsumable code.purpose id now)
    | _ => true
  | _ => true

namespace ShareState

/-- How often the content of a link was returned. -/
def returns (q : ShareState) (id : String) : Nat := q.returned.countP (·.link.id = id)

/-- How many requests have counted an access of a link, and are on their way to return it. -/
def holding (q : ShareState) (id : String) : Nat := q.requests.countP (·.holds = some id)

/-- Nothing gets between the count of an access and the return of the content: the link is not
revoked and does not expire, its code is not used up by another request, and no statement fails. -/
def Uninterrupted (q : ShareState) (a : Time × ShareLabel) : Prop :=
  match a.2 with
  | .revoke id => ∀ t ∈ q.requests, t.holds ≠ some id
  | .fail k => ∀ t ∈ q.requests[k]?, t.holds = none
  | .resume k _ => ∀ t ∈ q.requests[k]?, ∀ id ∈ t.holds,
      (∀ r ∈ q.links.rows, r.id = id → a.1 < r.expiresAt) ∧ t.codeLeft q.codes a.1 = true
  | _ => True

instance (q : ShareState) : (a : Time × ShareLabel) → Decidable (q.Uninterrupted a)
  | (_, .revoke id) => inferInstanceAs (Decidable (∀ t ∈ q.requests, t.holds ≠ some id))
  | (_, .fail k) => inferInstanceAs (Decidable (∀ t ∈ q.requests[k]?, t.holds = none))
  | (now, .resume k _) => inferInstanceAs (Decidable (∀ t ∈ q.requests[k]?, ∀ id ∈ t.holds,
      (∀ r ∈ q.links.rows, r.id = id → now < r.expiresAt) ∧ t.codeLeft q.codes now = true))
  | (_, .create _) | (_, .accessPublic _) | (_, .verifyEmailAndAccess _ _ _) | (_, .issue _ _ _ _)
  | (_, .resumeIssue _ _) => .isTrue trivial

end ShareState

/-! ## What a statement does -/

/-- A row that differs in nothing that an access reads or writes. -/
structure ShareLink.SameAccess (r r' : ShareLink) : Prop where
  id : r'.id = r.id
  status : r'.status = r.status
  isOneTimeUse : r'.isOneTimeUse = r.isOneTimeUse
  accessCount : r'.accessCount = r.accessCount
  maxAccessCount : r'.maxAccessCount = r.maxAccessCount
  expiresAt : r'.expiresAt = r.expiresAt

theorem ShareLink.SameAccess.refl (r : ShareLink) : r.SameAccess r := ⟨rfl, rfl, rfl, rfl, rfl, rfl⟩

/-- Tables whose rows differ in nothing that an access reads or writes. -/
def ShareLinks.SameAccess (links links' : ShareLinks) : Prop :=
  (∀ r' ∈ links', ∃ r ∈ links, r.SameAccess r') ∧ ∀ r ∈ links, ∃ r' ∈ links', r.SameAccess r'

theorem ShareLinks.SameAccess.refl (links : ShareLinks) : links.SameAccess links :=
  ⟨fun r hr => ⟨r, hr, .refl r⟩, fun r hr => ⟨r, hr, .refl r⟩⟩

theorem ShareLinks.sameAccess_markVerified (links : ShareLinks) (id email : String) :
    links.SameAccess (links.updateWhere (·.id = id) (·.markVerified email)) := by
  have hrow : ∀ r : ShareLink, r.SameAccess (if r.id = id then r.markVerified email else r) := by
    intro r
    split
    · exact ⟨rfl, rfl, rfl, rfl, rfl, rfl⟩
    · exact .refl r
  constructor
  · intro r' hr'
    obtain ⟨r, hr, rfl⟩ := Table.mem_updateWhere.mp hr'
    exact ⟨r, hr, by simpa using hrow r⟩
  · intro r hr
    exact ⟨_, Table.mem_updateWhere.mpr ⟨r, hr, rfl⟩, by simpa using hrow r⟩

/-- The verification has neither accepted the code nor is about to use it up. -/
def CodeAwait.pending : CodeAwait → Bool
  | .consume _ | .ended (some (.valid _)) => false
  | _ => true

/-- A failed attempt is counted for a code that was not accepted. -/
def CodeAwait.sound : CodeAwait → Bool
  | .recordFailure (.valid _) => false
  | _ => true

namespace CodeRequest

variable {hashToken : String → String} {codes : Codes} {ok : Bool} {now : Time} {code : CodeRequest}
  {x : Codes × List CodeEvent} {await : CodeAwait} {shareLinkId : String}

/-- Before the code of a link is used up, its verification accepts nothing. -/
theorem resume_pending (hpurpose : code.purpose = .shareEmail shareLinkId) (hsound : code.await.sound = true)
    (haccess : ∀ id, code.await ≠ .access id) (hconsume : ∀ id, code.await ≠ .consume id)
    (h : code.resume hashToken codes ok now = some (x, await)) : await.pending = true ∧ await.sound = true := by
  unfold CodeRequest.resume at h
  cases hawait : code.await with
  | access id => exact absurd hawait (haccess id)
  | consume id => exact absurd hawait (hconsume id)
  | ended outcome =>
    rw [hawait] at h
    cases h
  | insert id codeHash expiresAt =>
    rw [hawait] at h
    obtain ⟨codes', _, heq⟩ := Option.map_eq_some_iff.mp h
    cases heq
    exact ⟨rfl, rfl⟩
  | verify codeHash hadActiveCode =>
    rw [hawait] at h
    dsimp only at h
    split at h
    · simp only [Option.some.injEq, Prod.mk.injEq] at h
      rw [← h.2]
      cases hadActiveCode <;> split <;> exact ⟨rfl, rfl⟩
    · simp only [Option.some.injEq, Prod.mk.injEq] at h
      rw [← h.2]
      exact ⟨rfl, rfl⟩
  | findActive at' hadActiveCode =>
    rw [hawait] at h
    dsimp only at h
    split at h
    · simp only [Option.some.injEq, Prod.mk.injEq] at h
      rw [← h.2]
      exact ⟨rfl, rfl⟩
    · simp only [Option.some.injEq, Prod.mk.injEq] at h
      rw [← h.2]
      cases hadActiveCode <;> exact ⟨rfl, rfl⟩
  | recordFailure outcome =>
    rw [hawait] at h hsound
    simp only [Option.some.injEq, Prod.mk.injEq] at h
    rw [← h.2]
    split
    · cases outcome with
      | valid id => cases hsound
      | _ => exact ⟨rfl, rfl⟩
    · exact ⟨rfl, rfl⟩
  | recordFailed verification at' hadActiveCode =>
    rw [hawait] at h
    simp only [Option.some.injEq, Prod.mk.injEq] at h
    rw [← h.2]
    cases hadActiveCode <;> exact ⟨rfl, rfl⟩
  | clear id =>
    rw [hawait] at h
    simp only [hpurpose, Option.some.injEq, Prod.mk.injEq] at h
    rw [← h.2]
    exact ⟨rfl, rfl⟩
  | isLocked guess =>
    rw [hawait] at h
    simp only [Option.some.injEq, Prod.mk.injEq] at h
    rw [← h.2]
    split
    · exact ⟨rfl, rfl⟩
    · split <;> exact ⟨rfl, rfl⟩
  | deliver id =>
    rw [hawait] at h
    simp only [Option.some.injEq, Prod.mk.injEq] at h
    rw [← h.2]
    split <;> exact ⟨rfl, rfl⟩
  | undelivered id =>
    rw [hawait] at h
    simp only [Option.some.injEq, Prod.mk.injEq] at h
    rw [← h.2]
    exact ⟨rfl, rfl⟩
  | hasActiveCode codeHash =>
    rw [hawait] at h
    simp only [Option.some.injEq, Prod.mk.injEq] at h
    rw [← h.2]
    exact ⟨rfl, rfl⟩
  | invalidatePending =>
    rw [hawait] at h
    simp only [Option.some.injEq, Prod.mk.injEq] at h
    rw [← h.2]
    exact ⟨rfl, rfl⟩

/-- The code is used up, or was by another. -/
theorem resume_consume {id : String} (hawait : code.await = .consume id)
    (h : code.resume hashToken codes ok now = some (x, await)) :
    codes.any (·.isConsumable code.purpose id now) = true ∧ await = .ended (some (.valid id)) ∨
      codes.any (·.isConsumable code.purpose id now) = false ∧ await = .ended (some .invalid) := by
  unfold CodeRequest.resume at h
  rw [hawait] at h
  dsimp only at h
  split at h
  · next hc =>
    simp only [Option.some.injEq, Prod.mk.injEq] at h
    exact .inl ⟨hc, h.2.symm⟩
  · next hc =>
    simp only [Option.some.injEq, Prod.mk.injEq] at h
    exact .inr ⟨Bool.eq_false_iff.mpr hc, h.2.symm⟩

end CodeRequest

namespace ShareRequest

variable {hashToken : String → String} {links links' : ShareLinks} {codes codes' : Codes} {events : List CodeEvent}
  {ok : Bool} {now : Time} {t : ShareRequest} {await : ShareAwait}

/-- The verification of a request is that of its link. -/
structure Sound (t : ShareRequest) : Prop where
  code : ∀ link started code, t.await = .verify link started code →
    code.purpose = .shareEmail link.id ∧ code.await.sound = true

theorem sound_of_noCode (h : ∀ link started code, t.await ≠ .verify link started code) : Sound t :=
  ⟨fun link started code heq => absurd heq (h link started code)⟩

/-- Where a request can get to without an access. -/
structure Quiet (t : ShareRequest) (link : ShareLink) (await : ShareAwait) : Prop where
  holds : { t with await := await }.holds = none
  link : ∀ other, await.link = some other → other = link
  sound : Sound { t with await := await }

theorem quiet_ended (link : ShareLink) (answer : Option ShareAnswer) : Quiet t link (.ended answer) where
  holds := rfl
  link := fun _ h => by cases h
  sound := sound_of_noCode fun _ _ _ h => by cases h

theorem quiet_refuse (link : ShareLink) (reason : String) (error : AppError) :
    Quiet t link (t.refuse link reason error) where
  holds := rfl
  link := fun _ h => by cases h; rfl
  sound := sound_of_noCode fun _ _ _ h => by cases h

theorem quiet_publicState (link : ShareLink) (state : Option InvalidShare) : Quiet t link (t.publicState link state) := by
  cases state with
  | some reason => cases reason <;> exact quiet_refuse ..
  | none => exact ⟨rfl, fun _ h => by cases h; rfl, sound_of_noCode fun _ _ _ h => by cases h⟩

theorem quiet_verifiedState (link : ShareLink) (started : Time) (email code : String) (state : Option InvalidShare) :
    Quiet t link (t.verifiedState link started email code state) := by
  cases state with
  | some reason => cases reason <;> exact quiet_refuse ..
  | none =>
    simp only [verifiedState]
    split
    · exact ⟨rfl, fun _ h => by cases h; rfl, ⟨fun _ _ _ h => by cases h; exact ⟨rfl, rfl⟩⟩⟩
    · exact quiet_refuse ..

/-- A verification that goes on accepts nothing yet. -/
theorem quiet_verification {link : ShareLink} {started : Time} {code : CodeRequest} (h : code.await.pending = true)
    (hpurpose : code.purpose = .shareEmail link.id) (hsound : code.await.sound = true) :
    Quiet t link (t.verification link started code) := by
  have hgoesOn : Quiet t link (.verify link started code) := by
    refine ⟨?_, fun _ heq => by cases heq; rfl, ⟨fun _ _ _ heq => by cases heq; exact ⟨hpurpose, hsound⟩⟩⟩
    simp only [ShareRequest.holds]
    split
    · next hawait => rw [hawait] at h; cases h
    · rfl
  unfold verification
  split
  · next hawait => rw [hawait] at h; cases h
  · exact quiet_refuse ..
  · exact quiet_refuse ..
  · exact quiet_refuse ..
  · exact quiet_refuse ..
  · exact quiet_ended ..
  · exact hgoesOn

/-- The five things a statement does to the link of its request. -/
inductive Resumes (links : ShareLinks) (codes : Codes) (now : Time) (t : ShareRequest) :
    ShareLinks → ShareRequest → Prop
  | idle (t' : ShareRequest) : t.holds = none → t'.holds = none →
    (∀ link, t'.await.link = some link → t.await.link = some link ∨ link ∈ links) → Resumes links codes now t links t'
  | counts (t' : ShareRequest) (link : ShareLink) (at' : Time) : t.holds = none → t'.holds = some link.id →
    t.await.link = some link → t'.await.link = some link → links.any (·.isConsumable link.id at') = true →
    Resumes links codes now t (links.updateWhere (·.isConsumable link.id at') (·.access at')) t'
  | goesOn (links' : ShareLinks) (t' : ShareRequest) (link : ShareLink) : links.SameAccess links' →
    t.holds = some link.id → t'.holds = some link.id → t.await.link = some link → t'.await.link = some link →
    Resumes links codes now t links' t'
  | returns (t' : ShareRequest) (link : ShareLink) (content : PublicShareAccessResponse) : t.holds = some link.id →
    t.await.link = some link → t'.await = .ended (some (.ok content)) → Resumes links codes now t links t'
  | givesUp (t' : ShareRequest) (link : ShareLink) : t.holds = some link.id → t'.holds = none →
    t.await.link = some link → (∀ other, t'.await.link = some other → other = link) →
    (∀ content, t'.await ≠ .ended (some (.ok content))) →
    (t'.await = .ended none ∨ ∃ started code verificationId, t.await = .verify link started code ∧
      code.await = .consume verificationId ∧
        codes.any (·.isConsumable code.purpose verificationId now) = false) → Resumes links codes now t links t'

theorem Quiet.resumes {link : ShareLink} (h : Quiet t link await) (hlink : t.await.link = some link)
    (hold : t.holds = none) :
    Resumes links codes now t links { t with await := await } ∧ Sound { t with await := await } :=
  ⟨.idle _ hold h.holds fun other hother => .inl (by rw [hlink, h.link other hother]), h.sound⟩

/-- An access of a link that was loaded. -/
theorem resumes_consume {link : ShareLink} {at' : Time} {next : ShareAwait} (hold : t.holds = none)
    (hlink : t.await.link = some link) (hnext : { t with await := next }.holds = some link.id)
    (hnextLink : next.link = some link) (hsound : Sound { t with await := next }) :
    Resumes links codes now t (t.consume links link at' next).1 { t with await := (t.consume links link at' next).2 } ∧
      Sound { t with await := (t.consume links link at' next).2 } := by
  unfold consume
  split
  · next hc => exact ⟨.counts _ link at' hold hnext hlink hnextLink hc, hsound⟩
  · exact (quiet_refuse ..).resumes hlink hold

/-- **Inversion.** -/
theorem resumes (hsound : Sound t)
    (h : t.resume hashToken links codes ok now = some ((links', codes', events), await)) :
    Resumes links codes now t links' { t with await := await } ∧ Sound { t with await := await } := by
  cases hawait : t.await with
  | load =>
    simp only [resume, hawait, Option.some.injEq, Prod.mk.injEq] at h
    obtain ⟨⟨rfl, -, -⟩, rfl⟩ := h
    have hold : t.holds = none := by simp [ShareRequest.holds, hawait]
    have hended : ∀ answer, Resumes links codes now t links { t with await := .ended answer } ∧
        Sound { t with await := .ended answer } := fun answer =>
      ⟨.idle _ hold rfl (fun _ hlink => by cases hlink), sound_of_noCode fun _ _ _ hcode => by cases hcode⟩
    split
    · exact hended _
    split
    · exact hended _
    · next link hfound =>
      refine ⟨.idle _ hold rfl fun other hother => .inr ?_, sound_of_noCode fun _ _ _ hcode => by cases hcode⟩
      cases hother
      exact (Table.mem_select.mp (List.mem_of_mem_head? hfound)).1
  | entitlement link =>
    simp only [resume, hawait, Option.some.injEq, Prod.mk.injEq] at h
    obtain ⟨⟨rfl, -, -⟩, rfl⟩ := h
    have hold : t.holds = none := by simp [ShareRequest.holds, hawait]
    have hlink : t.await.link = some link := by rw [hawait]; rfl
    split
    · exact (quiet_publicState ..).resumes hlink hold
    · exact (quiet_verifiedState ..).resumes hlink hold
  | consumeAccess link =>
    simp only [resume, hawait, Option.some.injEq, Prod.mk.injEq] at h
    obtain ⟨⟨rfl, -, -⟩, rfl⟩ := h
    exact resumes_consume (by simp [ShareRequest.holds, hawait]) (by rw [hawait]; rfl) rfl rfl
      (sound_of_noCode fun _ _ _ hcode => by cases hcode)
  | verify link started code =>
    obtain ⟨hpurpose, hcode⟩ := hsound.code link started code hawait
    have hlink : t.await.link = some link := by rw [hawait]; rfl
    by_cases haccess : ∃ id, code.await = .access id
    · obtain ⟨id, haccess⟩ := haccess
      simp only [resume, hawait, haccess, Option.some.injEq, Prod.mk.injEq] at h
      obtain ⟨⟨rfl, -, -⟩, rfl⟩ := h
      exact resumes_consume (by simp [ShareRequest.holds, hawait, haccess]) hlink rfl rfl
        ⟨fun _ _ _ heq => by cases heq; exact ⟨hpurpose, rfl⟩⟩
    have hnotAccess : ∀ id, code.await ≠ .access id := fun id heq => haccess ⟨id, heq⟩
    -- the statement is one of the verification
    have hresume : ((code.resume hashToken codes ok now).map fun r =>
        ((links, r.1.1, r.1.2), t.verification link started { code with await := r.2 })) =
          some ((links', codes', events), await) := by
      simpa only [resume, hawait] using h
    obtain ⟨⟨x, next⟩, hx, heq⟩ := Option.map_eq_some_iff.mp hresume
    simp only [Prod.mk.injEq] at heq
    obtain ⟨⟨rfl, -, -⟩, rfl⟩ := heq
    by_cases hconsume : ∃ id, code.await = .consume id
    · obtain ⟨id, hconsume⟩ := hconsume
      have hold : t.holds = some link.id := by simp [ShareRequest.holds, hawait, hconsume]
      obtain ⟨-, rfl⟩ | ⟨hlost, rfl⟩ := CodeRequest.resume_consume hconsume hx
      · exact ⟨.goesOn _ _ link (.refl links) hold rfl hlink rfl, sound_of_noCode fun _ _ _ h => by cases h⟩
      · exact ⟨.givesUp _ link hold rfl hlink (fun _ h => by cases h; rfl) (fun _ h => by cases h)
          (.inr ⟨started, code, id, hawait, hconsume, hlost⟩), sound_of_noCode fun _ _ _ h => by cases h⟩
    · have hnotConsume : ∀ id, code.await ≠ .consume id := fun id heq => hconsume ⟨id, heq⟩
      obtain ⟨hpending, hnext⟩ := CodeRequest.resume_pending hpurpose hcode hnotAccess hnotConsume hx
      have hquiet : Quiet t link (t.verification link started { code with await := next }) :=
        quiet_verification hpending hpurpose hnext
      refine hquiet.resumes hlink ?_
      simp only [ShareRequest.holds, hawait]
  | markVerified link =>
    simp only [resume, hawait, Option.some.injEq, Prod.mk.injEq] at h
    obtain ⟨⟨rfl, -, -⟩, rfl⟩ := h
    exact ⟨.goesOn _ _ link (links.sameAccess_markVerified _ _) (by simp [ShareRequest.holds, hawait]) rfl
      (by rw [hawait]; rfl) rfl, sound_of_noCode fun _ _ _ hcode => by cases hcode⟩
  | log link entry answer =>
    simp only [resume, hawait, Option.some.injEq, Prod.mk.injEq] at h
    obtain ⟨⟨rfl, -, -⟩, rfl⟩ := h
    refine ⟨?_, sound_of_noCode fun _ _ _ hcode => by cases hcode⟩
    cases answer with
    | ok content => exact .returns _ link content (by simp [ShareRequest.holds, hawait]) (by rw [hawait]; rfl) rfl
    | error error => exact .idle _ (by simp [ShareRequest.holds, hawait]) rfl fun _ hlink => by cases hlink
  | ended answer =>
    simp only [resume, hawait] at h
    cases h

theorem link_of_holds {id : String} (h : t.holds = some id) : ∃ link, t.await.link = some link ∧ link.id = id := by
  unfold ShareRequest.holds at h
  split at h
  · next link started code hawait =>
    split at h
    · cases h
      exact ⟨link, by rw [hawait]; rfl, rfl⟩
    · cases h
  · next link hawait =>
    cases h
    exact ⟨link, by rw [hawait]; rfl, rfl⟩
  · next link entry content hawait =>
    cases h
    exact ⟨link, by rw [hawait]; rfl, rfl⟩
  · cases h

/-- The statements after the count end in an answer. -/
theorem resume_ne_failed {id : String} (hold : t.holds = some id)
    (h : t.resume hashToken links codes ok now = some ((links', codes', events), await)) : await ≠ .ended none := by
  unfold ShareRequest.holds at hold
  split at hold
  · next link started code hawait =>
    split at hold
    · next verificationId hconsume =>
      simp only [resume, hawait, hconsume] at h
      obtain ⟨⟨x, next⟩, hx, heq⟩ := Option.map_eq_some_iff.mp h
      simp only [Prod.mk.injEq] at heq
      rw [← heq.2]
      obtain ⟨-, rfl⟩ | ⟨-, rfl⟩ := CodeRequest.resume_consume hconsume hx
      · exact ShareAwait.noConfusion
      · exact ShareAwait.noConfusion
    · cases hold
  · next link hawait =>
    simp only [resume, hawait, Option.some.injEq, Prod.mk.injEq] at h
    rw [← h.2]
    exact ShareAwait.noConfusion
  · next link entry content hawait =>
    simp only [resume, hawait, Option.some.injEq, Prod.mk.injEq] at h
    rw [← h.2]
    exact fun heq => by cases heq
  · cases hold

/-- A request that fails. -/
theorem resumes_fail (t : ShareRequest) : Resumes links codes now t links { t with await := .ended none } := by
  cases hold : t.holds with
  | none => exact .idle _ hold rfl fun _ h => by cases h
  | some id =>
    obtain ⟨link, hlink, rfl⟩ := link_of_holds hold
    exact .givesUp _ link hold rfl hlink (fun _ h => by cases h) (fun _ h => by cases h) (.inl rfl)

end ShareRequest

/-! ## The accounts -/

/-- A row after a step in which `more` accesses of its link were counted. -/
structure ShareLink.Counts (more : String → Nat) (r r' : ShareLink) : Prop where
  id : r'.id = r.id
  isOneTimeUse : r'.isOneTimeUse = r.isOneTimeUse
  maxAccessCount : r'.maxAccessCount = r.maxAccessCount
  accessCount : r'.accessCount = r.accessCount + more r.id
  limit : ∀ m, r.maxAccessCount = some m → r.accessCount ≤ m → r'.accessCount ≤ m

/-- The table after such a step. -/
def ShareLinks.Counts (more : String → Nat) (links links' : ShareLinks) : Prop :=
  (∀ r' ∈ links', ∃ r ∈ links, r.Counts more r') ∧ ∀ r ∈ links, ∃ r' ∈ links', r'.id = r.id

theorem ShareLink.SameAccess.counts {r r' : ShareLink} (h : r.SameAccess r') : r.Counts (fun _ => 0) r' where
  id := h.id
  isOneTimeUse := h.isOneTimeUse
  maxAccessCount := h.maxAccessCount
  accessCount := h.accessCount
  limit := fun _ _ hle => h.accessCount ▸ hle

theorem ShareLinks.SameAccess.counts {links links' : ShareLinks} (h : links.SameAccess links') :
    links.Counts (fun _ => 0) links' := by
  refine ⟨fun r' hr' => ?_, fun r hr => ?_⟩
  · obtain ⟨r, hr, hsame⟩ := h.1 r' hr'
    exact ⟨r, hr, hsame.counts⟩
  · obtain ⟨r', hr', hsame⟩ := h.2 r hr
    exact ⟨r', hr', hsame.id⟩

theorem ShareLinks.counts_revoke (links : ShareLinks) (id : String) :
    links.Counts (fun _ => 0) (links.updateWhere (·.id = id) ShareLink.revoke) := by
  have hrow : ∀ r : ShareLink, r.Counts (fun _ => 0) (if decide (r.id = id) = true then r.revoke else r) := by
    intro r
    split <;> exact ⟨rfl, rfl, rfl, rfl, fun _ _ hle => hle⟩
  refine ⟨fun r' hr' => ?_, fun r hr => ?_⟩
  · obtain ⟨r, hr, rfl⟩ := Table.mem_updateWhere.mp hr'
    exact ⟨r, hr, hrow r⟩
  · exact ⟨_, Table.mem_updateWhere.mpr ⟨r, hr, rfl⟩, (hrow r).id⟩

theorem ShareLink.isConsumable_iff {r : ShareLink} {id : String} {now : Time} :
    r.isConsumable id now = true ↔
      r.id = id ∧ r.status = .active ∧ now < r.expiresAt ∧ ∀ m, r.maxAccessCount = some m → r.accessCount < m := by
  unfold ShareLink.isConsumable
  cases hmax : r.maxAccessCount with
  | none => simp [and_assoc]
  | some m => simp [and_assoc]

/-- `consume_share_link_access` counts one access of one link. -/
theorem ShareLinks.counts_access {links : ShareLinks} {id : String} {now : Time}
    (hany : links.any (·.isConsumable id now) = true) :
    links.Counts (fun other => if other = id then 1 else 0)
      (links.updateWhere (·.isConsumable id now) (·.access now)) := by
  obtain ⟨found, hfound, hconsumable⟩ := Table.any_eq_true.mp hany
  have hrow : ∀ r ∈ links, r.Counts (fun other => if other = id then 1 else 0)
      (if r.isConsumable id now = true then r.access now else r) := by
    intro r hr
    split
    · next hc =>
      obtain ⟨hid, -, -, hmax⟩ := ShareLink.isConsumable_iff.mp hc
      exact ⟨rfl, rfl, rfl, by simp [ShareLink.access, hid], fun m hm _ => hmax m hm⟩
    · next hc =>
      -- the only row under the id is the one that was found
      have hne : r.id ≠ id := by
        intro hid
        rw [Table.eq_of_key_eq hr hfound (hid.trans (ShareLink.isConsumable_iff.mp hconsumable).1.symm)] at hc
        exact hc hconsumable
      exact ⟨rfl, rfl, rfl, by simp [hne], fun m _ hle => hle⟩
  refine ⟨fun r' hr' => ?_, fun r hr => ?_⟩
  · obtain ⟨r, hr, rfl⟩ := Table.mem_updateWhere.mp hr'
    exact ⟨r, hr, hrow r hr⟩
  · exact ⟨_, Table.mem_updateWhere.mpr ⟨r, hr, rfl⟩, (hrow r hr).id⟩

namespace ShareState

variable {q q' : ShareState}

/-- Every access that was counted was returned, is on its way, or was given up; and the count
stays within the limit. -/
structure Accounted (q : ShareState) : Prop where
  sound : ∀ t ∈ q.requests, t.Sound
  loaded : ∀ t ∈ q.requests, ∀ link, t.await.link = some link → ∃ r ∈ q.links, r.id = link.id
  returnedOf : ∀ d ∈ q.returned, ∃ r ∈ q.links, r.id = d.link.id
  lostOf : ∀ id ∈ q.lost, ∃ r ∈ q.links, r.id = id
  counted : ∀ r ∈ q.links, r.accessCount = q.returns r.id + q.holding r.id + q.lost.count r.id
  limit : ∀ r ∈ q.links, ∀ m, r.maxAccessCount = some m → r.accessCount ≤ m
  oneTime : ∀ r ∈ q.links, r.isOneTimeUse = true → r.maxAccessCount = some 1

theorem Accounted.initial : Accounted initial where
  sound := fun _ ht => absurd ht List.not_mem_nil
  loaded := fun _ ht => absurd ht List.not_mem_nil
  returnedOf := fun _ hd => absurd hd List.not_mem_nil
  lostOf := fun _ hid => absurd hid List.not_mem_nil
  counted := fun r hr => absurd hr (Table.not_mem_empty r)
  limit := fun r hr => absurd hr (Table.not_mem_empty r)
  oneTime := fun r hr => absurd hr (Table.not_mem_empty r)

/-- A step that counts `more` accesses, and lists as many more. -/
theorem Accounted.write (h : q.Accounted) {more : String → Nat} (hlinks : q.links.Counts more q'.links)
    (hcount : ∀ id, q'.returns id + q'.holding id + q'.lost.count id =
      q.returns id + q.holding id + q.lost.count id + more id)
    (hsound : ∀ t ∈ q'.requests, t.Sound)
    (hloaded : ∀ t ∈ q'.requests, ∀ link, t.await.link = some link → ∃ r ∈ q.links, r.id = link.id)
    (hreturned : ∀ d ∈ q'.returned, ∃ r ∈ q.links, r.id = d.link.id)
    (hlost : ∀ id ∈ q'.lost, ∃ r ∈ q.links, r.id = id) : q'.Accounted := by
  have hkept : ∀ id, (∃ r ∈ q.links, r.id = id) → ∃ r ∈ q'.links, r.id = id := by
    rintro id ⟨r, hr, rfl⟩
    exact hlinks.2 r hr
  constructor
  · exact hsound
  · exact fun t ht link hlink => hkept _ (hloaded t ht link hlink)
  · exact fun d hd => hkept _ (hreturned d hd)
  · exact fun id hid => hkept _ (hlost id hid)
  · intro r' hr'
    obtain ⟨r, hr, hcounts⟩ := hlinks.1 r' hr'
    rw [hcounts.accessCount, h.counted r hr, hcounts.id, hcount]
  · intro r' hr' m hm
    obtain ⟨r, hr, hcounts⟩ := hlinks.1 r' hr'
    have hmax := hcounts.maxAccessCount ▸ hm
    exact hcounts.limit m hmax (h.limit r hr m hmax)
  · intro r' hr' hone
    obtain ⟨r, hr, hcounts⟩ := hlinks.1 r' hr'
    rw [hcounts.maxAccessCount]
    exact h.oneTime r hr (hcounts.isOneTimeUse ▸ hone)

/-! ## One request goes on -/

variable {k : Nat} {t t' : ShareRequest}

@[simp] theorem goOn_links : (q.goOn k t t').links = q.links := rfl

@[simp] theorem goOn_requests : (q.goOn k t t').requests = q.requests.set k t' := rfl

theorem goOn_idle (ht : t.holds = none) :
    (q.goOn k t t').returned = q.returned ∧ (q.goOn k t t').lost = q.lost := by
  simp [goOn, ht]

theorem goOn_holding {id : String} (ht : t.holds = some id) (ht' : t'.holds = some id) :
    (q.goOn k t t').returned = q.returned ∧ (q.goOn k t t').lost = q.lost := by
  have hawait : ∀ answer, t'.await ≠ .ended answer := fun answer heq => by
    rw [ShareRequest.holds, heq] at ht'
    cases ht'
  simp only [goOn, ht, ht']
  constructor
  · split
    · next heq => exact absurd heq (hawait _)
    · rfl
  · trivial

theorem goOn_returns {link : ShareLink} {content : PublicShareAccessResponse} (ht : t.holds = some link.id)
    (ht' : t'.await = .ended (some (.ok content))) :
    (q.goOn k t t').returned = ((q.links.get? link.id).map (⟨·, q.clock⟩)).toList ++ q.returned ∧
      (q.goOn k t t').lost = q.lost := by
  have hholds : t'.holds = none := by rw [ShareRequest.holds, ht']
  simp [goOn, ht, ht', hholds]

theorem goOn_lost {id : String} (ht : t.holds = some id) (ht' : t'.holds = none)
    (hnot : ∀ content, t'.await ≠ .ended (some (.ok content))) :
    (q.goOn k t t').returned = q.returned ∧ (q.goOn k t t').lost = id :: q.lost := by
  simp only [goOn, ht, ht']
  constructor
  · split
    · next heq => exact absurd heq (hnot _)
    · rfl
  · trivial

/-- The requests on their way, when one goes on. -/
theorem holding_goOn (hk : q.requests[k]? = some t) (id : String) :
    (q.goOn k t t').holding id + (if t.holds = some id then 1 else 0) =
      q.holding id + if t'.holds = some id then 1 else 0 := by
  simpa [holding] using countP_set hk t' (fun u => decide (u.holds = some id))

/-- The requests of a step in which one goes on are those there were, and that one. -/
theorem forall_goOn {P : ShareRequest → Prop} (h : ∀ u ∈ q.requests, P u) (ht' : P t') :
    ∀ u ∈ (q.goOn k t t').requests, P u := by
  intro u hu
  rcases List.mem_or_eq_of_mem_set hu with hu | rfl
  · exact h u hu
  · exact ht'

variable {hashToken : String → String} {links : ShareLinks} {codes : Codes}

/-- A statement of a request keeps the accounts. -/
theorem Accounted.resume (h : q.Accounted) (hk : q.requests[k]? = some t) (hsound : t'.Sound)
    (hr : ShareRequest.Resumes q.links q.codes q.clock t links t') :
    Accounted ({ q with links := links, codes := codes }.goOn k t t') := by
  have hmem := List.mem_of_getElem? hk
  have hknown : ∀ link, t.await.link = some link → ∃ r ∈ q.links, r.id = link.id := h.loaded t hmem
  have hholding := fun id => @holding_goOn { q with links := links, codes := codes } k t t' hk id
  generalize hq' : { q with links := links, codes := codes }.goOn k t t' = q' at hholding ⊢
  have hrequests : ∀ (P : ShareRequest → Prop), (∀ u ∈ q.requests, P u) → P t' → ∀ u ∈ q'.requests, P u :=
    fun P hP hPt' => hq' ▸ forall_goOn hP hPt'
  have hlinks' : q'.links = links := hq' ▸ rfl
  cases hr with
  | idle t' ht ht' hlink =>
    obtain ⟨hreturned, hlost⟩ := @goOn_idle { q with links := q.links, codes := codes } k t t' ht
    rw [hq'] at hreturned hlost
    have hcounts : q.links.Counts (fun _ => 0) q'.links := hlinks' ▸ (ShareLinks.SameAccess.refl q.links).counts
    refine h.write hcounts (fun id => ?_) (hrequests _ h.sound hsound) (hrequests _ h.loaded fun link hl => ?_)
      (hreturned ▸ h.returnedOf) (hlost ▸ h.lostOf)
    · have hid := hholding id
      simp only [ht, ht', reduceCtorEq, if_false] at hid
      simp only [returns, hreturned, hlost]
      change q'.holding id + 0 = q.holding id + 0 at hid
      omega
    · exact (hlink link hl).elim (hknown link) fun hloaded => ⟨link, hloaded, rfl⟩
  | counts t' link at' ht ht' hlink hlink' hany =>
    obtain ⟨hreturned, hlost⟩ := @goOn_idle
      { q with links := q.links.updateWhere (·.isConsumable link.id at') (·.access at'), codes := codes } k t t' ht
    rw [hq'] at hreturned hlost
    have hcounts : q.links.Counts (fun other => if other = link.id then 1 else 0) q'.links :=
      hlinks' ▸ ShareLinks.counts_access hany
    refine h.write hcounts (fun id => ?_) (hrequests _ h.sound hsound) (hrequests _ h.loaded fun other hl => ?_)
      (hreturned ▸ h.returnedOf) (hlost ▸ h.lostOf)
    · have hid := hholding id
      simp only [ht, ht', reduceCtorEq, if_false, Option.some.injEq] at hid
      simp only [returns, hreturned, hlost]
      change q'.holding id + 0 = q.holding id + _ at hid
      by_cases heq : link.id = id
      · simp only [heq, if_true] at hid ⊢
        omega
      · simp only [heq, Ne.symm heq, if_false] at hid ⊢
        omega
    · rw [hlink'] at hl
      cases hl
      exact hknown link hlink
  | goesOn links' t' link hsame ht ht' hlink hlink' =>
    obtain ⟨hreturned, hlost⟩ := @goOn_holding { q with links := links, codes := codes } k t t' link.id ht ht'
    rw [hq'] at hreturned hlost
    have hcounts : q.links.Counts (fun _ => 0) q'.links := hlinks' ▸ hsame.counts
    refine h.write hcounts (fun id => ?_) (hrequests _ h.sound hsound) (hrequests _ h.loaded fun other hl => ?_)
      (hreturned ▸ h.returnedOf) (hlost ▸ h.lostOf)
    · have hid := hholding id
      simp only [ht, ht'] at hid
      simp only [returns, hreturned, hlost]
      change q'.holding id + _ = q.holding id + _ at hid
      omega
    · rw [hlink'] at hl
      cases hl
      exact hknown link hlink
  | returns t' link content ht hlink ht' =>
    obtain ⟨hreturned, hlost⟩ := @goOn_returns { q with links := q.links, codes := codes } k t t' link content ht ht'
    rw [hq'] at hreturned hlost
    obtain ⟨row, hrow, hrowId⟩ := hknown link hlink
    have hget : q.links.get? link.id = some row := Table.get?_eq_some.mpr ⟨hrow, hrowId⟩
    simp only [hget, Option.map_some, Option.toList_some, List.singleton_append] at hreturned
    have hcounts : q.links.Counts (fun _ => 0) q'.links := hlinks' ▸ (ShareLinks.SameAccess.refl q.links).counts
    refine h.write hcounts (fun id => ?_) (hrequests _ h.sound hsound) (hrequests _ h.loaded fun other hl => ?_)
      ?_ (hlost ▸ h.lostOf)
    · have hid := hholding id
      have hended : t'.holds = none := by rw [ShareRequest.holds, ht']
      simp only [ht, hended, reduceCtorEq, if_false, Option.some.injEq] at hid
      simp only [returns, hreturned, hlost, List.countP_cons, hrowId, decide_eq_true_eq]
      change q'.holding id + _ = q.holding id + 0 at hid
      omega
    · rw [ht'] at hl
      cases hl
    · rw [hreturned]
      intro d hd
      rcases List.mem_cons.mp hd with rfl | hd
      · exact ⟨row, hrow, rfl⟩
      · exact h.returnedOf d hd
  | givesUp t' link ht ht' hlink hlink' hnot _ =>
    obtain ⟨hreturned, hlost⟩ := @goOn_lost { q with links := q.links, codes := codes } k t t' link.id ht ht' hnot
    rw [hq'] at hreturned hlost
    have hcounts : q.links.Counts (fun _ => 0) q'.links := hlinks' ▸ (ShareLinks.SameAccess.refl q.links).counts
    refine h.write hcounts (fun id => ?_) (hrequests _ h.sound hsound) (hrequests _ h.loaded fun other hl => ?_)
      (hreturned ▸ h.returnedOf) ?_
    · have hid := hholding id
      simp only [ht, ht', reduceCtorEq, if_false, Option.some.injEq] at hid
      simp only [returns, hreturned, hlost, List.count_cons, beq_iff_eq]
      change q'.holding id + _ = q.holding id + 0 at hid
      omega
    · rw [hlink' other hl]
      exact hknown link hlink
    · rw [hlost]
      intro id hid
      rcases List.mem_cons.mp hid with rfl | hid
      · exact hknown link hlink
      · exact h.lostOf id hid

/-- A new link has been accessed by nobody. -/
theorem Accounted.create (h : q.Accounted) {input : CreateShareLink}
    (hinsert : q.links.insert (.new hashToken input) = some links) : Accounted { q with links := links } := by
  have hkept : ∀ id, (∃ r ∈ q.links, r.id = id) → ∃ r ∈ links, r.id = id := by
    rintro id ⟨r, hr, hid⟩
    exact ⟨r, (Table.mem_insert hinsert r).mpr (.inl hr), hid⟩
  have hfresh : ¬ ∃ r ∈ q.links, r.id = input.id := fun ⟨r, hr, hid⟩ => Table.insert_fresh hinsert r hr hid
  constructor
  · exact h.sound
  · exact fun t ht link hlink => hkept _ (h.loaded t ht link hlink)
  · exact fun d hd => hkept _ (h.returnedOf d hd)
  · exact fun id hid => hkept _ (h.lostOf id hid)
  · intro r hr
    rcases (Table.mem_insert hinsert r).mp hr with hr | rfl
    · exact h.counted r hr
    · -- nobody can have loaded the link, returned it, or given it up
      have hreturns : q.returns input.id = 0 := List.countP_eq_zero.mpr fun d hd hid => hfresh (by
        obtain ⟨r, hr, hrid⟩ := h.returnedOf d hd
        exact ⟨r, hr, hrid.trans (of_decide_eq_true hid)⟩)
      have hholding : q.holding input.id = 0 := List.countP_eq_zero.mpr fun t ht hid => hfresh (by
        obtain ⟨link, hlink, hlinkId⟩ := ShareRequest.link_of_holds (of_decide_eq_true hid)
        obtain ⟨r, hr, hrid⟩ := h.loaded t ht link hlink
        exact ⟨r, hr, hrid.trans hlinkId⟩)
      have hlost : q.lost.count input.id = 0 := List.count_eq_zero.mpr fun hid => hfresh (h.lostOf _ hid)
      change 0 = q.returns input.id + q.holding input.id + q.lost.count input.id
      omega
  · intro r hr m hm
    rcases (Table.mem_insert hinsert r).mp hr with hr | rfl
    · exact h.limit r hr m hm
    · exact Nat.zero_le m
  · intro r hr hone
    rcases (Table.mem_insert hinsert r).mp hr with hr | rfl
    · exact h.oneTime r hr hone
    · exact if_pos hone

/-- A request begins. -/
theorem Accounted.start (h : q.Accounted) (token : String) (verified : Option (String × String)) :
    Accounted (q.start ⟨token, verified, .load⟩) := by
  refine h.write (ShareLinks.SameAccess.refl q.links).counts (fun id => ?_) (fun t ht => ?_) (fun t ht link hlink => ?_)
    h.returnedOf h.lostOf
  · simp [ShareState.start, holding, returns, List.countP_append, ShareRequest.holds]
  · rcases List.mem_append.mp ht with ht | ht
    · exact h.sound t ht
    · rw [List.mem_singleton.mp ht]
      exact ShareRequest.sound_of_noCode fun _ _ _ hcode => by cases hcode
  · rcases List.mem_append.mp ht with ht | ht
    · exact h.loaded t ht link hlink
    · rw [List.mem_singleton.mp ht] at hlink
      cases hlink

/-- **Step.** -/
theorem Accounted.step (h : q.Accounted) {a : ShareLabel} (hstep : q.step hashToken a = some q') : q'.Accounted := by
  cases a with
  | create input =>
    simp only [ShareState.step, Option.bind_eq_bind, Option.pure_def, Option.bind_eq_some_iff, Option.some.injEq] at hstep
    obtain ⟨links, hinsert, rfl⟩ := hstep
    exact h.create hinsert
  | revoke id =>
    simp only [ShareState.step, Option.some.injEq] at hstep
    subst hstep
    exact h.write (q.links.counts_revoke id) (fun _ => rfl) h.sound h.loaded h.returnedOf h.lostOf
  | accessPublic token =>
    simp only [ShareState.step, Option.some.injEq] at hstep
    exact hstep ▸ h.start token none
  | verifyEmailAndAccess token email code =>
    simp only [ShareState.step, Option.some.injEq] at hstep
    exact hstep ▸ h.start token (some (email, code))
  | resume k ok =>
    simp only [ShareState.step, Option.bind_eq_bind, Option.pure_def, Option.bind_eq_some_iff, Option.some.injEq] at hstep
    obtain ⟨t, hk, ⟨⟨links, codes, events⟩, await⟩, hresume, rfl⟩ := hstep
    obtain ⟨hr, hsound⟩ := ShareRequest.resumes (h.sound t (List.mem_of_getElem? hk)) hresume
    exact h.resume hk hsound hr
  | fail k =>
    simp only [ShareState.step, Option.bind_eq_bind, Option.bind_eq_some_iff] at hstep
    obtain ⟨t, hk, hstep⟩ := hstep
    have hfailed : Accounted (q.goOn k t { t with await := .ended none }) :=
      h.resume hk (ShareRequest.sound_of_noCode fun _ _ _ hcode => by cases hcode) (ShareRequest.resumes_fail t)
    split at hstep
    · cases hstep
    · exact Option.some.inj hstep ▸ hfailed
  | issue shareLinkId email id code =>
    simp only [ShareState.step, Option.some.injEq] at hstep
    subst hstep
    exact h.write (ShareLinks.SameAccess.refl q.links).counts (fun _ => rfl) h.sound h.loaded h.returnedOf h.lostOf
  | resumeIssue k ok =>
    simp only [ShareState.step, Option.bind_eq_bind, Option.pure_def, Option.bind_eq_some_iff, Option.some.injEq] at hstep
    obtain ⟨t, _, ⟨⟨codes, events⟩, await⟩, _, rfl⟩ := hstep
    exact h.write (ShareLinks.SameAccess.refl q.links).counts (fun _ => rfl) h.sound h.loaded h.returnedOf h.lostOf

theorem Accounted.tick (h : q.Accounted) (now : Time) : Accounted { q with clock := now } :=
  h.write (ShareLinks.SameAccess.refl q.links).counts (fun _ => rfl) h.sound h.loaded h.returnedOf h.lostOf

/-- **Accounting.** In every run, each access that was counted was returned, is on its way, or
was given up; a link is returned as often as its limit allows at most, and one for one use once. -/
theorem accounted_of_run (hrun : (shareLinks hashToken).Reachable q) : q.Accounted := by
  refine hrun.invariant Accounted (fun q hinit => ?_) fun q a q' _ h hstep => ?_
  · cases hinit
    exact .initial
  · simp only [shareLinks] at hstep
    split at hstep
    · exact (h.tick a.1).step hstep
    · cases hstep

/-! ## Nothing between the count and the return -/

/-- A link whose access is on its way to be returned is not revoked, nothing was returned too
late or beyond the limit, and nothing was given up. -/
structure Prompt (q : ShareState) : Prop where
  live : ∀ t ∈ q.requests, ∀ id, t.holds = some id → ∀ r ∈ q.links, r.id = id → r.status ≠ .revoked
  inTime : ∀ d ∈ q.returned, d.link.status ≠ .revoked ∧ d.time < d.link.expiresAt ∧
    ∀ m, d.link.maxAccessCount = some m → d.link.accessCount ≤ m
  nothingLost : q.lost = []

theorem Prompt.initial : Prompt initial where
  live := fun _ ht => absurd ht List.not_mem_nil
  inTime := fun _ hd => absurd hd List.not_mem_nil
  nothingLost := rfl

theorem status_access {r : ShareLink} {now : Time} (h : r.status ≠ .revoked) : (r.access now).status ≠ .revoked := by
  simp only [ShareLink.access]
  split
  · exact fun hexhausted => by cases hexhausted
  · exact h

/-- A statement of a request that nothing has got before. -/
theorem Prompt.resume (h : q.Prompt) (ha : q.Accounted) (hk : q.requests[k]? = some t)
    (hr : ShareRequest.Resumes q.links q.codes q.clock t links t')
    (hexpiry : ∀ id, t.holds = some id → ∀ r ∈ q.links, r.id = id → q.clock < r.expiresAt)
    (hcode : ∀ link : ShareLink, t.holds = some link.id → ¬ (t'.await = .ended none ∨
      ∃ started code verificationId, t.await = .verify link started code ∧ code.await = .consume verificationId ∧
        q.codes.any (·.isConsumable code.purpose verificationId q.clock) = false)) :
    Prompt ({ q with links := links, codes := codes }.goOn k t t') := by
  have hmem := List.mem_of_getElem? hk
  cases hr with
  | idle t' ht ht' hlink =>
    obtain ⟨hreturned, hlost⟩ := @goOn_idle { q with links := q.links, codes := codes } k t t' ht
    refine ⟨forall_goOn h.live fun id hid => ?_, by rw [hreturned]; exact h.inTime, hlost.trans h.nothingLost⟩
    rw [ht'] at hid
    cases hid
  | counts t' link at' ht ht' hlink hlink' hany =>
    obtain ⟨hreturned, hlost⟩ := @goOn_idle
      { q with links := q.links.updateWhere (·.isConsumable link.id at') (·.access at'), codes := codes } k t t' ht
    have hrow : ∀ r' ∈ q.links.updateWhere (·.isConsumable link.id at') (·.access at'),
        ∃ r ∈ q.links, r'.id = r.id ∧ (r.status ≠ .revoked → r'.status ≠ .revoked) := by
      intro r' hr'
      obtain ⟨r, hr, rfl⟩ := Table.mem_updateWhere.mp hr'
      refine ⟨r, hr, ?_⟩
      split
      · exact ⟨rfl, status_access⟩
      · exact ⟨rfl, fun hlive => hlive⟩
    refine ⟨forall_goOn (fun u hu id hid r' hr' hrid => ?_) fun id hid r' hr' hrid => ?_, by rw [hreturned]; exact h.inTime,
      hlost.trans h.nothingLost⟩
    · obtain ⟨r, hr, heq, hlive⟩ := hrow r' hr'
      exact hlive (h.live u hu id hid r hr (heq ▸ hrid))
    · -- the link was active when it was counted
      rw [ht'] at hid
      cases hid
      obtain ⟨found, hfound, hconsumable⟩ := Table.any_eq_true.mp hany
      obtain ⟨hfoundId, hactive, -, -⟩ := ShareLink.isConsumable_iff.mp hconsumable
      obtain ⟨r, hr, heq, hlive⟩ := hrow r' hr'
      refine hlive ?_
      rw [Table.eq_of_key_eq hr hfound ((heq.symm.trans hrid).trans hfoundId.symm), hactive]
      exact ShareLinkStatus.noConfusion
  | goesOn links' t' link hsame ht ht' hlink hlink' =>
    obtain ⟨hreturned, hlost⟩ := @goOn_holding { q with links := links, codes := codes } k t t' link.id ht ht'
    have hlive : ∀ id, (∀ r ∈ q.links, r.id = id → r.status ≠ .revoked) →
        ∀ r' ∈ links, r'.id = id → r'.status ≠ .revoked := by
      intro id hold r' hr' hrid
      obtain ⟨r, hr, heq⟩ := hsame.1 r' hr'
      rw [heq.status]
      exact hold r hr (heq.id.symm.trans hrid)
    refine ⟨forall_goOn (fun u hu id hid => hlive id (h.live u hu id hid)) fun id hid => ?_, by rw [hreturned]; exact h.inTime,
      hlost.trans h.nothingLost⟩
    rw [ht'] at hid
    exact hlive id (h.live t hmem id (ht.trans hid))
  | returns t' link content ht hlink ht' =>
    obtain ⟨hreturned, hlost⟩ := @goOn_returns { q with links := q.links, codes := codes } k t t' link content ht ht'
    have hended : t'.holds = none := by rw [ShareRequest.holds, ht']
    refine ⟨forall_goOn h.live fun id hid => ?_, ?_, hlost.trans h.nothingLost⟩
    · rw [hended] at hid
      cases hid
    · rw [hreturned]
      intro d hd
      rcases List.mem_append.mp hd with hd | hd
      · simp only [Option.mem_toList, Option.map_eq_some_iff] at hd
        obtain ⟨row, hrow, rfl⟩ := hd
        obtain ⟨hr, hrid⟩ := Table.get?_eq_some.mp hrow
        exact ⟨h.live t hmem _ ht row hr hrid, hexpiry _ ht row hr hrid, ha.limit row hr⟩
      · exact h.inTime d hd
  | givesUp t' link ht ht' hlink hlink' hnot hwhy => exact absurd hwhy (hcode link ht)

/-- **Step** under the condition. -/
theorem Prompt.step (h : q.Prompt) (ha : q.Accounted) {a : ShareLabel} (hno : q.Uninterrupted (q.clock, a))
    (hstep : q.step hashToken a = some q') : q'.Prompt := by
  cases a with
  | create input =>
    simp only [ShareState.step, Option.bind_eq_bind, Option.pure_def, Option.bind_eq_some_iff, Option.some.injEq] at hstep
    obtain ⟨links, hinsert, rfl⟩ := hstep
    refine ⟨fun t ht id hid r hr hrid => ?_, h.inTime, h.nothingLost⟩
    rcases (Table.mem_insert hinsert r).mp hr with hr | rfl
    · exact h.live t ht id hid r hr hrid
    · exact ShareLinkStatus.noConfusion
  | revoke id =>
    simp only [ShareState.step, Option.some.injEq] at hstep
    subst hstep
    refine ⟨fun t ht other hother r' hr' hrid => ?_, h.inTime, h.nothingLost⟩
    have hr'' : r' ∈ q.links.updateWhere (·.id = id) ShareLink.revoke := hr'
    obtain ⟨r, hr, rfl⟩ := Table.mem_updateWhere.mp hr''
    split
    · next hid =>
      -- nobody is on the way with the link that is revoked
      simp only [hid, if_true] at hrid
      have hsame : r.id = other := hrid
      rw [← hsame, of_decide_eq_true hid] at hother
      exact absurd hother (hno t ht)
    · next hid =>
      simp only [hid, Bool.false_eq_true, if_false] at hrid
      exact h.live t ht other hother r hr hrid
  | accessPublic token =>
    simp only [ShareState.step, Option.some.injEq] at hstep
    subst hstep
    refine ⟨fun t ht id hid => ?_, h.inTime, h.nothingLost⟩
    rcases List.mem_append.mp ht with ht | ht
    · exact h.live t ht id hid
    · rw [List.mem_singleton.mp ht] at hid
      cases hid
  | verifyEmailAndAccess token email code =>
    simp only [ShareState.step, Option.some.injEq] at hstep
    subst hstep
    refine ⟨fun t ht id hid => ?_, h.inTime, h.nothingLost⟩
    rcases List.mem_append.mp ht with ht | ht
    · exact h.live t ht id hid
    · rw [List.mem_singleton.mp ht] at hid
      cases hid
  | resume k ok =>
    simp only [ShareState.step, Option.bind_eq_bind, Option.pure_def, Option.bind_eq_some_iff, Option.some.injEq] at hstep
    obtain ⟨t, hk, ⟨⟨links, codes, events⟩, await⟩, hresume, rfl⟩ := hstep
    obtain ⟨hr, -⟩ := ShareRequest.resumes (ha.sound t (List.mem_of_getElem? hk)) hresume
    refine h.resume ha hk hr (fun id hid => (hno t hk id hid).1) fun link hlink hwhy => ?_
    obtain hfailed | ⟨started, code, verificationId, hverify, hconsume, hused⟩ := hwhy
    · exact ShareRequest.resume_ne_failed hlink hresume hfailed
    · have hleft := (hno t hk link.id hlink).2
      simp only [ShareRequest.codeLeft, hverify, hconsume, hused, Bool.false_eq_true] at hleft
  | fail k =>
    simp only [ShareState.step, Option.bind_eq_bind, Option.bind_eq_some_iff] at hstep
    obtain ⟨t, hk, hstep⟩ := hstep
    have hidle : t.holds = none := hno t hk
    have hfailed : Prompt (q.goOn k t { t with await := .ended none }) :=
      h.resume ha hk (ShareRequest.resumes_fail t) (fun id hid => by rw [hidle] at hid; cases hid)
        fun link hlink => by rw [hidle] at hlink; cases hlink
    split at hstep
    · cases hstep
    · exact Option.some.inj hstep ▸ hfailed
  | issue shareLinkId email id code =>
    simp only [ShareState.step, Option.some.injEq] at hstep
    subst hstep
    exact ⟨h.live, h.inTime, h.nothingLost⟩
  | resumeIssue k ok =>
    simp only [ShareState.step, Option.bind_eq_bind, Option.pure_def, Option.bind_eq_some_iff, Option.some.injEq] at hstep
    obtain ⟨t, _, ⟨⟨codes, events⟩, await⟩, _, rfl⟩ := hstep
    exact ⟨h.live, h.inTime, h.nothingLost⟩

/-- In every run a link for one use is returned once at most, and any other within its limit. -/
theorem one_time_returned_once (hrun : (shareLinks hashToken).Reachable q) :
    ∀ r ∈ q.links, (r.isOneTimeUse = true → q.returns r.id ≤ 1) ∧
      ∀ m, r.maxAccessCount = some m → q.returns r.id ≤ m := by
  intro r hr
  have h := accounted_of_run hrun
  have hlimit : ∀ m, r.maxAccessCount = some m → q.returns r.id ≤ m := by
    intro m hm
    have hcounted := h.counted r hr
    have hle := h.limit r hr m hm
    omega
  exact ⟨fun hone => hlimit 1 (h.oneTime r hr hone), hlimit⟩

/-- **Nothing is returned uncounted.** In every run the count of a link is that of the requests that
have returned its content, are on their way to it or have given it up, and within its limit. -/
theorem accesses_counted (hrun : (shareLinks hashToken).Reachable q) :
    ∀ r ∈ q.links, r.accessCount = q.returns r.id + q.holding r.id + q.lost.count r.id ∧
      ∀ m, r.maxAccessCount = some m → r.accessCount ≤ m :=
  fun r hr => ⟨(accounted_of_run hrun).counted r hr, (accounted_of_run hrun).limit r hr⟩

/-- **Accounting of accesses.** In every run under the condition the count of a link is the number
of requests that returned its content and of those on their way to it; a link for one use was
returned once at most; and at each return the row of the link was neither revoked nor expired,
and its count within the limit. -/
theorem accesses_accounted (hashToken : String → String) (q : ShareState)
    (hrun : (shareLinks hashToken).ReachableUnder Uninterrupted q) :
    (∀ r ∈ q.links, r.accessCount = q.returns r.id + q.holding r.id ∧ (r.isOneTimeUse = true → q.returns r.id ≤ 1)) ∧
      ∀ d ∈ q.returned, d.link.status ≠ .revoked ∧ d.time < d.link.expiresAt ∧
        ∀ m, d.link.maxAccessCount = some m → d.link.accessCount ≤ m := by
  have hprompt : q.Prompt := by
    refine hrun.invariant Prompt (fun q hinit => ?_) fun q a q' hreach h hno hstep => ?_
    · cases hinit
      exact .initial
    · have haccounted := accounted_of_run hreach.reachable
      simp only [shareLinks] at hstep
      split at hstep
      · exact Prompt.step (q := { q with clock := a.1 }) ⟨h.live, h.inTime, h.nothingLost⟩ (haccounted.tick a.1) hno hstep
      · cases hstep
  refine ⟨fun r hr => ⟨?_, (one_time_returned_once hrun.reachable r hr).1⟩, hprompt.inTime⟩
  have hcounted := (accounted_of_run hrun.reachable).counted r hr
  rwa [hprompt.nothingLost, List.count_nil, Nat.add_zero] at hcounted

/-- A link for anyone, once. -/
def sharedOnce : List (Time × ShareLabel) :=
  [(0, .create ⟨"link", "token", .anyone, true, 100, [], ⟨"data", "iv", "key", "key-iv"⟩⟩)]

/-- A link for Ann, with a code for her. -/
def sharedWithAnn : List (Time × ShareLabel) :=
  [(0, .create ⟨"link", "token", .emailRestricted, false, 100, ["ann"], ⟨"data", "iv", "key", "key-iv"⟩⟩),
    (0, .issue "link" "ann" "code" "123456"), (0, .resumeIssue 0 true)]

def resumes (k n : Nat) : List (Time × ShareLabel) := List.replicate n (1, .resume k true)

theorem accesses_counted_once : ∃ q : ShareState, q.returned.length = 1 ∧
    ∀ r ∈ q.links, r.accessCount = q.returns r.id + q.holding r.id + q.lost.count r.id := by
  have hrun : ((shareLinks id).run .initial (sharedOnce ++ [(1, .accessPublic "token")] ++ resumes 0 4)).map
      (·.returned.length) = some 1 := by
    decide +kernel
  obtain ⟨q, hq, hreturned⟩ := Option.map_eq_some_iff.mp hrun
  exact ⟨q, hreturned, fun r hr => (accesses_counted (.run (.init rfl) hq) r hr).1⟩

/-- Two requests for a link for one use. -/
theorem accesses_accounted_once : ∃ q : ShareState, q.returned.length = 1 ∧
    (∀ r ∈ q.links, r.accessCount = q.returns r.id + q.holding r.id ∧ (r.isOneTimeUse = true → q.returns r.id ≤ 1)) ∧
      ∀ d ∈ q.returned, d.link.status ≠ .revoked ∧ d.time < d.link.expiresAt ∧
        ∀ m, d.link.maxAccessCount = some m → d.link.accessCount ≤ m := by
  have hrun : ((shareLinks id).runUnder Uninterrupted .initial (sharedOnce ++
      [(1, .accessPublic "token"), (1, .accessPublic "token")] ++ resumes 0 2 ++ resumes 1 3 ++ resumes 0 2 ++
        resumes 1 1)).map (·.returned.length) = some 1 := by
    decide +kernel
  obtain ⟨q, hq, hreturned⟩ := Option.map_eq_some_iff.mp hrun
  exact ⟨q, hreturned, accesses_accounted id q (System.ReachableUnder.runUnder (.init rfl) hq)⟩

/-- Two requests with the same code have their accesses counted before one of them uses the code
up: the other is refused, and its access stays counted. -/
theorem refused_access_counted : ¬ ∀ (hashToken : String → String) (q : ShareState),
    (shareLinks hashToken).Reachable q → ∀ r ∈ q.links, r.accessCount = q.returns r.id + q.holding r.id := by
  intro h
  have hrun : ((shareLinks id).run .initial (sharedWithAnn ++
      [(1, .verifyEmailAndAccess "token" "ann" "123456"), (1, .verifyEmailAndAccess "token" "ann" "123456")] ++
        resumes 0 7 ++ resumes 1 7 ++ resumes 0 3 ++ resumes 1 2)).any (fun q => q.links.any fun r =>
          decide (r.accessCount = 2 ∧ q.returns r.id = 1 ∧ q.holding r.id = 0)) = true := by
    decide +kernel
  rw [Option.any_eq_true] at hrun
  obtain ⟨q, hq, hcheck⟩ := hrun
  obtain ⟨r, hr, hcounts⟩ := Table.any_eq_true.mp hcheck
  have hcounts := of_decide_eq_true hcounts
  have := h id q (System.Reachable.run (.init rfl) hq) r hr
  omega

end ShareState

end Bittery
