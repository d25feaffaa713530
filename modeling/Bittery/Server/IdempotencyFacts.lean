/-
At most one execution for each idempotency key, over every interleaving of requests,
crashes and clock ticks.

The history of a run says which request executed the domain operation when, whose
response was stored until when, and what each request was told. The result is about the
history alone: between two executions under one scope lies the expiry of the record of
the first, and what a later request is told while that record is kept is the stored
response, "in progress", "indeterminate" or "different request".

The invariant ties the history to the table. An execution that has not expired is the
current one of its scope: the row there carries its fingerprint and, once completed, its
response. A request between its claim and its completion is the only such request of its
scope, and its row is not completed, so no statement of another request takes it over.
-/
import Bittery.Server.Idempotency

namespace Bittery.Idempotency

open Lib

variable {sha256 : List Byte → Fingerprint} {s s' : State} {t t' : Records} {now : Time}
  {locked : RequestScope → Bool} {scope : RequestScope} {fingerprint : Fingerprint}

/-! ## What the statements do to the row of a scope -/

/-- What `maintain_records` may do to a row: nothing, delete it when it has expired, or
mark its claim indeterminate. -/
def Maintained (now : Time) (t t' : Records) : Prop :=
  ∀ σ, t'.get? σ = t.get? σ ∨
    (∃ r, t.get? σ = some r ∧ r.expired now = true ∧ t'.get? σ = none) ∨
    ∃ r r', t.get? σ = some r ∧ t'.get? σ = some r' ∧ r.state = .pending ∧ r'.state = .indeterminate ∧
      r'.requestFingerprint = r.requestFingerprint

theorem mem_batch {p : Record → Bool} {order : Record → Option Time} {σ : RequestScope}
    (h : σ ∈ batch locked p order t) : ∃ r ∈ t, r.scope = σ ∧ p r = true := by
  simp only [batch, List.mem_map] at h
  obtain ⟨r, hr, rfl⟩ := h
  have hr := List.mem_of_mem_take hr
  rw [List.mem_insertionSort, Table.mem_select, Bool.and_eq_true] at hr
  exact ⟨r, hr.1, rfl, hr.2.1⟩

theorem deleteExpired_maintained : Maintained now t (deleteExpired locked now t) := by
  intro σ
  rw [deleteExpired, Table.get?_deleteWhere]
  cases hr : t.get? σ with
  | none => exact .inl rfl
  | some r =>
    by_cases hd : r.scope ∈ batch locked (Record.expired now) (some ∘ Record.expiresAt) t
    · obtain ⟨r', hm, hk, hp⟩ := mem_batch hd
      obtain rfl := Table.eq_of_key_eq hm (Table.mem_of_get? hr) hk
      exact .inr (.inl ⟨_, rfl, hp, by simp [hd]⟩)
    · exact .inl (by simp [hd])

theorem markStale_maintained : Maintained now t (markStale locked now t) := by
  intro σ
  rw [markStale, Table.get?_updateWhere]
  cases hr : t.get? σ with
  | none => exact .inl rfl
  | some r =>
    by_cases hd : r.scope ∈ batch locked (Record.stale now) Record.claimExpiresAt t
    · obtain ⟨r', hm, hk, hp⟩ := mem_batch hd
      obtain rfl := Table.eq_of_key_eq hm (Table.mem_of_get? hr) hk
      have hs : r'.state = .pending := by
        simp only [Record.stale, Bool.and_eq_true, decide_eq_true_eq] at hp
        exact hp.1
      exact .inr (.inr ⟨_, r'.markedIndeterminate hs, rfl, by simp [hd, hs], hs, rfl, rfl⟩)
    · exact .inl (by simp [hd])

theorem insertClaim_true (h : insertClaim scope fingerprint now t = some (t', true)) :
    t.get? scope = none ∧ ∃ hl, ∀ σ, t'.get? σ =
      if σ = scope then some (.claimed scope fingerprint now hl) else t.get? σ := by
  simp only [insertClaim] at h
  split at h
  · next hl =>
    split at h
    · next t₁ hi =>
      simp only [Option.some.injEq, Prod.mk.injEq, and_true] at h
      subst h
      exact ⟨Table.get?_eq_none.mpr (Table.insert_fresh hi), hl, Table.get?_insert hi⟩
    · simp at h
  · cases h

theorem insertClaim_none (h : insertClaim scope fingerprint now t = none) : scope.withinLimits = false := by
  simp only [insertClaim] at h
  split at h
  · split at h <;> cases h
  · next hl => simpa using hl

theorem reclaim_true (h : reclaim scope fingerprint now t = (t', true)) :
    ∃ r, t.get? scope = some r ∧ r.state = .completed ∧ r.expiresAt ≤ now ∧ ∀ σ, t'.get? σ =
      if σ = scope then some (.claimed r.scope fingerprint now r.withinLimits) else t.get? σ := by
  simp only [reclaim, Prod.mk.injEq, Table.any_eq_true, Bool.and_eq_true, decide_eq_true_eq] at h
  obtain ⟨rfl, r, hm, rfl, he⟩ := h
  have hr := Table.get?_key hm
  have hexp : r.state = .completed ∧ r.expiresAt ≤ now := by simpa [Record.expired] using he
  refine ⟨r, hr, hexp.1, hexp.2, fun σ => ?_⟩
  rw [Table.get?_updateWhere]
  by_cases hσ : σ = r.scope
  · subst hσ; simp [hr, he]
  · rw [if_neg hσ]
    cases hq : t.get? σ with
    | none => rfl
    | some q =>
      have : q.scope ≠ r.scope := (Table.key_of_get? hq).symm ▸ hσ
      simp [this]

/-- The row keeps `response`. -/
structure Record.Stores (r : Record) (response : StoredResponse) : Prop where
  status : r.responseStatus = some response.status.toNat
  contentType : r.responseContentType = response.contentType
  body : r.responseBody = some response.body
  etag : r.responseEtag = response.etag

theorem complete_ok {response : StoredResponse} (h : complete scope fingerprint response now t = .ok t') :
    ∃ r r', t.get? scope = some r ∧ r.state = .pending ∧ r.requestFingerprint = fingerprint ∧
      r'.state = .completed ∧ r'.requestFingerprint = fingerprint ∧ r'.expiresAt = now + retention ∧
      r'.Stores response ∧ ∀ σ, t'.get? σ = if σ = scope then some r' else t.get? σ := by
  simp only [complete] at h
  split at h; · cases h
  split at h; · cases h
  split at h; · cases h
  next hcount =>
  split at h
  · next hst =>
    cases h
    have hpos := List.countP_pos_iff.mp (by
      rw [Table.count, ne_eq, Decidable.not_not] at hcount
      rw [hcount]; exact Nat.one_pos)
    obtain ⟨r, hm, hp⟩ := hpos
    have hp' := hp
    simp only [Bool.and_eq_true, decide_eq_true_eq] at hp'
    obtain ⟨⟨⟨rfl, hf⟩, hs⟩, -⟩ := hp'
    have hr := Table.get?_key (t := t) hm
    refine ⟨r, r.completedWith response.status.toNat response now hst, hr, hs, hf, rfl, hf, rfl,
      ⟨rfl, rfl, rfl, rfl⟩, fun σ => ?_⟩
    rw [Table.get?_updateWhere]
    by_cases hσ : σ = r.scope
    · subst hσ; rw [hr, if_pos rfl, Option.map_some, if_pos hp]
    · rw [if_neg hσ]
      cases hq : t.get? σ with
      | none => rfl
      | some q =>
        have : q.scope ≠ r.scope := (Table.key_of_get? hq).symm ▸ hσ
        simp [this]
  · cases h

/-- A completed row has a status the response type can hold, and a body: the two internal
errors of `readClaim` do not happen. -/
theorem readClaim_some {r : Record} (fingerprint : Fingerprint) (hr : t.get? scope = some r) :
    (r.requestFingerprint ≠ fingerprint ∧ readClaim scope fingerprint t = .ok .fingerprintMismatch) ∨
    (r.requestFingerprint = fingerprint ∧ r.state = .pending ∧ readClaim scope fingerprint t = .ok .inProgress) ∨
    (r.requestFingerprint = fingerprint ∧ r.state = .indeterminate ∧
      readClaim scope fingerprint t = .ok .indeterminate) ∨
    (r.requestFingerprint = fingerprint ∧ r.state = .completed ∧ ∃ stored, r.Stores stored ∧
      100 ≤ stored.status.toNat ∧ stored.status.toNat ≤ 599 ∧
      readClaim scope fingerprint t = .ok (.replay stored)) := by
  by_cases hf : r.requestFingerprint = fingerprint
  · cases hs : r.state with
    | pending => exact .inr (.inl ⟨hf, rfl, by simp [readClaim, hr, hf, hs]⟩)
    | indeterminate => exact .inr (.inr (.inl ⟨hf, rfl, by simp [readClaim, hr, hf, hs]⟩))
    | completed =>
      have hc := r.checked
      simp only [hs, responseState, Bool.and_eq_true, Option.isSome_iff_exists, Option.any_eq_true,
        decide_eq_true_eq] at hc
      obtain ⟨⟨⟨-, n, hst, hlo, hhi⟩, b, hb⟩, -⟩ := hc
      have hn : n < 2 ^ 16 := by omega
      have hto : (UInt16.ofNat n).toNat = n := UInt16.toNat_ofNat_of_lt' hn
      refine .inr (.inr (.inr ⟨hf, rfl, ⟨.ofNat n, r.responseContentType, b, r.responseEtag⟩,
        ⟨by rw [hst, hto], rfl, hb, rfl⟩, by rw [hto]; exact hlo, by rw [hto]; exact hhi, ?_⟩))
      have hn' : n < 65536 := hn
      simp [readClaim, hr, hf, hs, hst, hb, hn']
  · exact .inl ⟨hf, by simp [readClaim, hr, hf]⟩

/-- A row keeps one response. -/
theorem Record.Stores.unique {r : Record} {a b : StoredResponse} (ha : r.Stores a) (hb : r.Stores b) : a = b := by
  have hst : a.status = b.status := UInt16.toNat_inj.mp (Option.some.inj (ha.status.symm.trans hb.status))
  have hbody : a.body = b.body := Option.some.inj (ha.body.symm.trans hb.body)
  cases a; cases b
  simp only [StoredResponse.mk.injEq]
  exact ⟨hst, ha.contentType.symm.trans hb.contentType, hbody, ha.etag.symm.trans hb.etag⟩

/-! ## The laws of a history -/

/-- Among `events`, the response of `request` was stored, to be kept until `x`. -/
def CompletedUntil (events : List Event) (request : Nat) (x : Time) : Prop :=
  ∃ c ∈ events, c.request = request ∧ ∃ response, c.kind = .completed response x

/-- The record of the execution by `request`, completed among `events`, has expired at `time`. -/
def ExpiredBy (events : List Event) (request : Nat) (time : Time) : Prop :=
  ∃ x, CompletedUntil events request x ∧ x ≤ time

/-- Two executions under one scope: the record of the first has expired before the second. -/
def AtMostOnce (history : List Event) : Prop :=
  ∀ newer e₂ mid e₁ older r₁ r₂, history = newer ++ e₂ :: (mid ++ e₁ :: older) →
    e₁.kind = .executed r₁ → e₂.kind = .executed r₂ → e₁.scope = e₂.scope → ExpiredBy mid e₁.request e₂.time

/-- The replies another request may get while the record of an execution is kept: the
response of that execution, or a refusal. -/
inductive LaterReply (fingerprint : Fingerprint) (response : StoredResponse) : Fingerprint → Except ApiError Response → Prop
  | replay : LaterReply fingerprint response fingerprint (.ok ⟨response, true⟩)
  | inProgress : LaterReply fingerprint response fingerprint (.error requestInProgress)
  | indeterminate : LaterReply fingerprint response fingerprint (.error outcomeIndeterminate)
  | mismatch {f : Fingerprint} : f ≠ fingerprint → LaterReply fingerprint response f (.error keyReused)

/-- Every other request answered after an execution under its scope, and before the
record of that execution expires, gets such a reply. -/
def LaterReplies (history : List Event) : Prop :=
  ∀ newer a mid e older r reply, history = newer ++ a :: (mid ++ e :: older) → e.kind = .executed r →
    a.kind = .answered reply → a.scope = e.scope → a.request ≠ e.request →
    ¬ ExpiredBy mid e.request a.time → LaterReply e.fingerprint r a.fingerprint reply

theorem CompletedUntil.cons {events : List Event} {request : Nat} {x : Time} (ev : Event)
    (h : CompletedUntil events request x) : CompletedUntil (ev :: events) request x := by
  obtain ⟨c, hc, h⟩ := h
  exact ⟨c, List.mem_cons_of_mem _ hc, h⟩

theorem ExpiredBy.cons {events : List Event} {request : Nat} {time : Time} (ev : Event)
    (h : ExpiredBy events request time) : ExpiredBy (ev :: events) request time := by
  obtain ⟨x, hx, hle⟩ := h
  exact ⟨x, hx.cons ev, hle⟩

theorem ExpiredBy.later {events : List Event} {request : Nat} {time time' : Time} (hle : time ≤ time')
    (h : ExpiredBy events request time) : ExpiredBy events request time' := by
  obtain ⟨x, hx, hx'⟩ := h
  exact ⟨x, hx, hx'.trans hle⟩

theorem AtMostOnce.cons {history : List Event} {ev : Event} (h : AtMostOnce history)
    (hev : ∀ r₂, ev.kind = .executed r₂ → ∀ mid e₁ older r₁, history = mid ++ e₁ :: older →
      e₁.kind = .executed r₁ → e₁.scope = ev.scope → ExpiredBy mid e₁.request ev.time) :
    AtMostOnce (ev :: history) := by
  intro newer e₂ mid e₁ older r₁ r₂ heq h₁ h₂ hsc
  rcases List.cons_eq_append_iff.mp heq with ⟨rfl, he⟩ | ⟨newer', rfl, hh⟩
  · cases he; exact hev r₂ h₂ mid e₁ older r₁ rfl h₁ hsc
  · exact h newer' e₂ mid e₁ older r₁ r₂ hh h₁ h₂ hsc

theorem LaterReplies.cons {history : List Event} {ev : Event} (h : LaterReplies history)
    (hev : ∀ reply, ev.kind = .answered reply → ∀ mid e older r, history = mid ++ e :: older →
      e.kind = .executed r → ev.scope = e.scope → ev.request ≠ e.request → ¬ ExpiredBy mid e.request ev.time →
      LaterReply e.fingerprint r ev.fingerprint reply) :
    LaterReplies (ev :: history) := by
  intro newer a mid e older r reply heq he ha hsc hne hx
  rcases List.cons_eq_append_iff.mp heq with ⟨rfl, h'⟩ | ⟨newer', rfl, hh⟩
  · cases h'; exact hev reply ha mid e older r rfl he hsc hne hx
  · exact h newer' a mid e older r reply hh he ha hsc hne hx

/-! ## The invariant -/

/-- Between the claim and its completion. -/
def Pc.Holds : Pc → Prop
  | .operate | .complete _ => True
  | _ => False

/-- Every execution under `scope` in the history has expired. -/
def Settled (s : State) (scope : RequestScope) : Prop :=
  ∀ newer e older r, s.history = newer ++ e :: older → e.kind = .executed r → e.scope = scope →
    ExpiredBy newer e.request s.clock

structure Inv (s : State) : Prop where
  atMostOnce : AtMostOnce s.history
  laterReplies : LaterReplies s.history
  /-- An execution has expired or is the one its row is about. -/
  current : ∀ newer e older r, s.history = newer ++ e :: older → e.kind = .executed r →
    ExpiredBy newer e.request s.clock ∨ ∃ row, s.records.get? e.scope = some row ∧
      row.requestFingerprint = e.fingerprint ∧
      (row.state = .completed → row.Stores r ∧ CompletedUntil newer e.request row.expiresAt)
  /-- The claim of a request that has not completed is in the table. -/
  claimed : ∀ p ∈ s.requests, p.pc.Holds → ∃ row, s.records.get? p.scope = some row ∧
    row.requestFingerprint = p.fingerprint ∧ row.state ≠ .completed
  exclusive : ∀ p ∈ s.requests, ∀ q ∈ s.requests, p.pc.Holds → q.pc.Holds → p.scope = q.scope → p = q
  operating : ∀ p ∈ s.requests, p.pc = .operate → Settled s p.scope
  /-- The only execution under the scope of a request that is about to complete is its own. -/
  completing : ∀ p ∈ s.requests, ∀ r, p.pc = .complete r → ∀ newer e older r', s.history = newer ++ e :: older →
    e.kind = .executed r' → e.scope = p.scope → ExpiredBy newer e.request s.clock ∨ (e.request = p.id ∧ r' = r)

theorem inv_init (h : (server sha256).init s) : Inv s := by
  obtain ⟨hr, hq, hh⟩ := h
  constructor
  · intro newer e₂ mid e₁ older r₁ r₂ heq; simp [hh] at heq
  · intro newer a mid e older r reply heq; simp [hh] at heq
  · intro newer e older r heq; simp [hh] at heq
  all_goals intro p hp; rw [hq] at hp; exact absurd hp (Table.not_mem_empty p)

/-! ## One step -/

/-- After the clock moved, the table was maintained or a request that holds no claim
moved on without claiming, the invariant holds. -/
theorem Inv.weaken (h : Inv s) (hclock : s.clock ≤ s'.clock) (hhist : s'.history = s.history)
    (hrec : Maintained s.clock s.records s'.records) (hreq : ∀ p ∈ s'.requests, p.pc.Holds → p ∈ s.requests) :
    Inv s' := by
  constructor
  · rw [hhist]; exact h.atMostOnce
  · rw [hhist]; exact h.laterReplies
  · intro newer e older r heq he
    rcases h.current newer e older r (hhist ▸ heq) he with hx | ⟨row, hrow, hf, hc⟩
    · exact .inl (hx.later hclock)
    · rcases hrec e.scope with hsame | ⟨r₁, hr₁, hexp, -⟩ | ⟨r₁, r₂, hr₁, hr₂, -, hst, hf'⟩
      · exact .inr ⟨row, hsame.trans hrow, hf, hc⟩
      · obtain rfl : r₁ = row := Option.some.inj (hr₁.symm.trans hrow)
        simp only [Record.expired, Bool.and_eq_true, decide_eq_true_eq] at hexp
        exact .inl ⟨_, (hc hexp.1).2, hexp.2.trans hclock⟩
      · obtain rfl : r₁ = row := Option.some.inj (hr₁.symm.trans hrow)
        exact .inr ⟨r₂, hr₂, hf'.trans hf, fun h => by rw [hst] at h; cases h⟩
  · intro p hp hh
    obtain ⟨row, hrow, hf, hns⟩ := h.claimed p (hreq p hp hh) hh
    rcases hrec p.scope with hsame | ⟨r₁, hr₁, hexp, -⟩ | ⟨r₁, r₂, hr₁, hr₂, -, hst, hf'⟩
    · exact ⟨row, hsame.trans hrow, hf, hns⟩
    · obtain rfl : r₁ = row := Option.some.inj (hr₁.symm.trans hrow)
      simp only [Record.expired, Bool.and_eq_true, decide_eq_true_eq] at hexp
      exact absurd hexp.1 hns
    · obtain rfl : r₁ = row := Option.some.inj (hr₁.symm.trans hrow)
      exact ⟨r₂, hr₂, hf'.trans hf, by rw [hst]; decide⟩
  · intro p hp q hq hhp hhq hsc
    exact h.exclusive p (hreq p hp hhp) q (hreq q hq hhq) hhp hhq hsc
  · intro p hp hpc newer e older r heq he hsc
    exact (h.operating p (hreq p hp (by rw [hpc]; trivial)) hpc newer e older r (hhist ▸ heq) he hsc).later hclock
  · intro p hp r hpc newer e older r' heq he hsc
    exact (h.completing p (hreq p hp (by rw [hpc]; trivial)) r hpc newer e older r' (hhist ▸ heq) he hsc).imp_left
      (·.later hclock)

theorem Maintained.refl : Maintained now t t := fun _ => .inl rfl

theorem Maintained.later {now' : Time} (hle : now ≤ now') (h : Maintained now t t') : Maintained now' t t' := by
  intro σ
  rcases h σ with hs | ⟨r, hr, hx, hn⟩ | hm
  · exact .inl hs
  · refine .inr (.inl ⟨r, hr, ?_, hn⟩)
    simp only [Record.expired, Bool.and_eq_true, decide_eq_true_eq] at hx ⊢
    exact ⟨hx.1, hx.2.trans hle⟩
  · exact .inr (.inr hm)

theorem mem_setPc {p q : Process} {pc : Pc} (hp : p ∈ s.requests) :
    q ∈ (s.setPc p.id pc).requests ↔ (q ∈ s.requests ∧ q.id ≠ p.id) ∨ q = { p with pc := pc } := by
  simp only [State.setPc, Table.mem_updateWhere, decide_eq_true_eq]
  constructor
  · rintro ⟨x, hx, rfl⟩
    split
    · next hid => obtain rfl := Table.eq_of_key_eq hx hp hid; exact .inr rfl
    · next hid => exact .inl ⟨hx, hid⟩
  · rintro (⟨hq, hid⟩ | rfl)
    · exact ⟨q, hq, if_neg hid⟩
    · exact ⟨p, hp, if_pos rfl⟩

theorem setPc_setPc {id : Nat} {pc' : Pc} (pc : Pc) : (s.setPc id pc).setPc id pc' = s.setPc id pc' := by
  simp only [State.setPc, State.mk.injEq, true_and, and_true]
  apply Table.ext
  simp only [Table.updateWhere, List.map_map]
  refine List.map_congr_left fun q _ => ?_
  by_cases hq : q.id = id <;> simp [hq]

/-- A request that moves to a point where it holds no claim adds no holder. -/
theorem holds_of_setPc {p q : Process} {pc : Pc} (hp : p ∈ s.requests) (hpc : ¬ pc.Holds)
    (hq : q ∈ (s.setPc p.id pc).requests) (hh : q.pc.Holds) : q ∈ s.requests ∧ q.id ≠ p.id := by
  rcases (mem_setPc hp).mp hq with h | rfl
  · exact h
  · exact absurd hh hpc

theorem Inv.setPc {p : Process} (h : Inv s) (pc : Pc) (hp : p ∈ s.requests) (hpc : ¬ pc.Holds) :
    Inv (s.setPc p.id pc) :=
  h.weaken le_rfl rfl .refl fun _ hq hh => (holds_of_setPc hp hpc hq hh).1

/-- A request whose row is free, or expired, claims it. -/
theorem Inv.claim {p : Process} {row : Record} (h : Inv s) (hp : p ∈ s.requests) (hsettled : Settled s p.scope)
    (hfree : ∀ r, s.records.get? p.scope = some r → r.state = .completed)
    (hf : row.requestFingerprint = p.fingerprint) (hs : row.state = .pending)
    (ht : ∀ σ, t'.get? σ = if σ = p.scope then some row else s.records.get? σ) :
    Inv ({ s with records := t' }.setPc p.id .operate) := by
  have hnone : ∀ q ∈ s.requests, q.pc.Holds → q.scope ≠ p.scope := by
    intro q hq hh hsc
    obtain ⟨r, hr, -, hns⟩ := h.claimed q hq hh
    exact hns (hfree r (hsc ▸ hr))
  have hp' : p ∈ { s with records := t' }.requests := hp
  constructor
  · exact h.atMostOnce
  · exact h.laterReplies
  · intro newer e older r heq he
    by_cases hsc : e.scope = p.scope
    · exact .inl (hsettled newer e older r heq he hsc)
    · refine (h.current newer e older r heq he).imp_right ?_
      rintro ⟨x, hx, hrest⟩
      exact ⟨x, (ht _).trans ((if_neg hsc).trans hx), hrest⟩
  · intro q hq hh
    rcases (mem_setPc hp').mp hq with ⟨hq, -⟩ | rfl
    · obtain ⟨x, hx, hrest⟩ := h.claimed q hq hh
      exact ⟨x, (ht _).trans ((if_neg (hnone q hq hh)).trans hx), hrest⟩
    · exact ⟨row, (ht _).trans (if_pos rfl), hf, by rw [hs]; decide⟩
  · intro q hq q' hq' hh hh' hsc
    rcases (mem_setPc hp').mp hq with ⟨hq, -⟩ | rfl <;> rcases (mem_setPc hp').mp hq' with ⟨hq', -⟩ | rfl
    · exact h.exclusive q hq q' hq' hh hh' hsc
    · exact absurd hsc (hnone q hq hh)
    · exact absurd hsc.symm (hnone q' hq' hh')
    · rfl
  · intro q hq hpc
    rcases (mem_setPc hp').mp hq with ⟨hq, -⟩ | rfl
    · exact h.operating q hq hpc
    · exact hsettled
  · intro q hq r hpc
    rcases (mem_setPc hp').mp hq with ⟨hq, -⟩ | rfl
    · exact h.completing q hq r hpc
    · cases hpc

/-- A row that is gone or has expired leaves no execution current. -/
theorem Inv.settled (h : Inv s)
    (hfree : ∀ r, s.records.get? scope = some r → r.state = .completed ∧ r.expiresAt ≤ s.clock) :
    Settled s scope := by
  intro newer e older r heq he hsc
  rcases h.current newer e older r heq he with hx | ⟨row, hrow, -, hc⟩
  · exact hx
  · obtain ⟨hs, hle⟩ := hfree row (hsc ▸ hrow)
    exact ⟨_, (hc hs).2, hle⟩

/-- Recording an answer that is right for every execution kept. -/
theorem Inv.answered {p : Process} {reply : Except ApiError Response} (h : Inv s)
    (hreply : ∀ mid e older r, s.history = mid ++ e :: older → e.kind = .executed r → p.scope = e.scope →
      p.id ≠ e.request → ¬ ExpiredBy mid e.request s.clock → LaterReply e.fingerprint r p.fingerprint reply) :
    Inv (s.record p (.answered reply)) := by
  have hsplit : ∀ {newer e older r}, (s.record p (.answered reply)).history = newer ++ e :: older →
      e.kind = .executed r → ∃ newer', newer = ⟨p.id, p.scope, p.fingerprint, s.clock, .answered reply⟩ :: newer' ∧
        s.history = newer' ++ e :: older := by
    intro newer e older r heq he
    rcases List.cons_eq_append_iff.mp heq with ⟨rfl, h'⟩ | h'
    · cases h'; cases he
    · exact h'
  constructor
  · exact h.atMostOnce.cons fun _ hk => by cases hk
  · refine h.laterReplies.cons fun reply' hk mid e older r heq he hsc hne hx => ?_
    cases hk
    exact hreply mid e older r heq he hsc hne hx
  · intro newer e older r heq he
    obtain ⟨newer', rfl, heq'⟩ := hsplit heq he
    refine (h.current newer' e older r heq' he).imp (·.cons _) ?_
    rintro ⟨row, hrow, hf, hc⟩
    exact ⟨row, hrow, hf, fun h => ⟨(hc h).1, (hc h).2.cons _⟩⟩
  · exact h.claimed
  · exact h.exclusive
  · intro q hq hpc newer e older r heq he hsc
    obtain ⟨newer', rfl, heq'⟩ := hsplit heq he
    exact (h.operating q hq hpc newer' e older r heq' he hsc).cons _
  · intro q hq r hpc newer e older r' heq he hsc
    obtain ⟨newer', rfl, heq'⟩ := hsplit heq he
    exact (h.completing q hq r hpc newer' e older r' heq' he hsc).imp_left (·.cons _)

/-- The request ends with that answer. -/
theorem Inv.answer {p : Process} {reply : Except ApiError Response} (h : Inv s) (hp : p ∈ s.requests)
    (hreply : ∀ mid e older r, s.history = mid ++ e :: older → e.kind = .executed r → p.scope = e.scope →
      p.id ≠ e.request → ¬ ExpiredBy mid e.request s.clock → LaterReply e.fingerprint r p.fingerprint reply) :
    Inv (s.answer p reply) :=
  (h.setPc .done hp id).answered hreply

/-- The operation of a request that holds the claim of its scope runs. -/
theorem Inv.executed {p : Process} (h : Inv s) (response : StoredResponse) (hp : p ∈ s.requests)
    (hpc : p.pc = .operate) : Inv ((s.record p (.executed response)).setPc p.id (.complete response)) := by
  have hsettled := h.operating p hp hpc
  have hholds : p.pc.Holds := by rw [hpc]; trivial
  have hp' : p ∈ (s.record p (.executed response)).requests := hp
  have hpset : ∀ {q : Process}, q ∈ s.requests → q.id ≠ p.id → q.pc.Holds → q.scope ≠ p.scope := by
    intro q hq hid hh hsc
    exact hid (congrArg Process.id (h.exclusive q hq p hp hh hholds hsc))
  constructor
  · refine h.atMostOnce.cons fun _ _ mid e₁ older r₁ heq he hsc => ?_
    exact hsettled mid e₁ older r₁ heq he hsc
  · exact h.laterReplies.cons fun _ hk => by cases hk
  · intro newer e older r heq he
    rcases List.cons_eq_append_iff.mp heq with ⟨rfl, h'⟩ | ⟨newer', rfl, heq'⟩
    · cases h'
      obtain ⟨row, hrow, hf, hns⟩ := h.claimed p hp hholds
      exact .inr ⟨row, hrow, hf, fun hc => absurd hc hns⟩
    · refine (h.current newer' e older r heq' he).imp (·.cons _) ?_
      rintro ⟨row, hrow, hf, hc⟩
      exact ⟨row, hrow, hf, fun h => ⟨(hc h).1, (hc h).2.cons _⟩⟩
  · intro q hq hh
    rcases (mem_setPc hp').mp hq with ⟨hq, -⟩ | rfl
    · exact h.claimed q hq hh
    · exact h.claimed p hp hholds
  · intro q hq q' hq' hh hh' hsc
    rcases (mem_setPc hp').mp hq with ⟨hq, hid⟩ | rfl <;> rcases (mem_setPc hp').mp hq' with ⟨hq', hid'⟩ | rfl
    · exact h.exclusive q hq q' hq' hh hh' hsc
    · exact absurd hsc (hpset hq hid hh)
    · exact absurd hsc.symm (hpset hq' hid' hh')
    · rfl
  · intro q hq hqpc newer e older r heq he hsc
    rcases (mem_setPc hp').mp hq with ⟨hq, hid⟩ | rfl
    · rcases List.cons_eq_append_iff.mp heq with ⟨rfl, h'⟩ | ⟨newer', rfl, heq'⟩
      · cases h'
        exact absurd hsc.symm (hpset hq hid (by rw [hqpc]; trivial))
      · exact (h.operating q hq hqpc newer' e older r heq' he hsc).cons _
    · cases hqpc
  · intro q hq r hqpc newer e older r' heq he hsc
    rcases (mem_setPc hp').mp hq with ⟨hq, hid⟩ | rfl
    · rcases List.cons_eq_append_iff.mp heq with ⟨rfl, h'⟩ | ⟨newer', rfl, heq'⟩
      · cases h'
        exact absurd hsc.symm (hpset hq hid (by rw [hqpc]; trivial))
      · exact (h.completing q hq r hqpc newer' e older r' heq' he hsc).imp_left (·.cons _)
    · cases hqpc
      rcases List.cons_eq_append_iff.mp heq with ⟨rfl, h'⟩ | ⟨newer', rfl, heq'⟩
      · cases h'; cases he
        exact .inr ⟨rfl, rfl⟩
      · exact .inl ((hsettled newer' e older r' heq' he hsc).cons _)

/-- The response of a request is stored and its claim ends. -/
theorem Inv.completed {p : Process} {response : StoredResponse} {row : Record} {x : Time} (h : Inv s)
    (hp : p ∈ s.requests) (hpc : p.pc = .complete response)
    (hf : row.requestFingerprint = p.fingerprint) (hx : row.expiresAt = x) (hst : row.Stores response)
    (hfp : ∀ r, s.records.get? p.scope = some r → r.requestFingerprint = p.fingerprint)
    (ht : ∀ σ, t'.get? σ = if σ = p.scope then some row else s.records.get? σ) :
    Inv (({ s with records := t' }.record p (.completed response x)).setPc p.id .done) := by
  have hholds : p.pc.Holds := by rw [hpc]; trivial
  have hp' : p ∈ ({ s with records := t' }.record p (.completed response x)).requests := hp
  have hidle : ¬ Pc.Holds .done := id
  have hother : ∀ {q : Process}, q ∈ s.requests → q.id ≠ p.id → q.pc.Holds → q.scope ≠ p.scope := by
    intro q hq hid hh hsc
    exact hid (congrArg Process.id (h.exclusive q hq p hp hh hholds hsc))
  have hsplit : ∀ {newer e older r}, ({ s with records := t' }.record p (.completed response x)).history =
      newer ++ e :: older → e.kind = .executed r →
      ∃ newer', newer = ⟨p.id, p.scope, p.fingerprint, s.clock, .completed response x⟩ :: newer' ∧
        s.history = newer' ++ e :: older := by
    intro newer e older r heq he
    rcases List.cons_eq_append_iff.mp heq with ⟨rfl, h'⟩ | h'
    · cases h'; cases he
    · exact h'
  constructor
  · exact h.atMostOnce.cons fun _ hk => by cases hk
  · exact h.laterReplies.cons fun _ hk => by cases hk
  · intro newer e older r heq he
    obtain ⟨newer', rfl, heq'⟩ := hsplit heq he
    by_cases hsc : e.scope = p.scope
    · rcases h.completing p hp response hpc newer' e older r heq' he hsc with hexp | ⟨hid, rfl⟩
      · exact .inl (hexp.cons _)
      · rcases h.current newer' e older r heq' he with hexp | ⟨old, hold, hof, -⟩
        · exact .inl (hexp.cons _)
        · have hef : p.fingerprint = e.fingerprint := (hfp old (hsc ▸ hold)).symm.trans hof
          refine .inr ⟨row, (ht _).trans (if_pos hsc), hf.trans hef, fun _ => ⟨hst, ?_⟩⟩
          exact ⟨_, List.mem_cons_self, hid.symm, r, by rw [hx]⟩
    · refine (h.current newer' e older r heq' he).imp (·.cons _) ?_
      rintro ⟨old, hold, hof, hc⟩
      exact ⟨old, (ht _).trans ((if_neg hsc).trans hold), hof, fun h => ⟨(hc h).1, (hc h).2.cons _⟩⟩
  · intro q hq hh
    obtain ⟨hq, hid⟩ := holds_of_setPc hp' hidle hq hh
    obtain ⟨old, hold, hrest⟩ := h.claimed q hq hh
    exact ⟨old, (ht _).trans ((if_neg (hother hq hid hh)).trans hold), hrest⟩
  · intro q hq q' hq' hh hh' hsc
    exact h.exclusive q (holds_of_setPc hp' hidle hq hh).1 q' (holds_of_setPc hp' hidle hq' hh').1 hh hh' hsc
  · intro q hq hqpc newer e older r heq he hsc
    obtain ⟨newer', rfl, heq'⟩ := hsplit heq he
    have hq := (holds_of_setPc hp' hidle hq (by rw [hqpc]; trivial)).1
    exact (h.operating q hq hqpc newer' e older r heq' he hsc).cons _
  · intro q hq r hqpc newer e older r' heq he hsc
    obtain ⟨newer', rfl, heq'⟩ := hsplit heq he
    have hq := (holds_of_setPc hp' hidle hq (by rw [hqpc]; trivial)).1
    exact (h.completing q hq r hqpc newer' e older r' heq' he hsc).imp_left (·.cons _)

/-- What the closing `SELECT` makes a request answer is right for every execution whose
record is kept: its row is there. -/
theorem Inv.reply_select {p : Process} {mid older : List Event} {e : Event} {r : StoredResponse} (h : Inv s)
    (heq : s.history = mid ++ e :: older) (he : e.kind = .executed r) (hsc : p.scope = e.scope)
    (hx : ¬ ExpiredBy mid e.request s.clock) :
    ∃ c reply, readClaim p.scope p.fingerprint s.records = .ok c ∧ refuse c = some reply ∧
      LaterReply e.fingerprint r p.fingerprint reply := by
  rcases h.current mid e older r heq he with hexp | ⟨row, hrow, hf, hc⟩
  · exact absurd hexp hx
  rw [← hf]
  rcases readClaim_some p.fingerprint (hsc ▸ hrow) with
    ⟨hne, hr⟩ | ⟨hfp, -, hr⟩ | ⟨hfp, -, hr⟩ | ⟨hfp, hs, stored, hst, hlo, hhi, hr⟩
  · exact ⟨_, _, hr, rfl, .mismatch hne.symm⟩
  · exact ⟨_, _, hr, rfl, hfp ▸ .inProgress⟩
  · exact ⟨_, _, hr, rfl, hfp ▸ .indeterminate⟩
  · obtain rfl := hst.unique (hc hs).1
    refine ⟨_, .ok ⟨stored, true⟩, hr, ?_, hfp ▸ .replay⟩
    rw [refuse, replay, if_pos ⟨hlo, by omega⟩]

theorem runStatement_inv {p : Process} (h : Inv s) (hp : p ∈ s.requests) (hnow : now ≤ s.clock)
    (hstep : runStatement s p now locked = some s') : Inv s' := by
  cases hpc : p.pc with
  | deleteExpired =>
    simp only [runStatement, hpc, Option.some.injEq] at hstep
    subst hstep
    have hm : Inv { s with records := deleteExpired locked now s.records } :=
      h.weaken le_rfl rfl (deleteExpired_maintained.later hnow) fun _ hq _ => hq
    exact hm.setPc .markStale hp id
  | markStale =>
    simp only [runStatement, hpc, Option.some.injEq] at hstep
    subst hstep
    have hm : Inv { s with records := markStale locked now s.records } :=
      h.weaken le_rfl rfl (markStale_maintained.later hnow) fun _ hq _ => hq
    exact hm.setPc .insert hp id
  | insert =>
    simp only [runStatement, hpc] at hstep
    split at hstep
    · next hins =>
      cases hstep
      refine h.answer hp fun mid e older r heq he hsc _ hx => ?_
      -- A scope the table refuses has no row, so no execution of it is current.
      rcases h.current mid e older r heq he with hexp | ⟨row, hrow, -, -⟩
      · exact absurd hexp hx
      · have hl := row.withinLimits
        rw [Table.key_of_get? hrow, ← hsc, insertClaim_none hins] at hl
        cases hl
    · next t hins =>
      cases hstep
      obtain ⟨hnone, hl, ht⟩ := insertClaim_true hins
      have hsettled : Settled s p.scope := h.settled fun r hr => by rw [hnone] at hr; cases hr
      exact h.claim hp hsettled (fun r hr => by rw [hnone] at hr; cases hr) rfl rfl ht
    · next hins =>
      cases hstep
      exact h.setPc _ hp id
  | reclaim =>
    simp only [runStatement, hpc] at hstep
    split at hstep
    · next t hre =>
      cases hstep
      obtain ⟨row, hrow, hs, hle, ht⟩ := reclaim_true hre
      have hexp : ∀ r, s.records.get? p.scope = some r → r.state = .completed ∧ r.expiresAt ≤ s.clock := by
        intro r hr
        obtain rfl := Option.some.inj (hr.symm.trans hrow)
        exact ⟨hs, hle.trans hnow⟩
      exact h.claim hp (h.settled hexp) (fun r hr => (hexp r hr).1) rfl rfl ht
    · cases hstep
      exact h.setPc _ hp id
  | select =>
    simp only [runStatement, hpc] at hstep
    split at hstep
    · next err herr =>
      cases hstep
      refine h.answer hp fun mid e older r heq he hsc _ hx => ?_
      obtain ⟨c, -, hc, -⟩ := h.reply_select heq he hsc hx
      rw [herr] at hc; cases hc
    · next c hc =>
      simp only [Option.map_eq_some_iff] at hstep
      obtain ⟨reply, hreply, rfl⟩ := hstep
      refine h.answer hp fun mid e older r heq he hsc _ hx => ?_
      obtain ⟨c', reply', hc', hreply', hlater⟩ := h.reply_select heq he hsc hx
      obtain rfl : c = c' := Except.ok.inj (hc.symm.trans hc')
      obtain rfl : reply = reply' := Option.some.inj (hreply.symm.trans hreply')
      exact hlater
  | complete response =>
    simp only [runStatement, hpc] at hstep
    -- While this request is about to complete, every execution kept under its scope is its own.
    have hown : ∀ {mid e older r}, s.history = mid ++ e :: older → e.kind = .executed r → p.scope = e.scope →
        p.id ≠ e.request → ExpiredBy mid e.request s.clock := by
      intro mid e older r heq he hsc hne
      rcases h.completing p hp response hpc mid e older r heq he hsc.symm with hexp | ⟨hid, -⟩
      · exact hexp
      · exact absurd hid.symm hne
    split at hstep
    · cases hstep
      exact h.answer hp fun mid e older r heq he hsc hne hx => absurd (hown heq he hsc hne) hx
    · next t hcomp =>
      cases hstep
      obtain ⟨old, row, hold, -, hof, -, hf, hx, hst, ht⟩ := complete_ok hcomp
      have hi := h.completed hp hpc hf hx hst
        (fun r hr => by rw [hold] at hr; cases hr; exact hof) ht
      refine hi.answered fun mid e older r heq he hsc hne hexp => ?_
      rcases List.cons_eq_append_iff.mp heq with ⟨rfl, h'⟩ | ⟨mid', rfl, heq'⟩
      · cases h'; cases he
      · exact absurd ((hown heq' he hsc hne).cons _) hexp
  | operate => simp [runStatement, hpc] at hstep
  | done => simp [runStatement, hpc] at hstep

theorem runOperation_inv {p : Process} {response : StoredResponse} (h : Inv s) (hp : p ∈ s.requests)
    (hstep : runOperation s p response = some s') : Inv s' := by
  simp only [runOperation] at hstep
  split at hstep; · cases hstep
  next hpc =>
  have hpc : p.pc = .operate := not_not.mp hpc
  have hi := h.executed response hp hpc
  split at hstep
  · cases hstep
    -- The response is too long to store: the request ends where its completion would begin.
    have hp' : { p with pc := .complete response } ∈
        ((s.record p (.executed response)).setPc p.id (.complete response)).requests :=
      (mem_setPc (s := s.record p _) hp).mpr (.inr rfl)
    rw [State.answer, ← setPc_setPc (.complete response)]
    refine (hi.setPc .done hp' id).answered fun mid e older r heq he hsc hne hexp => ?_
    rcases hi.completing _ hp' response rfl mid e older r heq he hsc.symm with hx | ⟨hid, -⟩
    · exact absurd hx hexp
    · exact absurd hid.symm hne
  · cases hstep
    exact hi

theorem step_inv {a : Label} (h : Inv s) (hstep : step sha256 s a = some s') : Inv s' := by
  cases a with
  | tick seconds =>
    cases hstep
    exact h.weaken (Nat.le_add_right _ _) rfl .refl fun _ hp _ => hp
  | arrive id scope body ifMatch =>
    simp only [step, Option.map_eq_some_iff] at hstep
    obtain ⟨rs, hins, rfl⟩ := hstep
    refine h.weaken le_rfl rfl .refl fun p hp hh => ?_
    rcases (Table.mem_insert hins p).mp hp with hp | rfl
    · exact hp
    · exact hh.elim
  | statement id now locked =>
    simp only [step] at hstep
    split at hstep
    · next hnow =>
      obtain ⟨p, hp, hstep⟩ := Option.bind_eq_some_iff.mp hstep
      exact runStatement_inv h (Table.mem_of_get? hp) hnow hstep
    · cases hstep
  | operate id response =>
    obtain ⟨p, hp, hstep⟩ := Option.bind_eq_some_iff.mp hstep
    exact runOperation_inv h (Table.mem_of_get? hp) hstep
  | crash id =>
    simp only [step, Option.map_eq_some_iff] at hstep
    obtain ⟨p, hp, rfl⟩ := hstep
    exact h.setPc .done (Table.mem_of_get? hp) fun hh => hh

theorem reachable_inv (h : (server sha256).Reachable s) : Inv s :=
  h.invariant Inv (fun _ => inv_init) fun _ _ _ _ hi hs => step_inv hi hs

/-- **At most one execution for each key.** In every run, between two executions of the
operation under one principal, method, route and key the record of the first has expired;
and every other request that is answered after an execution while its record is kept gets
the stored response of that execution, or is refused as in progress or indeterminate, or
is told that the key was used for a different request. -/
theorem execution_at_most_once (h : (server sha256).Reachable s) :
    AtMostOnce s.history ∧ LaterReplies s.history :=
  ⟨(reachable_inv h).atMostOnce, (reachable_inv h).laterReplies⟩

/-- The statements of one request, none of its rows locked by another. -/
private def statements (id : Nat) (now : Time) (n : Nat) : List Label :=
  List.replicate n (.statement id now fun _ => false)

/-- Request 1 executes; 2 is told it is in progress, 3 gets its response again, 4 has other
bytes; a day later 5 executes. -/
private def fiveRequests : List Label :=
  let scope : RequestScope := ⟨"user", "PUT", "/api/v1/vaults/v/items/i", "key"⟩
  let response : StoredResponse := ⟨200, some "application/json", [123, 125], some "\"1\""⟩
  [.arrive 1 scope [7] none] ++ statements 1 0 3 ++ [.operate 1 response] ++
    [.arrive 2 scope [7] none] ++ statements 2 0 5 ++ statements 1 0 1 ++
    [.arrive 3 scope [7] none] ++ statements 3 0 5 ++ [.arrive 4 scope [8] none] ++ statements 4 0 5 ++
    [.tick retention, .arrive 5 scope [8] none] ++ statements 5 retention 3 ++ [.operate 5 response]

theorem execution_at_most_once_five_requests :
    ∃ s, (server id).run ⟨0, .empty, .empty, []⟩ fiveRequests = some s ∧ s.history.length = 7 ∧
      AtMostOnce s.history ∧ LaterReplies s.history := by
  have h : ((server id).run ⟨0, .empty, .empty, []⟩ fiveRequests).any (fun s => s.history.length = 7) := by
    decide +kernel
  obtain ⟨s, hs, hl⟩ := (Option.any_eq_true _ _).mp h
  have hr : (server id).Reachable s := System.Reachable.run (.init ⟨rfl, rfl, rfl⟩) hs
  exact ⟨s, hs, of_decide_eq_true hl, execution_at_most_once hr⟩

end Bittery.Idempotency
