/-
Requests survive a session refresh as long as a refresh is only started with the token that is
stored: then what has waited for a refresh gets the token that is stored when it ends, and who
is answered 401 for an older token finds the refresh that replaces it under way.
-/
import Bittery.Client.SessionRefreshFacts

namespace Bittery

open Lib

/-! ## Requests survive -/

/-- The snapshot that a request asks `refreshSnapshot` with when it goes on, and whether forced. -/
def ApiRequest.refreshCall (t : ApiRequest) (ok : Bool) : Option (AccountSessionSnapshot × Bool) :=
  match t.await with
  | .authorizeServer (some s) => if ok ∧ t.bearer.isNone then some (s, false) else none
  | .answered (some s) token true _ => if token ≠ "" ∧ ¬ t.url.isRefresh then some (s, true) else none
  | _ => none

def Refresh.isStoring (r : Refresh) : Bool :=
  match r.await with
  | .storing _ _ => true
  | _ => false

namespace ApiClientState

/-- Whether `refreshSnapshot` starts a refresh. -/
def startsRefresh (q : ApiClientState) (options : SessionRefreshingApiClientOptions) (s : AccountSessionSnapshot)
    (force : Bool) : Bool :=
  s.bearer ≠ "" && (force || s.shouldRefresh options.thresholdRatio (q.timingByAccount s.accountKey) q.clock) &&
    (q.refreshByAccount s.accountKey).isNone

/-- Whether the client has stored a token, or used it for a refresh or got it from one. -/
def uses (q : ApiClientState) (token : String) : Bool :=
  q.refreshes.any (fun r => r.snapshot.bearer = token || r.renewed = some token) ||
    q.issued.any fun x => x.token = token && q.storedToken x.accountId = some token

/-- A refresh is started with the token that is stored, and what it brings can be stored. A token
that a request brings along is a new one of the default server. -/
def UpToDate (options : SessionRefreshingApiClientOptions) (q : ApiClientState) (a : Nat × ApiLabel) : Prop :=
  match a.2 with
  | .request url bearer => url.isRefresh = false ∧ ∀ token ∈ bearer,
      (∃ x ∈ q.issued, x.token = token ∧ x.server = options.defaultServerUrl) ∧ q.uses token = false
  | .resume k ok => ∀ t ∈ q.requests[k]?, ∀ call ∈ t.refreshCall ok,
      ({ q with clock := a.1 } : ApiClientState).startsRefresh options call.1 call.2 = true →
        q.storedToken call.1.accountId = some call.1.bearer
  | .refreshFails i _ => ∀ r ∈ q.refreshes[i]?, r.isStoring = false
  | _ => True

instance (options : SessionRefreshingApiClientOptions) (q : ApiClientState) :
    (a : Nat × ApiLabel) → Decidable (UpToDate options q a)
  | (_, .request url bearer) => inferInstanceAs (Decidable (url.isRefresh = false ∧ ∀ token ∈ bearer,
      (∃ x ∈ q.issued, x.token = token ∧ x.server = options.defaultServerUrl) ∧ q.uses token = false))
  | (now, .resume k ok) => inferInstanceAs (Decidable (∀ t ∈ q.requests[k]?, ∀ call ∈ t.refreshCall ok,
      ({ q with clock := now } : ApiClientState).startsRefresh options call.1 call.2 = true →
        q.storedToken call.1.accountId = some call.1.bearer))
  | (_, .refreshFails i _) => inferInstanceAs (Decidable (∀ r ∈ q.refreshes[i]?, r.isStoring = false))
  | (_, .setActiveAccount _) | (_, .serve _ _ _) | (_, .lose _) | (_, .serveRefresh _ _ _) | (_, .resumeRefresh _)
  | (_, .revoke _) => .isTrue trivial

end ApiClientState

/-- The token of a request that was answered 401 and not replayed. -/
def RequestAwait.refused : RequestAwait → Option String
  | .answered _ token true _ | .forced _ token _ | .ended (some ⟨true, token, false⟩) => some token
  | _ => none

/-- The same, once the caller has the answer. -/
def RequestAwait.gaveUp : RequestAwait → Option String
  | .ended (some ⟨true, token, false⟩) => some token
  | _ => none

theorem RequestAwait.refused_of_gaveUp {await : RequestAwait} {token : String} (h : await.gaveUp = some token) :
    await.refused = some token := by
  unfold gaveUp at h
  split at h
  · exact h
  · cases h

namespace ApiClientState

/-- No session has the token any more. -/
def Refused (q : ApiClientState) (token : String) : Prop :=
  (token ≠ "" → ∃ x ∈ q.issued, x.token = token) ∧ ∀ x ∈ q.sessions, x.token ≠ token

/-- No refresh has replaced the token. -/
def Unreplaced (q : ApiClientState) (token : String) : Prop :=
  ∀ r ∈ q.refreshes, r.renewed.isSome = true → r.snapshot.bearer ≠ token

/-- A token that a caller has and the client has not. -/
structure Brought (options : SessionRefreshingApiClientOptions) (q : ApiClientState) (token : String) : Prop where
  issued : ∃ x ∈ q.issued, x.token = token ∧ x.server = options.defaultServerUrl
  bearer : ∀ r ∈ q.refreshes, r.snapshot.bearer ≠ token
  renewed : ∀ r ∈ q.refreshes, r.renewed ≠ some token
  stored : ∀ accountId, q.storedToken accountId ≠ some token

end ApiClientState

structure ApiRequest.Current (options : SessionRefreshingApiClientOptions) (q : ApiClientState) (t : ApiRequest) :
    Prop where
  url : t.url.isUnder options.defaultServerUrl = true
  isRefresh : t.url.isRefresh = false
  bearer : ∀ token ∈ t.bearer, q.Brought options token
  refused : ∀ token ∈ t.await.refused, q.Refused token
  gaveUp : ∀ token ∈ t.await.gaveUp, q.Unreplaced token

namespace ApiClientState

/-- What holds as long as every refresh is started with the token that is stored. -/
structure Current (options : SessionRefreshingApiClientOptions) (q : ApiClientState) : Prop where
  inFlight : ∀ r ∈ q.refreshes, r.inFlight = true → q.storedToken r.snapshot.accountId = some r.snapshot.bearer
  replaced : ∀ r ∈ q.refreshes, r.succeeded = true → ∀ accountId, q.storedToken accountId ≠ some r.snapshot.bearer
  pending : ∀ r ∈ q.refreshes, r.inFlight = true → ∀ token ∈ r.renewed,
    (∀ r' ∈ q.refreshes, r'.snapshot.bearer ≠ token) ∧ ∀ accountId, q.storedToken accountId ≠ some token
  renewed : ∀ r ∈ q.refreshes, r.renewed.isSome = true → ∀ x ∈ q.sessions, x.token ≠ r.snapshot.bearer
  requests : ∀ t ∈ q.requests, t.Current options q
  brought : ∀ b ∈ q.sent, b.use = .brought → b.AtHome q.issued
  replay : ∀ b ∈ q.sent, ∀ stored, b.use = .replay stored → stored = some b.token

/-- A later state: where its tokens come from. -/
structure Ahead (q q' : ApiClientState) : Prop where
  issued : q.issued ⊆ q'.issued
  sessions : ∀ x ∈ q'.sessions, x ∈ q.sessions ∨ x.token ≠ "" ∧ ∀ y ∈ q.issued, y.token ≠ x.token
  bearer : ∀ r' ∈ q'.refreshes, (∃ r ∈ q.refreshes, r.snapshot.bearer = r'.snapshot.bearer) ∨
    ∃ accountId, q.storedToken accountId = some r'.snapshot.bearer
  renewed : ∀ r' ∈ q'.refreshes, ∀ token ∈ r'.renewed,
    (∃ r ∈ q.refreshes, r.renewed = some token) ∨ ∀ y ∈ q.issued, y.token ≠ token
  replaced : ∀ r' ∈ q'.refreshes, r'.renewed.isSome = true →
    (∃ r ∈ q.refreshes, r.renewed.isSome = true ∧ r.snapshot.bearer = r'.snapshot.bearer) ∨
      ∃ x ∈ q.sessions, x.token = r'.snapshot.bearer
  stored : ∀ accountId token, q'.storedToken accountId = some token →
    q.storedToken accountId = some token ∨ ∃ r ∈ q.refreshes, r.renewed = some token

variable {q q' : ApiClientState} {options : SessionRefreshingApiClientOptions} {token : String}

theorem Refused.ahead (h : q.Refused token) (hahead : Ahead q q') : q'.Refused token := by
  constructor
  · intro hne
    obtain ⟨x, hx, heq⟩ := h.1 hne
    exact ⟨x, hahead.issued hx, heq⟩
  · rintro x hx rfl
    rcases hahead.sessions x hx with hx | ⟨hne, hnew⟩
    · exact h.2 x hx rfl
    · obtain ⟨y, hy, heq⟩ := h.1 hne
      exact hnew y hy heq

theorem Unreplaced.ahead (h : q.Unreplaced token) (hrefused : q.Refused token) (hahead : Ahead q q') :
    q'.Unreplaced token := by
  intro r' hr' hsome heq
  rcases hahead.replaced r' hr' hsome with ⟨r, hr, hsome', hbearer⟩ | ⟨x, hx, htoken⟩
  · exact h r hr hsome' (hbearer.trans heq)
  · exact hrefused.2 x hx (htoken.trans heq)

theorem Brought.ahead (h : q.Brought options token) (hahead : Ahead q q') : q'.Brought options token where
  issued := by
    obtain ⟨x, hx, htoken, hserver⟩ := h.issued
    exact ⟨x, hahead.issued hx, htoken, hserver⟩
  bearer r' hr' heq := by
    rcases hahead.bearer r' hr' with ⟨r, hr, hbearer⟩ | ⟨accountId, hstored⟩
    · exact h.bearer r hr (hbearer.trans heq)
    · exact h.stored accountId (heq ▸ hstored)
  renewed r' hr' heq := by
    rcases hahead.renewed r' hr' token heq with ⟨r, hr, hrenewed⟩ | hnew
    · exact h.renewed r hr hrenewed
    · obtain ⟨x, hx, htoken, -⟩ := h.issued
      exact hnew x hx htoken
  stored accountId heq := by
    rcases hahead.stored accountId token heq with hstored | ⟨r, hr, hrenewed⟩
    · exact h.stored accountId hstored
    · exact h.renewed r hr hrenewed

end ApiClientState

theorem ApiRequest.Current.ahead {options : SessionRefreshingApiClientOptions} {q q' : ApiClientState} {t : ApiRequest}
    (h : t.Current options q) (hahead : ApiClientState.Ahead q q') : t.Current options q' where
  url := h.url
  isRefresh := h.isRefresh
  bearer token htoken := (h.bearer token htoken).ahead hahead
  refused token htoken := (h.refused token htoken).ahead hahead
  gaveUp token htoken := (h.gaveUp token htoken).ahead (h.refused token (RequestAwait.refused_of_gaveUp htoken)) hahead

namespace ApiClientState

variable {q q' : ApiClientState} {options : SessionRefreshingApiClientOptions} {token : String}

theorem Ahead.refl (q : ApiClientState) : Ahead q q where
  issued := List.Subset.refl _
  sessions _ hx := .inl hx
  bearer r hr := .inl ⟨r, hr, rfl⟩
  renewed r hr _ htoken := .inl ⟨r, hr, htoken⟩
  replaced r hr hsome := .inl ⟨r, hr, hsome, rfl⟩
  stored _ _ h := .inl h

/-! ### A request goes on -/

theorem Current.goOn (h : q.Current options) (k : Nat) {t : ApiRequest} (ht : t.Current options q)
    {await : RequestAwait} (hrefused : ∀ token ∈ await.refused, q.Refused token)
    (hgaveUp : ∀ token ∈ await.gaveUp, q.Unreplaced token) : (q.goOn k t await).Current options := by
  have hahead : Ahead q (q.goOn k t await) := { Ahead.refl q with }
  refine { h with requests := fun t' ht' => ?_ }
  rcases List.mem_or_eq_of_mem_set ht' with ht' | rfl
  · exact (h.requests t' ht').ahead hahead
  · exact ApiRequest.Current.ahead { ht with refused := hrefused, gaveUp := hgaveUp } hahead

theorem Current.send (h : q.Current options) {url : Url} {use : BearerUse}
    (hbrought : token ≠ "" → use = .brought → (⟨url, token, use⟩ : SentBearer).AtHome q.issued)
    (hreplay : ∀ stored, use ≠ .replay stored) : (q.send url token use).Current options := by
  have hmem : ∀ b ∈ (q.send url token use).sent, b ∈ q.sent ∨ token ≠ "" ∧ b = ⟨url, token, use⟩ := by
    intro b hb
    simp only [ApiClientState.send] at hb
    split at hb
    · exact .inl hb
    · next hne => exact (List.mem_cons.mp hb).symm.imp_right fun heq => ⟨hne, heq⟩
  have hahead : Ahead q (q.send url token use) := { Ahead.refl q with }
  refine { h with requests := fun t ht => (h.requests t ht).ahead hahead, brought := fun b hb huse => ?_, replay := fun b hb stored huse => ?_ }
  · rcases hmem b hb with hb | ⟨hne, rfl⟩
    · exact h.brought b hb huse
    · exact hbrought hne huse
  · rcases hmem b hb with hb | ⟨-, rfl⟩
    · exact h.replay b hb stored huse
    · exact absurd huse (hreplay stored)

theorem ahead_startRefresh {s : AccountSessionSnapshot} (hstored : q.storedToken s.accountId = some s.bearer) :
    Ahead q (q.startRefresh s) := by
  refine { Ahead.refl q with bearer := fun r' hr' => ?_, renewed := fun r' hr' token htoken => ?_, replaced := fun r' hr' hsome => ?_ }
  · rcases List.mem_append.mp hr' with hr' | hr'
    · exact .inl ⟨r', hr', rfl⟩
    · obtain rfl := List.mem_singleton.mp hr'
      exact .inr ⟨_, hstored⟩
  · rcases List.mem_append.mp hr' with hr' | hr'
    · exact .inl ⟨r', hr', htoken⟩
    · obtain rfl := List.mem_singleton.mp hr'
      cases htoken
  · rcases List.mem_append.mp hr' with hr' | hr'
    · exact .inl ⟨r', hr', hsome, rfl⟩
    · obtain rfl := List.mem_singleton.mp hr'
      cases hsome

theorem Current.startRefresh (h : q.Current options) {s : AccountSessionSnapshot}
    (hstored : q.storedToken s.accountId = some s.bearer) : (q.startRefresh s).Current options where
  inFlight r hr hflight := by
    rcases List.mem_append.mp hr with hr | hr
    · exact h.inFlight r hr hflight
    · obtain rfl := List.mem_singleton.mp hr
      exact hstored
  replaced r hr hsucceeded := by
    rcases List.mem_append.mp hr with hr | hr
    · exact h.replaced r hr hsucceeded
    · obtain rfl := List.mem_singleton.mp hr
      cases hsucceeded
  pending r hr hflight token htoken := by
    rcases List.mem_append.mp hr with hr | hr
    · obtain ⟨hbearer, hnever⟩ := h.pending r hr hflight token htoken
      refine ⟨fun r' hr' => ?_, hnever⟩
      rcases List.mem_append.mp hr' with hr' | hr'
      · exact hbearer r' hr'
      · obtain rfl := List.mem_singleton.mp hr'
        exact fun heq => hnever _ (heq ▸ hstored)
    · obtain rfl := List.mem_singleton.mp hr
      cases htoken
  renewed r hr hsome := by
    rcases List.mem_append.mp hr with hr | hr
    · exact h.renewed r hr hsome
    · obtain rfl := List.mem_singleton.mp hr
      cases hsome
  requests t ht := (h.requests t ht).ahead (ahead_startRefresh hstored)
  brought b hb huse := by
    rcases List.mem_cons.mp hb with rfl | hb
    · cases huse
    · exact h.brought b hb huse
  replay b hb stored huse := by
    rcases List.mem_cons.mp hb with rfl | hb
    · cases huse
    · exact h.replay b hb stored huse

/-- `refreshSnapshot` answers a token only when the account has none, or the refresh is not forced. -/
theorem Current.refreshSnapshot (h : q.Current options) {s : AccountSessionSnapshot} {force : Bool} {r : Refreshing}
    (hstored : q.startsRefresh options s force = true → q.storedToken s.accountId = some s.bearer)
    (hq' : q.refreshSnapshot options s force = (q', r)) :
    q'.Current options ∧ Ahead q q' ∧ (force = true → ∀ token, r = .done token → s.bearer = "") := by
  unfold ApiClientState.refreshSnapshot at hq'
  split at hq'
  · next hempty =>
    cases hq'
    exact ⟨h, .refl q, fun _ _ _ => hempty⟩
  · next hne =>
    split at hq'
    · next hdue =>
      cases hq'
      exact ⟨h, .refl q, fun hforce => absurd hforce hdue.1⟩
    · next hdue =>
      cases hkey : q.refreshByAccount s.accountKey with
      | some id =>
        rw [hkey] at hq'
        cases hq'
        exact ⟨h, .refl q, fun _ _ hdone => by cases hdone⟩
      | none =>
        rw [hkey] at hq'
        cases hq'
        have hstarts : q.startsRefresh options s force = true := by
          cases force <;> simp_all [startsRefresh]
        exact ⟨h.startRefresh (hstored hstarts), ahead_startRefresh (hstored hstarts), fun _ _ hdone => by cases hdone⟩

theorem Current.noteExpiry (h : q.Current options) (s : AccountSessionSnapshot) (expires : Option (Option Nat)) :
    (q.noteExpiry s expires).Current options ∧ Ahead q (q.noteExpiry s expires) := by
  cases expires with
  | none => exact ⟨h, .refl q⟩
  | some expiresAt =>
    have hahead : Ahead q (q.noteExpiry s (some expiresAt)) := { Ahead.refl q with }
    exact ⟨{ h with requests := fun t ht => (h.requests t ht).ahead hahead }, hahead⟩

/-- A token that a request is answered 401 for without an account. -/
theorem unreplaced_bearer {t : ApiRequest} (h : t.Current options q) (hsound : q.Sound)
    (htoken : token = t.bearer.getD "") : q.Unreplaced token := by
  intro r hr _ heq
  cases hbearer : t.bearer with
  | none =>
    rw [hbearer] at htoken
    exact (hsound.refreshes r hr).1 (heq.trans htoken)
  | some b =>
    rw [hbearer] at htoken
    exact (h.bearer b hbearer).bearer r hr (heq.trans htoken)

/-- A request goes on to an await that has answered nothing yet. -/
theorem Current.goOn_unanswered (h : q.Current options) (k : Nat) {t : ApiRequest} (ht : t.Current options q)
    {await : RequestAwait} (hawait : await.refused = none) : (q.goOn k t await).Current options := by
  refine h.goOn k ht (fun token htoken => ?_) fun token htoken => ?_
  · rw [hawait] at htoken
    cases htoken
  · rw [RequestAwait.refused_of_gaveUp htoken] at hawait
    cases hawait

theorem Current.resume (h : q.Current options) (hsound : q.Sound) {k : Nat} {t : ApiRequest} {ok : Bool}
    {await : RequestAwait} (ht : t ∈ q.requests)
    (hstarts : ∀ call ∈ t.refreshCall ok, q.startsRefresh options call.1 call.2 = true →
      q.storedToken call.1.accountId = some call.1.bearer)
    (hq' : q.resume options t ok = some (q', await)) : (q'.goOn k t await).Current options := by
  have hcurrent := h.requests t ht
  have hawaits := hsound.requests t ht
  unfold ApiClientState.resume at hq'
  cases hawait : t.await with
  | activeAccount =>
    rw [hawait] at hq'
    cases hq'
    cases q.activeAccount with
    | none => exact h.goOn_unanswered k hcurrent rfl
    | some accountId => exact h.goOn_unanswered k hcurrent rfl
  | accountSnapshot accountId =>
    rw [hawait] at hq'
    cases hq'
    exact h.goOn_unanswered k hcurrent rfl
  | authorizeServer snapshot =>
    rw [hawait] at hq'
    dsimp only at hq'
    split at hq'
    · cases hq'
      exact h.goOn_unanswered k hcurrent rfl
    · next hok =>
      cases hbearer : t.bearer with
      | some token =>
        rw [hbearer] at hq'
        cases hq'
        have hsent : (q.send t.url token .brought).Current options := by
          refine h.send (fun _ _ => ?_) fun _ huse => by cases huse
          obtain ⟨x, hx, htoken, hserver⟩ := (hcurrent.bearer token hbearer).issued
          exact ⟨x, hx, htoken, hserver ▸ hcurrent.url⟩
        exact hsent.goOn_unanswered k (hcurrent.ahead { Ahead.refl q with }) rfl
      | none =>
        rw [hbearer] at hq'
        cases snapshot with
        | none =>
          cases hq'
          exact h.goOn_unanswered k hcurrent rfl
        | some s =>
          dsimp only at hq'
          have hcall : t.refreshCall ok = some (s, false) := by
            simp_all [ApiRequest.refreshCall]
          rcases hrefresh : q.refreshSnapshot options s false with ⟨q'', r⟩
          obtain ⟨hq'', hahead, -⟩ := h.refreshSnapshot (hstarts _ hcall) hrefresh
          rw [hrefresh] at hq'
          cases r with
          | done token =>
            cases hq'
            exact hq''.goOn_unanswered k (hcurrent.ahead hahead) rfl
          | wait id =>
            cases hq'
            exact hq''.goOn_unanswered k (hcurrent.ahead hahead) rfl
  | body snapshot token =>
    rw [hawait] at hq'
    cases hq'
    have hsent : (q.send (t.target options.defaultServerUrl snapshot) token .attached).Current options :=
      h.send (fun _ huse => by cases huse) fun _ huse => by cases huse
    exact hsent.goOn_unanswered k (hcurrent.ahead { Ahead.refl q with }) rfl
  | answered snapshot token unauthorized expires =>
    rw [hawait] at hq' hawaits
    have hrefused : unauthorized = true → q.Refused token := by
      rintro rfl
      exact hcurrent.refused token (by rw [hawait]; rfl)
    have hended : ∀ q'', Ahead q q'' → q''.Current options → (unauthorized = true → q''.Unreplaced token) →
        (q''.goOn k t (.ended (some ⟨unauthorized, token, false⟩))).Current options := by
      intro q'' hahead hq'' hunreplaced
      cases unauthorized with
      | false => exact hq''.goOn_unanswered k (hcurrent.ahead hahead) rfl
      | true =>
        refine hq''.goOn k (hcurrent.ahead hahead) (fun token' htoken => ?_) fun token' htoken => ?_
        · cases htoken
          exact (hrefused rfl).ahead hahead
        · cases htoken
          exact hunreplaced rfl
    cases snapshot with
    | none =>
      cases hq'
      exact hended q (.refl q) h fun _ => unreplaced_bearer hcurrent hsound hawaits
    | some s =>
      obtain ⟨hnoted, hahead⟩ := h.noteExpiry s expires
      dsimp only at hq'
      split at hq'
      · next hforced =>
        obtain ⟨rfl, hne, -⟩ := hforced
        have hcall : t.refreshCall ok = some (s, true) := by
          simp [ApiRequest.refreshCall, hawait, hne, hcurrent.isRefresh]
        rcases hrefresh : (q.noteExpiry s expires).refreshSnapshot options s true with ⟨q'', r⟩
        have hstored : (q.noteExpiry s expires).startsRefresh options s true = true →
            (q.noteExpiry s expires).storedToken s.accountId = some s.bearer := by
          cases expires with
          | none => exact hstarts _ hcall
          | some expiresAt =>
            intro hstarts'
            exact hstarts _ hcall (by simpa [startsRefresh, ApiClientState.noteExpiry] using hstarts')
        obtain ⟨hq'', hahead', hdone⟩ := hnoted.refreshSnapshot hstored hrefresh
        rw [hrefresh] at hq'
        cases r with
        | done refreshedToken => exact absurd (hdone rfl _ rfl) (hawaits.2.2 hne).1
        | wait id =>
          cases hq'
          refine hq''.goOn k ((hcurrent.ahead hahead).ahead hahead') (fun token' htoken => ?_) fun token' htoken => by cases htoken
          cases htoken
          exact ((hrefused rfl).ahead hahead).ahead hahead'
      · next hnot =>
        cases hq'
        refine hended _ hahead hnoted ?_
        rintro rfl r hr _ heq
        have hempty : token = "" := by
          simpa [hcurrent.isRefresh] using hnot
        refine ((hsound.noteExpiry s expires).refreshes r hr).1 (heq.trans hempty)
  | refresh | sent | forced | replayed | ended =>
    rw [hawait] at hq'
    cases hq'

theorem Current.serve (h : q.Current options) (hsound : q.Sound) {k : Nat} {t : ApiRequest}
    {expires : Option (Option Nat)} {fresh : String} {await : RequestAwait} (ht : t ∈ q.requests)
    (hq' : q.serve options t expires fresh = some (q', await)) : (q'.goOn k t await).Current options := by
  have hcurrent := h.requests t ht
  have hawaits := hsound.requests t ht
  unfold ApiClientState.serve at hq'
  cases hawait : t.await with
  | sent snapshot token =>
    rw [hawait] at hq' hawaits
    -- the session that the token is of, if it is of one
    have hsession : token ≠ "" → ∃ x ∈ q.issued, x.token = token ∧
        (t.target options.defaultServerUrl snapshot).isUnder x.server = true := by
      intro hne
      cases snapshot with
      | some s => exact target_atHome hawaits.1 hawaits.2.2 hne _ .attached
      | none =>
        cases hbearer : t.bearer with
        | none =>
          simp only [RequestAwait.Sound, hbearer, Option.getD_none] at hawaits
          exact absurd hawaits hne
        | some b =>
          simp only [RequestAwait.Sound, hbearer, Option.getD_some] at hawaits
          subst hawaits
          obtain ⟨x, hx, htoken, hserver⟩ := (hcurrent.bearer token hbearer).issued
          refine ⟨x, hx, htoken, ?_⟩
          rw [ApiRequest.target, hbearer, hserver]
          exact hcurrent.url
    dsimp only at hq'
    split at hq'
    · next hnone =>
      cases hq'
      refine h.goOn k hcurrent (fun token' htoken => ?_) fun token' htoken => by cases htoken
      cases htoken
      refine ⟨fun hne => ?_, fun x hx htoken => ?_⟩
      · obtain ⟨x, hx, htoken, -⟩ := hsession hne
        exact ⟨x, hx, htoken⟩
      · have hne : token ≠ "" := htoken ▸ hsound.nonempty x (hsound.sessions x hx)
        obtain ⟨y, hy, htoken', hunder⟩ := hsession hne
        obtain rfl := hsound.distinct x (hsound.sessions x hx) y hy (htoken.trans htoken'.symm)
        have := List.find?_eq_none.mp hnone x hx
        simp [htoken, hunder] at this
    · cases hq'
      rw [if_neg (by simp [hcurrent.isRefresh])]
      exact h.goOn_unanswered k hcurrent rfl
  | replayed s token =>
    rw [hawait] at hq'
    cases hq'
    refine h.goOn_unanswered k hcurrent ?_
    simp [RequestAwait.refused]
  | activeAccount | accountSnapshot | authorizeServer | refresh | body | answered | forced | ended =>
    rw [hawait] at hq'
    cases hq'

/-! ### A refresh goes on -/

/-- A stored token is of a session of the account. -/
theorem Sound.storedToken (h : q.Sound) {accountId : String} (hstored : q.storedToken accountId = some token)
    (hne : token ≠ "") : ∃ x ∈ q.issued, x.accountId = accountId ∧ x.token = token := by
  obtain ⟨account, haccount, htoken⟩ := Option.bind_eq_some_iff.mp hstored
  exact ⟨_, h.stored accountId account token haccount htoken hne, rfl, rfl⟩

/-- Two refreshes under way that have a token in common are the same. -/
theorem Sound.same_refresh (h : q.Sound) {i j : Nat} {r r' : Refresh} (hr : q.refreshes[i]? = some r)
    (hr' : q.refreshes[j]? = some r') (hflight : r.inFlight = true) (hflight' : r'.inFlight = true)
    (htoken : r.snapshot.session token ∈ q.issued) (htoken' : r'.snapshot.session token ∈ q.issued) : i = j := by
  refine h.same_inFlight hr hr' hflight hflight' ?_
  have heq := h.distinct _ htoken _ htoken' rfl
  simp only [AccountSessionSnapshot.session, ClientSession.mk.injEq] at heq
  simp [AccountSessionSnapshot.accountKey, heq]

/-- The refreshes after one of them has gone on. -/
theorem mem_set_refresh {refreshes : List Refresh} {id : Nat} {r r' : Refresh} (h : r ∈ refreshes.set id r') :
    r = r' ∨ ∃ j, j ≠ id ∧ refreshes[j]? = some r := by
  obtain ⟨j, hj⟩ := List.mem_iff_getElem?.mp h
  by_cases hid : id = j
  · subst hid
    rcases Nat.lt_or_ge id refreshes.length with hlt | hge
    · rw [List.getElem?_set_self hlt] at hj
      exact .inl (Option.some.inj hj).symm
    · rw [List.getElem?_eq_none (by simpa using hge)] at hj
      cases hj
  · rw [List.getElem?_set_ne hid] at hj
    exact .inr ⟨j, fun heq => hid heq.symm, hj⟩

/-- A refresh goes on without an answer of the server. -/
theorem Current.setRefresh (h : q.Current options) {id : Nat} {r : Refresh} (hr : q.refreshes[id]? = some r)
    {await : RefreshAwait} (hflight : (Refresh.mk r.snapshot await).inFlight = r.inFlight)
    (hrenewed : (Refresh.mk r.snapshot await).renewed = r.renewed) :
    ({ q with refreshes := q.refreshes.set id { r with await := await } } : ApiClientState).Current options := by
  have hmem := List.mem_of_getElem? hr
  -- every refresh is like one that there was
  have hwas : ∀ r' ∈ q.refreshes.set id { r with await := await }, ∃ r'' ∈ q.refreshes, r''.snapshot = r'.snapshot ∧
      r''.inFlight = r'.inFlight ∧ r''.renewed = r'.renewed := by
    intro r' hr'
    rcases List.mem_or_eq_of_mem_set hr' with hr' | rfl
    · exact ⟨r', hr', rfl, rfl, rfl⟩
    · exact ⟨r, hmem, rfl, hflight.symm, hrenewed.symm⟩
  have hahead : Ahead q { q with refreshes := q.refreshes.set id { r with await := await } } := by
    refine { Ahead.refl q with bearer := fun r' hr' => ?_, renewed := fun r' hr' token htoken => ?_, replaced := fun r' hr' hsome => ?_ }
    · obtain ⟨r'', hr'', hsnapshot, -, -⟩ := hwas r' hr'
      exact .inl ⟨r'', hr'', by rw [hsnapshot]⟩
    · obtain ⟨r'', hr'', -, -, heq⟩ := hwas r' hr'
      exact .inl ⟨r'', hr'', heq.trans htoken⟩
    · obtain ⟨r'', hr'', hsnapshot, -, heq⟩ := hwas r' hr'
      exact .inl ⟨r'', hr'', heq ▸ hsome, by rw [hsnapshot]⟩
  refine { h with inFlight := fun r' hr' hflight' => ?_, replaced := fun r' hr' hsucceeded => ?_, pending := fun r' hr' hflight' token htoken => ?_, renewed := fun r' hr' hsome => ?_, requests := fun t ht => (h.requests t ht).ahead hahead }
  · obtain ⟨r'', hr'', hsnapshot, heq, -⟩ := hwas r' hr'
    exact hsnapshot ▸ h.inFlight r'' hr'' (heq.trans hflight')
  · obtain ⟨r'', hr'', hsnapshot, heq, heq'⟩ := hwas r' hr'
    exact hsnapshot ▸ h.replaced r'' hr'' (by rw [Refresh.succeeded, heq, heq']; exact hsucceeded)
  · obtain ⟨r'', hr'', -, heq, heq'⟩ := hwas r' hr'
    obtain ⟨hbearer, hnever⟩ := h.pending r'' hr'' (heq.trans hflight') token (heq' ▸ htoken)
    refine ⟨fun s hs => ?_, hnever⟩
    obtain ⟨s', hs', hsnapshot, -, -⟩ := hwas s hs
    exact hsnapshot ▸ hbearer s' hs'
  · obtain ⟨r'', hr'', hsnapshot, -, heq⟩ := hwas r' hr'
    exact hsnapshot ▸ h.renewed r'' hr'' (heq ▸ hsome)

theorem Current.serveRefresh (h : q.Current options) (hsound : q.Sound) {id : Nat} {r : Refresh}
    (hr : q.refreshes[id]? = some r) {expiresAt : Option Nat} {fresh : String} (hfresh : q.isFresh fresh = true)
    (hq' : q.serveRefresh id r expiresAt fresh = some q') : q'.Current options := by
  have hmem := List.mem_of_getElem? hr
  obtain ⟨hne, hnew⟩ := isFresh_iff.mp hfresh
  obtain ⟨hrne, howned, -⟩ := hsound.refreshes r hmem
  unfold ApiClientState.serveRefresh at hq'
  split at hq'
  · next hawait =>
    have hflight : r.inFlight = true := by simp [Refresh.inFlight, hawait]
    split at hq'
    · cases hq'
      exact h.setRefresh hr (by simp [Refresh.inFlight, hawait]) (by simp [Refresh.renewed, hawait])
    · next x hx =>
      cases hq'
      have hxr := hsound.session?_refresh hmem hx
      obtain ⟨hxmem, hxtoken, -⟩ := session?_eq_some hx
      have hbearer : ∀ r' ∈ q.refreshes, r'.snapshot.bearer ≠ fresh := fun r' hr' =>
        hnew _ (hsound.refreshes r' hr').2.1
      have hsnapshot : ∀ r' ∈ q.refreshes.set id { r with await := .answered (some (fresh, expiresAt)) },
          ∃ r'' ∈ q.refreshes, r''.snapshot = r'.snapshot := by
        intro r' hr'
        rcases List.mem_or_eq_of_mem_set hr' with hr' | rfl
        · exact ⟨r', hr', rfl⟩
        · exact ⟨r, hmem, rfl⟩
      have hahead : Ahead q { q.renew x fresh with
          refreshes := q.refreshes.set id { r with await := .answered (some (fresh, expiresAt)) } } := {
        issued := List.subset_cons_self _ _
        sessions := fun y hy => by
          rcases List.mem_cons.mp hy with rfl | hy
          · exact .inr ⟨hne, hnew⟩
          · exact .inl (List.mem_of_mem_filter hy)
        bearer := fun r' hr' => by
          obtain ⟨r'', hr'', heq⟩ := hsnapshot r' hr'
          exact .inl ⟨r'', hr'', by rw [heq]⟩
        renewed := fun r' hr' token htoken => by
          rcases List.mem_or_eq_of_mem_set hr' with hr' | rfl
          · exact .inl ⟨r', hr', htoken⟩
          · cases htoken
            exact .inr hnew
        replaced := fun r' hr' hsome => by
          rcases List.mem_or_eq_of_mem_set hr' with hr' | rfl
          · exact .inl ⟨r', hr', hsome, rfl⟩
          · exact .inr ⟨x, hxmem, hxtoken⟩
        stored := fun _ _ hstored => .inl hstored }
      exact {
        inFlight := fun r' hr' hflight' => by
          rcases List.mem_or_eq_of_mem_set hr' with hr' | rfl
          · exact h.inFlight r' hr' hflight'
          · exact h.inFlight r hmem hflight
        replaced := fun r' hr' hsucceeded => by
          rcases List.mem_or_eq_of_mem_set hr' with hr' | rfl
          · exact h.replaced r' hr' hsucceeded
          · cases hsucceeded
        pending := fun r' hr' hflight' token htoken => by
          rcases List.mem_or_eq_of_mem_set hr' with hr' | rfl
          · obtain ⟨hbearer, hnever⟩ := h.pending r' hr' hflight' token htoken
            refine ⟨fun s hs => ?_, hnever⟩
            obtain ⟨s', hs', heq⟩ := hsnapshot s hs
            exact heq ▸ hbearer s' hs'
          · cases htoken
            refine ⟨fun s hs => ?_, fun accountId hstored => ?_⟩
            · obtain ⟨s', hs', heq⟩ := hsnapshot s hs
              exact heq ▸ hbearer s' hs'
            · obtain ⟨y, hy, -, htoken⟩ := hsound.storedToken hstored hne
              exact hnew y hy htoken
        renewed := fun r' hr' hsome y hy htoken => by
          rcases List.mem_cons.mp hy with rfl | hy
          · obtain ⟨r'', hr'', heq⟩ := hsnapshot r' hr'
            exact hbearer r'' hr'' (heq ▸ htoken.symm)
          · rcases List.mem_or_eq_of_mem_set hr' with hr' | rfl
            · exact h.renewed r' hr' hsome y (List.mem_of_mem_filter hy) htoken
            · have hyx := hsound.distinct y (hsound.sessions y (List.mem_of_mem_filter hy)) x (hsound.sessions x hxmem)
                (htoken.trans hxtoken.symm)
              subst hyx
              simpa using List.of_mem_filter hy
        requests := fun t ht => (h.requests t ht).ahead hahead
        brought := fun b hb huse => (h.brought b hb huse).mono hahead.issued
        replay := h.replay }
  · cases hq'

/-! ### A refresh ends -/

theorem Current.resumed (h : q.Current options) (hahead : Ahead q q') {id : Nat} {x : String} (hne : x ≠ "")
    (hunreplaced : q'.Unreplaced x) {t : ApiRequest} (ht : t ∈ q.requests) : (t.resumed id x).Current options q' := by
  have hcurrent := (h.requests t ht).ahead hahead
  unfold ApiRequest.resumed
  cases hawait : t.await with
  | refresh s j =>
    dsimp only
    split
    · exact { hcurrent with refused := fun _ htoken => (by cases htoken), gaveUp := fun _ htoken => (by cases htoken) }
    · exact hcurrent
  | forced s old j =>
    dsimp only
    split
    · unfold ApiRequest.afterForced
      split
      · exact { hcurrent with refused := fun _ htoken => (by cases htoken), gaveUp := fun _ htoken => (by cases htoken) }
      · next hsame =>
        obtain rfl : x = old := by simpa [hne] using hsame
        have hrefused := hcurrent.refused x (by rw [hawait]; rfl)
        refine { hcurrent with refused := fun token htoken => ?_, gaveUp := fun token htoken => ?_ }
        · cases htoken
          exact hrefused
        · cases htoken
          exact hunreplaced
    · exact hcurrent
  | activeAccount | accountSnapshot | authorizeServer | body | sent | answered | replayed | ended => exact hcurrent

/-- The replays of a refresh that ends have the token that is stored then. -/
theorem replay?_stored (hsound : q.Sound) {id : Nat} {r : Refresh} (hr : q.refreshes[id]? = some r) {x : String}
    (hx : q'.storedToken r.snapshot.accountId = some x) {b : SentBearer}
    (hb : b ∈ q.requests.filterMap (q'.replay? options id x)) : b.use = .replay (some b.token) := by
  obtain ⟨t, ht, hreplay⟩ := List.mem_filterMap.mp hb
  have hawaits := hsound.requests t ht
  unfold ApiClientState.replay? at hreplay
  split at hreplay
  · next s old j hawait =>
    split at hreplay
    · next hcond =>
      rw [hawait] at hawaits
      cases hreplay
      obtain ⟨rfl, -⟩ := hcond
      obtain ⟨-, ⟨-, -, hkey⟩, -⟩ := hawaits
      have heq : r.snapshot.accountKey = s.accountKey := by simpa [keys, hr] using hkey
      simp only [AccountSessionSnapshot.accountKey, Prod.mk.injEq] at heq
      rw [← heq.1, hx]
    · cases hreplay
  · cases hreplay

/-- A refresh ends without a new token: what has waited for it goes on with the one that is stored. -/
theorem Current.settle_failed (h : q.Current options) (hsound : q.Sound) {id : Nat} {r : Refresh}
    (hr : q.refreshes[id]? = some r) (hflight : r.inFlight = true) :
    (q.settle options id r none).Current options := by
  have hmem := List.mem_of_getElem? hr
  obtain ⟨hne, howned, -⟩ := hsound.refreshes r hmem
  have hstored := h.inFlight r hmem hflight
  -- the refresh itself has no new token, and the others are as they were
  have hwas : ∀ r' ∈ (q.settle options id r none).refreshes, (r'.inFlight = true ∨ r'.renewed.isSome = true) →
      ∃ j, j ≠ id ∧ q.refreshes[j]? = some r' := by
    intro r' hr' hkept
    rcases mem_set_refresh hr' with rfl | hj
    · rcases hkept with hkept | hkept <;> cases hkept
    · exact hj
  have hbearer : ∀ r' ∈ (q.settle options id r none).refreshes, ∃ r'' ∈ q.refreshes, r''.snapshot = r'.snapshot := by
    intro r' hr'
    rcases List.mem_or_eq_of_mem_set hr' with hr' | rfl
    · exact ⟨r', hr', rfl⟩
    · exact ⟨r, hmem, rfl⟩
  have hahead : Ahead q (q.settle options id r none) := by
    refine { Ahead.refl q with bearer := fun r' hr' => ?_, renewed := fun r' hr' token htoken => ?_, replaced := fun r' hr' hsome => ?_ }
    · obtain ⟨r'', hr'', heq⟩ := hbearer r' hr'
      exact .inl ⟨r'', hr'', by rw [heq]⟩
    · obtain ⟨j, -, hj⟩ := hwas r' hr' (.inr (Option.isSome_iff_exists.mpr ⟨token, htoken⟩))
      exact .inl ⟨r', List.mem_of_getElem? hj, htoken⟩
    · obtain ⟨j, -, hj⟩ := hwas r' hr' (.inr hsome)
      exact .inl ⟨r', List.mem_of_getElem? hj, hsome, rfl⟩
  have hunreplaced : (q.settle options id r none).Unreplaced r.snapshot.bearer := by
    intro r' hr' hsome heq
    obtain ⟨j, hj, hr'⟩ := hwas r' hr' (.inr hsome)
    have hmem' := List.mem_of_getElem? hr'
    cases hflight' : r'.inFlight with
    | true => exact hj (hsound.same_refresh hr' hr hflight' hflight (hsound.refreshes r' hmem').2.1 (heq ▸ howned))
    | false => exact h.replaced r' hmem' (by simp [Refresh.succeeded, hflight', hsome]) _ (heq ▸ hstored)
  exact {
    inFlight := fun r' hr' hflight' => by
      obtain ⟨j, -, hj⟩ := hwas r' hr' (.inl hflight')
      exact h.inFlight r' (List.mem_of_getElem? hj) hflight'
    replaced := fun r' hr' hsucceeded => by
      have hsome : r'.renewed.isSome = true := (Bool.and_eq_true_iff.mp hsucceeded).2
      obtain ⟨j, -, hj⟩ := hwas r' hr' (.inr hsome)
      exact h.replaced r' (List.mem_of_getElem? hj) hsucceeded
    pending := fun r' hr' hflight' token htoken => by
      obtain ⟨j, -, hj⟩ := hwas r' hr' (.inl hflight')
      obtain ⟨hnot, hnever⟩ := h.pending r' (List.mem_of_getElem? hj) hflight' token htoken
      refine ⟨fun s hs => ?_, hnever⟩
      obtain ⟨s', hs', heq⟩ := hbearer s hs
      exact heq ▸ hnot s' hs'
    renewed := fun r' hr' hsome => by
      obtain ⟨j, -, hj⟩ := hwas r' hr' (.inr hsome)
      exact h.renewed r' (List.mem_of_getElem? hj) hsome
    requests := fun t ht => by
      obtain ⟨t', ht', rfl⟩ := List.mem_map.mp ht
      exact h.resumed hahead hne hunreplaced ht'
    brought := fun b hb huse => by
      rcases List.mem_append.mp hb with hb | hb
      · rw [replay?_stored hsound hr hstored hb] at huse
        cases huse
      · exact h.brought b hb huse
    replay := fun b hb stored huse => by
      rcases List.mem_append.mp hb with hb | hb
      · rw [replay?_stored hsound hr hstored hb] at huse
        cases huse
        rfl
      · exact h.replay b hb stored huse }

/-- A refresh ends with a new token, which is stored: what has waited for it goes on with that. -/
theorem Current.settle_renewed (h : q.Current options) (hsound : q.Sound) {id : Nat} {r : Refresh}
    (hr : q.refreshes[id]? = some r) {token : String} {expiresAt : Option Nat}
    (hawait : r.await = .storing token expiresAt) :
    ((q.store r.snapshot.accountId token expiresAt).settle options id r (some token)).Current options := by
  have hmem := List.mem_of_getElem? hr
  have hflight : r.inFlight = true := by simp [Refresh.inFlight, hawait]
  have hrenewed : r.renewed = some token := by simp [Refresh.renewed, hawait]
  obtain ⟨hne, howned, hrenewed'⟩ := hsound.refreshes r hmem
  have hissued := hrenewed' token hrenewed
  have hstored := h.inFlight r hmem hflight
  obtain ⟨hbearers, hnever⟩ := h.pending r hmem hflight token hrenewed
  have htoken : token ≠ "" := hsound.nonempty _ hissued
  generalize hq' : (q.store r.snapshot.accountId token expiresAt).settle options id r (some token) = q'
  have hself : q'.storedToken r.snapshot.accountId = some token := by
    obtain ⟨account, haccount, -⟩ := Option.bind_eq_some_iff.mp hstored
    simp [← hq', storedToken, ApiClientState.settle, ApiClientState.store, haccount]
  have hother : ∀ accountId, accountId ≠ r.snapshot.accountId → q'.storedToken accountId = q.storedToken accountId := by
    intro accountId hid
    simp [← hq', storedToken, ApiClientState.settle, ApiClientState.store, Function.update_of_ne hid]
  have hrefreshes : q'.refreshes = q.refreshes.set id { r with await := .ended (some token) } := by
    rw [← hq']
    rfl
  have hrequests : q'.requests = q.requests.map (ApiRequest.resumed id token) := by
    rw [← hq']
    rfl
  have hwas : ∀ r' ∈ q'.refreshes, ∃ r'' ∈ q.refreshes, r''.snapshot = r'.snapshot ∧ r''.renewed = r'.renewed := by
    intro r' hr'
    rw [hrefreshes] at hr'
    rcases List.mem_or_eq_of_mem_set hr' with hr' | rfl
    · exact ⟨r', hr', rfl, rfl⟩
    · exact ⟨r, hmem, rfl, hrenewed⟩
  have hstill : ∀ r' ∈ q'.refreshes, r'.inFlight = true → ∃ j, j ≠ id ∧ q.refreshes[j]? = some r' := by
    intro r' hr' hflight'
    rw [hrefreshes] at hr'
    rcases mem_set_refresh hr' with rfl | hj
    · cases hflight'
    · exact hj
  -- no other account has the token that was replaced
  have hmine : ∀ accountId, q.storedToken accountId = some r.snapshot.bearer → accountId = r.snapshot.accountId := by
    intro accountId haccount
    obtain ⟨x, hx, rfl, htoken⟩ := hsound.storedToken haccount hne
    rw [hsound.distinct x hx _ howned htoken]
    rfl
  have hstoredNow : ∀ accountId stored, q'.storedToken accountId = some stored →
      accountId = r.snapshot.accountId ∧ stored = token ∨
        accountId ≠ r.snapshot.accountId ∧ q.storedToken accountId = some stored := by
    intro accountId stored haccount
    by_cases hid : accountId = r.snapshot.accountId
    · subst hid
      exact .inl ⟨rfl, Option.some.inj (haccount.symm.trans hself)⟩
    · exact .inr ⟨hid, (hother accountId hid).symm.trans haccount⟩
  have hahead : Ahead q q' := {
    issued := by
      rw [← hq']
      exact List.Subset.refl _
    sessions := fun x hx => by
      rw [← hq'] at hx
      exact .inl hx
    bearer := fun r' hr' => by
      obtain ⟨r'', hr'', heq, -⟩ := hwas r' hr'
      exact .inl ⟨r'', hr'', by rw [heq]⟩
    renewed := fun r' hr' token' htoken' => by
      obtain ⟨r'', hr'', -, heq⟩ := hwas r' hr'
      exact .inl ⟨r'', hr'', heq.trans htoken'⟩
    replaced := fun r' hr' hsome => by
      obtain ⟨r'', hr'', heq, heq'⟩ := hwas r' hr'
      exact .inl ⟨r'', hr'', heq' ▸ hsome, by rw [heq]⟩
    stored := fun accountId stored haccount => by
      rcases hstoredNow accountId stored haccount with ⟨-, rfl⟩ | ⟨-, haccount⟩
      · exact .inr ⟨r, hmem, hrenewed⟩
      · exact .inl haccount }
  have hnot : ∀ r' ∈ q'.refreshes, r'.snapshot.bearer ≠ token := by
    intro r' hr'
    obtain ⟨r'', hr'', heq, -⟩ := hwas r' hr'
    exact heq ▸ hbearers r'' hr''
  have hsent : ∀ b ∈ q'.sent, b.use = .replay (some b.token) ∨ b ∈ q.sent := by
    intro b hb
    rw [← hq'] at hb
    rcases List.mem_append.mp hb with hb | hb
    · rw [← hq'] at hself
      exact .inl (replay?_stored hsound hr hself hb)
    · exact .inr hb
  exact {
    inFlight := fun r' hr' hflight' => by
      obtain ⟨j, hj, hr'⟩ := hstill r' hr' hflight'
      have hmem' := List.mem_of_getElem? hr'
      have hstored' := h.inFlight r' hmem' hflight'
      by_cases hid : r'.snapshot.accountId = r.snapshot.accountId
      · have hsame : r'.snapshot.bearer = r.snapshot.bearer := by
          rw [hid, hstored] at hstored'
          exact (Option.some.inj hstored').symm
        exact absurd (hsound.same_refresh hr' hr hflight' hflight (hsound.refreshes r' hmem').2.1 (hsame ▸ howned)) hj
      · rw [hother _ hid]
        exact hstored'
    replaced := fun r' hr' hsucceeded accountId haccount => by
      rcases hstoredNow accountId _ haccount with ⟨-, heq⟩ | ⟨hid, haccount⟩
      · exact hnot r' hr' heq
      · rw [hrefreshes] at hr'
        rcases List.mem_or_eq_of_mem_set hr' with hr' | rfl
        · exact h.replaced r' hr' hsucceeded accountId haccount
        · exact hid (hmine accountId haccount)
    pending := fun r' hr' hflight' token' htoken' => by
      obtain ⟨j, hj, hjr⟩ := hstill r' hr' hflight'
      have hmem' := List.mem_of_getElem? hjr
      obtain ⟨hbearers', hnever'⟩ := h.pending r' hmem' hflight' token' htoken'
      refine ⟨fun s hs => ?_, fun accountId haccount => ?_⟩
      · obtain ⟨s', hs', heq, -⟩ := hwas s hs
        exact heq ▸ hbearers' s' hs'
      · rcases hstoredNow accountId _ haccount with ⟨-, rfl⟩ | ⟨-, haccount⟩
        · exact hj (hsound.same_refresh hjr hr hflight' hflight ((hsound.refreshes r' hmem').2.2 _ htoken') hissued)
        · exact hnever' accountId haccount
    renewed := fun r' hr' hsome x hx => by
      obtain ⟨r'', hr'', heq, heq'⟩ := hwas r' hr'
      rw [← hq'] at hx
      exact heq ▸ h.renewed r'' hr'' (heq' ▸ hsome) x hx
    requests := fun t ht => by
      rw [hrequests] at ht
      obtain ⟨t', ht', rfl⟩ := List.mem_map.mp ht
      exact h.resumed hahead htoken (fun r' hr' _ => hnot r' hr') ht'
    brought := fun b hb huse => by
      rcases hsent b hb with hreplay | hb
      · rw [hreplay] at huse
        cases huse
      · exact (h.brought b hb huse).mono hahead.issued
    replay := fun b hb stored huse => by
      rcases hsent b hb with hreplay | hb
      · rw [hreplay] at huse
        cases huse
        rfl
      · exact h.replay b hb stored huse }

theorem Current.resumeRefresh (h : q.Current options) (hsound : q.Sound) {id : Nat} {r : Refresh}
    (hr : q.refreshes[id]? = some r) (hq' : q.resumeRefresh options id r = some q') : q'.Current options := by
  unfold ApiClientState.resumeRefresh at hq'
  split at hq'
  · next hawait =>
    cases hq'
    exact h.settle_failed hsound hr (by simp [Refresh.inFlight, hawait])
  · next token expiresAt hawait =>
    cases hq'
    have hset : ({ q with
        refreshes := q.refreshes.set id { r with await := .storing token expiresAt } } : ApiClientState).Current options :=
      h.setRefresh hr (by simp [Refresh.inFlight, hawait]) (by simp [Refresh.renewed, hawait])
    exact { hset with requests := fun t ht => (hset.requests t ht).ahead { Ahead.refl _ with } }
  · next token expiresAt hawait =>
    cases hq'
    exact h.settle_renewed hsound hr hawait
  · cases hq'

theorem Current.refreshFails (h : q.Current options) (hsound : q.Sound) {id : Nat} {r : Refresh}
    (hr : q.refreshes[id]? = some r) {written : Bool} (hstoring : r.isStoring = false)
    (hq' : q.refreshFails options id r written = some q') : q'.Current options := by
  unfold ApiClientState.refreshFails at hq'
  split at hq'
  · cases hq'
  · next token expiresAt hawait =>
    rw [Refresh.isStoring, hawait] at hstoring
    cases hstoring
  · next hended _ =>
    cases hq'
    refine h.settle_failed hsound hr ?_
    unfold Refresh.inFlight
    split
    · next token hawait => exact absurd hawait (hended token)
    · rfl

theorem brought_of_unused (hsound : q.Sound) (hissued : ∃ x ∈ q.issued, x.token = token ∧ x.server = options.defaultServerUrl)
    (hunused : q.uses token = false) : q.Brought options token := by
  simp only [uses, Bool.or_eq_false_iff, List.any_eq_false, decide_eq_true_eq, not_or, Bool.and_eq_true, not_and,
    Bool.or_eq_true] at hunused
  obtain ⟨hrefreshes, hstored⟩ := hunused
  refine ⟨hissued, fun r hr => (hrefreshes r hr).1, fun r hr => (hrefreshes r hr).2, fun accountId haccount => ?_⟩
  obtain ⟨x, hx, htoken, -⟩ := hissued
  obtain ⟨y, hy, rfl, htoken'⟩ := hsound.storedToken haccount (htoken ▸ hsound.nonempty x hx)
  exact hstored y hy htoken' haccount

/-- **A step that meets the condition** keeps what the requests rely on. -/
theorem Current.step (h : q.Current options) (hsound : q.Sound) {label : ApiLabel}
    (hcondition : UpToDate options q (q.clock, label)) (hq' : q.step options label = some q') : q'.Current options := by
  cases label with
  | request url bearer =>
    simp only [ApiClientState.step] at hq'
    split at hq'
    · next hunder =>
      cases hq'
      refine { h with requests := fun t ht => ?_ }
      rcases List.mem_append.mp ht with ht | ht
      · exact (h.requests t ht).ahead { Ahead.refl q with }
      · obtain rfl := List.mem_singleton.mp ht
        have hnew : (⟨url, bearer, if bearer.isSome then .authorizeServer none else .activeAccount⟩ : ApiRequest).Current
            options q := {
          url := hunder
          isRefresh := hcondition.1
          bearer := fun token htoken => by
            obtain ⟨hissued, hunused⟩ := hcondition.2 token htoken
            exact brought_of_unused hsound hissued hunused
          refused := fun token htoken => by cases bearer <;> cases htoken
          gaveUp := fun token htoken => by cases bearer <;> cases htoken }
        exact hnew.ahead { Ahead.refl q with }
    · cases hq'
  | setActiveAccount accountId =>
    cases hq'
    exact { h with requests := fun t ht => (h.requests t ht).ahead { Ahead.refl q with } }
  | resume k ok =>
    simp only [ApiClientState.step, Option.bind_eq_bind, Option.bind_eq_some_iff, Option.pure_def,
      Option.some.injEq, Prod.exists] at hq'
    obtain ⟨t, ht, q'', await, hresume, rfl⟩ := hq'
    exact h.resume hsound (List.mem_of_getElem? ht) (hcondition t ht) hresume
  | serve k expires fresh =>
    simp only [ApiClientState.step] at hq'
    split at hq'
    · simp only [Option.bind_eq_bind, Option.bind_eq_some_iff, Option.pure_def,
        Option.some.injEq, Prod.exists] at hq'
      obtain ⟨t, ht, q'', await, hserve, rfl⟩ := hq'
      exact h.serve hsound (List.mem_of_getElem? ht) hserve
    · cases hq'
  | lose k =>
    simp only [ApiClientState.step, Option.bind_eq_bind, Option.bind_eq_some_iff] at hq'
    obtain ⟨t, ht, hq'⟩ := hq'
    have hlost : (q.goOn k t (.ended none)).Current options :=
      h.goOn_unanswered k (h.requests t (List.mem_of_getElem? ht)) rfl
    split at hq'
    · cases hq'
      exact hlost
    · cases hq'
      exact hlost
    · cases hq'
      exact hlost
    · cases hq'
  | serveRefresh i expiresAt fresh =>
    simp only [ApiClientState.step] at hq'
    split at hq'
    · next hfresh =>
      simp only [Option.bind_eq_bind, Option.bind_eq_some_iff] at hq'
      obtain ⟨r, hr, hq'⟩ := hq'
      exact h.serveRefresh hsound hr hfresh hq'
    · cases hq'
  | resumeRefresh i =>
    simp only [ApiClientState.step, Option.bind_eq_bind, Option.bind_eq_some_iff] at hq'
    obtain ⟨r, hr, hq'⟩ := hq'
    exact h.resumeRefresh hsound hr hq'
  | refreshFails i written =>
    simp only [ApiClientState.step, Option.bind_eq_bind, Option.bind_eq_some_iff] at hq'
    obtain ⟨r, hr, hq'⟩ := hq'
    exact h.refreshFails hsound hr (hcondition r hr) hq'
  | revoke token =>
    cases hq'
    have hfewer : ∀ x ∈ q.sessions.filter (·.token ≠ token), x ∈ q.sessions := fun x hx => List.mem_of_mem_filter hx
    refine { h with renewed := fun r hr hsome x hx => h.renewed r hr hsome x (hfewer x hx), requests := fun t ht => ?_ }
    exact (h.requests t ht).ahead { Ahead.refl q with sessions := fun x hx => .inl (hfewer x hx) }

theorem current_of_initial (h : q.Initial) : q.Current options where
  inFlight r hr := by simp [h.refreshes] at hr
  replaced r hr := by simp [h.refreshes] at hr
  pending r hr := by simp [h.refreshes] at hr
  renewed r hr := by simp [h.refreshes] at hr
  requests t ht := by simp [h.requests] at ht
  brought b hb := by simp [h.sent] at hb
  replay b hb := by simp [h.sent] at hb

end ApiClientState

theorem sessionRefreshingApiClient_current {options : SessionRefreshingApiClientOptions} {q : ApiClientState}
    (h : (sessionRefreshingApiClient options).ReachableUnder (ApiClientState.UpToDate options) q) :
    q.Current options := by
  refine h.invariant (ApiClientState.Current options) (fun _ hq => ApiClientState.current_of_initial hq) ?_
  intro q a q' hreach hcurrent hcondition hstep
  have hsound := sessionRefreshingApiClient_sound hreach.reachable
  have hclock : ({ q with clock := a.1 } : ApiClientState).Current options :=
    { hcurrent with requests := fun t ht => (hcurrent.requests t ht).ahead { ApiClientState.Ahead.refl q with } }
  refine hclock.step { hsound with } ?_ (sessionRefreshingApiClient_step hstep)
  obtain ⟨now, label⟩ := a
  cases label <;> exact hcondition

/-! ## The client -/

namespace ApiClientState

/-- Of an account and server, at most one refresh is under way. -/
def OneRefresh (q : ApiClientState) : Prop :=
  ∀ (i j : Nat) (r r' : Refresh), q.refreshes[i]? = some r → q.refreshes[j]? = some r' → r.inFlight = true → r'.inFlight = true →
    r.snapshot.accountKey = r'.snapshot.accountKey → i = j

/-- No caller has been answered 401, without a replay, for a token that a refresh has replaced; and
what was replayed was replayed with the token that was stored. -/
def Replays (q : ApiClientState) : Prop :=
  (∀ t ∈ q.requests, ∀ token, t.await = .ended (some ⟨true, token, false⟩) →
    ∀ r ∈ q.refreshes, r.succeeded = true → r.snapshot.bearer ≠ token) ∧
  ∀ b ∈ q.sent, ∀ stored, b.use = .replay stored → stored = some b.token

/-- A bearer token was only sent to the server of its session. -/
def TokensHome (q : ApiClientState) : Prop :=
  ∀ b ∈ q.sent, ∀ x ∈ q.issued, x.token = b.token → b.url.isUnder x.server = true

theorem Sound.oneRefresh {q : ApiClientState} (h : q.Sound) : q.OneRefresh :=
  fun _ _ _ _ hr hr' hflight hflight' hkey => h.same_inFlight hr hr' hflight hflight' hkey

/-- Whose session the token is of that was sent home. -/
theorem Sound.isUnder_of_atHome {q : ApiClientState} (h : q.Sound) {b : SentBearer} (hhome : b.AtHome q.issued)
    {x : ClientSession} (hx : x ∈ q.issued) (htoken : x.token = b.token) : b.url.isUnder x.server = true := by
  obtain ⟨y, hy, htoken', hunder⟩ := hhome
  rw [h.distinct x hx y hy (htoken.trans htoken'.symm)]
  exact hunder

end ApiClientState

/-- A server, with an account that is signed in there. -/
def exampleServer : Url := ⟨"https:", "a.example.test", ['/'], "", List.prefix_rfl⟩

def exampleUrl : Url := ⟨"https:", "a.example.test", "/api/v1/items".toList, "", ⟨_, rfl⟩⟩

def exampleClient : ApiClientState where
  clock := 0
  activeAccount := some "account-a"
  accounts accountId := if accountId = "account-a" then some ⟨exampleServer, some "t1", some 100, some 1100⟩ else none
  timingByAccount _ := none
  refreshByAccount _ := none
  refreshes := []
  requests := []
  sessions := [⟨exampleServer, "account-a", "t1"⟩]
  issued := [⟨exampleServer, "account-a", "t1"⟩]
  sent := []

theorem exampleClient_initial : exampleClient.Initial where
  requests := rfl
  refreshes := rfl
  refreshByAccount _ := rfl
  sent := rfl
  nonempty x hx := by
    obtain rfl := List.mem_singleton.mp hx
    decide
  distinct x hx y hy _ := by
    obtain rfl := List.mem_singleton.mp hx
    exact (List.mem_singleton.mp hy).symm
  sessions _ hx := hx
  servers x hx account haccount := by
    obtain rfl := List.mem_singleton.mp hx
    cases haccount
    rfl
  stored accountId account token haccount htoken _ := by
    simp only [exampleClient] at haccount
    split at haccount
    · next heq =>
      cases haccount
      cases htoken
      rw [heq]
      exact List.mem_singleton.mpr rfl
    · cases haccount

/-- One request is on its way with the old token when another refreshes the session. -/
def refreshUnderway : List (Nat × ApiLabel) :=
  [(200, .request exampleUrl none), (200, .resume 0 true), (200, .resume 0 true), (200, .resume 0 true),
    (200, .resume 0 true), (900, .request exampleUrl none), (900, .resume 1 true), (900, .resume 1 true),
    (900, .resume 1 true), (900, .serveRefresh 0 (some 2000) "t2"), (900, .serve 0 none "t3")]

end Bittery
