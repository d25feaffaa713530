/-
What the session-refreshing client does in every run: of an account one refresh at a time is
under way, and the tokens it attaches by itself go to the server of their account.
-/
import Bittery.Client.SessionRefresh

namespace Bittery

open Lib

/-! ## Whose a token is -/

/-- The session that `token` is of, if it is the account's. -/
def AccountSessionSnapshot.session (s : AccountSessionSnapshot) (token : String) : ClientSession :=
  ⟨s.serverUrl, s.accountId, token⟩

/-- A snapshot whose token is of a session that the server has issued for the account. -/
def AccountSessionSnapshot.Owned (s : AccountSessionSnapshot) (issued : List ClientSession) : Prop :=
  s.bearer ≠ "" → s.session s.bearer ∈ issued

/-- A token that was got with the snapshot is of the same account. -/
def AccountSessionSnapshot.Holds (s : AccountSessionSnapshot) (issued : List ClientSession) (token : String) : Prop :=
  token ≠ "" → s.bearer ≠ "" ∧ s.session token ∈ issued

/-- A request that waits for a refresh waits for one of its account. -/
def AccountSessionSnapshot.Awaits (s : AccountSessionSnapshot) (issued : List ClientSession) (keys : List AccountKey)
    (id : Nat) : Prop :=
  s.bearer ≠ "" ∧ s.session s.bearer ∈ issued ∧ keys[id]? = some s.accountKey

def RequestAwait.Sound (issued : List ClientSession) (keys : List AccountKey) (bearer : Option String) :
    RequestAwait → Prop
  | .activeAccount | .accountSnapshot _ => bearer = none
  | .authorizeServer none | .ended _ => True
  | .authorizeServer (some s) => bearer = none ∧ s.Owned issued
  | .refresh s id => bearer = none ∧ s.Awaits issued keys id
  | .body none token => bearer = none ∧ token = ""
  | .body (some s) token | .sent (some s) token | .answered (some s) token _ _ =>
    bearer = none ∧ s.Owned issued ∧ s.Holds issued token
  | .sent none token | .answered none token _ _ => token = bearer.getD ""
  | .forced s token id => bearer = none ∧ s.Awaits issued keys id ∧ s.Holds issued token
  | .replayed s token => bearer = none ∧ s.Holds issued token

/-- A token that was sent to the server of its session. -/
def SentBearer.AtHome (issued : List ClientSession) (b : SentBearer) : Prop :=
  ∃ x ∈ issued, x.token = b.token ∧ b.url.isUnder x.server = true

namespace Refresh

variable (r : Refresh)

def inFlight : Bool :=
  match r.await with
  | .ended _ => false
  | _ => true

/-- The token that the server has issued, unless the answer is lost. -/
def renewed : Option String :=
  match r.await with
  | .answered renewed => renewed.map (·.1)
  | .storing token _ => some token
  | .ended token => token
  | .sent => none

def succeeded : Bool := !r.inFlight && r.renewed.isSome

end Refresh

namespace ApiClientState

def keys (q : ApiClientState) : List AccountKey := q.refreshes.map (·.snapshot.accountKey)

/-- What holds in every run. -/
structure Sound (q : ApiClientState) : Prop where
  nonempty : ∀ x ∈ q.issued, x.token ≠ ""
  distinct : ∀ x ∈ q.issued, ∀ y ∈ q.issued, x.token = y.token → x = y
  sessions : ∀ x ∈ q.sessions, x ∈ q.issued
  servers : ∀ x ∈ q.issued, ∀ account, q.accounts x.accountId = some account → account.serverUrl = x.server
  stored : ∀ accountId account token, q.accounts accountId = some account → account.token = some token →
    token ≠ "" → ⟨account.serverUrl, accountId, token⟩ ∈ q.issued
  registered : ∀ key id, q.refreshByAccount key = some id ↔
    ∃ r, q.refreshes[id]? = some r ∧ r.inFlight = true ∧ r.snapshot.accountKey = key
  refreshes : ∀ r ∈ q.refreshes, r.snapshot.bearer ≠ "" ∧ r.snapshot.session r.snapshot.bearer ∈ q.issued ∧
    ∀ token ∈ r.renewed, r.snapshot.session token ∈ q.issued
  requests : ∀ t ∈ q.requests, t.await.Sound q.issued q.keys t.bearer
  sent : ∀ b ∈ q.sent, b.use ≠ .brought → b.AtHome q.issued

end ApiClientState

/-! ### Tokens only get more -/

section Monotone

variable {issued issued' : List ClientSession} {keys keys' : List AccountKey}

theorem AccountSessionSnapshot.Owned.mono (hissued : issued ⊆ issued') {s : AccountSessionSnapshot}
    (h : s.Owned issued) : s.Owned issued' := fun hne => hissued (h hne)

theorem AccountSessionSnapshot.Holds.mono (hissued : issued ⊆ issued') {s : AccountSessionSnapshot} {token : String}
    (h : s.Holds issued token) : s.Holds issued' token := fun hne => ⟨(h hne).1, hissued (h hne).2⟩

theorem AccountSessionSnapshot.Awaits.mono (hissued : issued ⊆ issued') (hkeys : keys <+: keys')
    {s : AccountSessionSnapshot} {id : Nat} (h : s.Awaits issued keys id) : s.Awaits issued' keys' id := by
  obtain ⟨hne, hmem, hkey⟩ := h
  refine ⟨hne, hissued hmem, ?_⟩
  obtain ⟨more, rfl⟩ := hkeys
  rw [List.getElem?_append_left (List.getElem?_eq_some_iff.mp hkey).1]
  exact hkey

theorem RequestAwait.Sound.mono (hissued : issued ⊆ issued') (hkeys : keys <+: keys') {bearer : Option String}
    {await : RequestAwait} (h : await.Sound issued keys bearer) : await.Sound issued' keys' bearer := by
  cases await with
  | activeAccount | accountSnapshot | ended => exact h
  | authorizeServer snapshot =>
    cases snapshot with
    | none => exact h
    | some s => exact ⟨h.1, h.2.mono hissued⟩
  | refresh s id => exact ⟨h.1, h.2.mono hissued hkeys⟩
  | body snapshot token =>
    cases snapshot with
    | none => exact h
    | some s => exact ⟨h.1, h.2.1.mono hissued, h.2.2.mono hissued⟩
  | sent snapshot token =>
    cases snapshot with
    | none => exact h
    | some s => exact ⟨h.1, h.2.1.mono hissued, h.2.2.mono hissued⟩
  | answered snapshot token unauthorized expires =>
    cases snapshot with
    | none => exact h
    | some s => exact ⟨h.1, h.2.1.mono hissued, h.2.2.mono hissued⟩
  | forced s token id => exact ⟨h.1, h.2.1.mono hissued hkeys, h.2.2.mono hissued⟩
  | replayed s token => exact ⟨h.1, h.2.mono hissued⟩

theorem SentBearer.AtHome.mono (hissued : issued ⊆ issued') {b : SentBearer} (h : b.AtHome issued) :
    b.AtHome issued' := by
  obtain ⟨x, hx, htoken, hunder⟩ := h
  exact ⟨x, hissued hx, htoken, hunder⟩

end Monotone

namespace ApiClientState

variable {q q' : ApiClientState} {options : SessionRefreshingApiClientOptions}

theorem keys_set {id : Nat} {r : Refresh} (hr : q.refreshes[id]? = some r) (await : RefreshAwait) :
    (q.refreshes.set id { r with await := await }).map (·.snapshot.accountKey) = q.keys := by
  obtain ⟨hlt, hget⟩ := List.getElem?_eq_some_iff.mp hr
  apply List.ext_getElem (by simp [keys])
  intro k hk hk'
  simp only [List.getElem_map, keys, List.getElem_set]
  split
  · next heq =>
    subst heq
    rw [hget]
  · rfl

/-! ## Single steps -/

/-- Two refreshes of one account that are under way are the same. -/
theorem Sound.same_inFlight (h : q.Sound) {i j : Nat} {r r' : Refresh} (hr : q.refreshes[i]? = some r)
    (hr' : q.refreshes[j]? = some r') (hflight : r.inFlight = true) (hflight' : r'.inFlight = true)
    (hkey : r.snapshot.accountKey = r'.snapshot.accountKey) : i = j := by
  have h1 := (h.registered _ i).mpr ⟨r, hr, hflight, rfl⟩
  have h2 := (h.registered _ j).mpr ⟨r', hr', hflight', rfl⟩
  rw [hkey, h2] at h1
  exact (Option.some.inj h1).symm

theorem Sound.goOn (h : q.Sound) (k : Nat) {t : ApiRequest} {await : RequestAwait}
    (hawait : await.Sound q.issued q.keys t.bearer) : (q.goOn k t await).Sound := by
  refine { h with requests := fun t' ht' => ?_ }
  rcases List.mem_or_eq_of_mem_set ht' with ht' | rfl
  · exact h.requests t' ht'
  · exact hawait

theorem Sound.send (h : q.Sound) {url : Url} {token : String} {use : BearerUse}
    (hhome : token ≠ "" → use ≠ .brought → (⟨url, token, use⟩ : SentBearer).AtHome q.issued) :
    (q.send url token use).Sound := by
  refine { h with sent := fun b hb huse => ?_ }
  simp only [ApiClientState.send] at hb
  split at hb
  · exact h.sent b hb huse
  · next hne =>
    rcases List.mem_cons.mp hb with rfl | hb
    · exact hhome hne huse
    · exact h.sent b hb huse

/-- What `refreshSnapshot` does. -/
theorem refreshSnapshot_cases (q : ApiClientState) (options : SessionRefreshingApiClientOptions)
    (s : AccountSessionSnapshot) (force : Bool) :
    (s.bearer = "" ∧ q.refreshSnapshot options s force = (q, .done "")) ∨
    (s.bearer ≠ "" ∧ force = false ∧ q.refreshSnapshot options s force = (q, .done s.bearer)) ∨
    (s.bearer ≠ "" ∧ ∃ id, q.refreshByAccount s.accountKey = some id ∧
      q.refreshSnapshot options s force = (q, .wait id)) ∨
    (s.bearer ≠ "" ∧ q.refreshByAccount s.accountKey = none ∧
      q.refreshSnapshot options s force = (q.startRefresh s, .wait q.refreshes.length)) := by
  unfold refreshSnapshot
  split
  · next h => exact .inl ⟨h, rfl⟩
  · next h =>
    split
    · next hdue => exact .inr (.inl ⟨h, by simpa using hdue.1, rfl⟩)
    · cases hkey : q.refreshByAccount s.accountKey with
      | some id => exact .inr (.inr (.inl ⟨h, id, rfl, rfl⟩))
      | none => exact .inr (.inr (.inr ⟨h, rfl, rfl⟩))

theorem keys_startRefresh (q : ApiClientState) (s : AccountSessionSnapshot) :
    (q.startRefresh s).keys = q.keys ++ [s.accountKey] := by
  simp [keys, startRefresh]

theorem Sound.startRefresh (h : q.Sound) {s : AccountSessionSnapshot} (hbearer : s.bearer ≠ "")
    (howned : s.session s.bearer ∈ q.issued) (hnone : q.refreshByAccount s.accountKey = none) :
    (q.startRefresh s).Sound where
  nonempty := h.nonempty
  distinct := h.distinct
  sessions := h.sessions
  servers := h.servers
  stored := h.stored
  registered key id := by
    simp only [ApiClientState.startRefresh]
    by_cases hkey : key = s.accountKey
    · subst hkey
      rw [Function.update_self]
      constructor
      · rintro ⟨⟩
        exact ⟨⟨s, .sent⟩, by simp, rfl, rfl⟩
      · rintro ⟨r, hr, hflight, hkey⟩
        rcases Nat.lt_or_ge id q.refreshes.length with hlt | hge
        · rw [List.getElem?_append_left hlt] at hr
          have hsome := (h.registered _ id).mpr ⟨r, hr, hflight, hkey⟩
          rw [hnone] at hsome
          cases hsome
        · have := (List.getElem?_eq_some_iff.mp hr).1
          simp only [List.length_append, List.length_cons, List.length_nil] at this
          congr 1
          omega
    · rw [Function.update_of_ne hkey, h.registered]
      constructor
      · rintro ⟨r, hr, hflight, hkey'⟩
        exact ⟨r, by rw [List.getElem?_append_left (List.getElem?_eq_some_iff.mp hr).1, hr], hflight, hkey'⟩
      · rintro ⟨r, hr, hflight, hkey'⟩
        rcases Nat.lt_or_ge id q.refreshes.length with hlt | hge
        · exact ⟨r, by rwa [List.getElem?_append_left hlt] at hr, hflight, hkey'⟩
        · rw [List.getElem?_append_right hge] at hr
          obtain rfl := List.mem_singleton.mp (List.mem_of_getElem? hr)
          exact absurd hkey'.symm hkey
  refreshes r hr := by
    rcases List.mem_append.mp hr with hr | hr
    · exact h.refreshes r hr
    · obtain rfl := List.mem_singleton.mp hr
      exact ⟨hbearer, howned, fun token htoken => by cases htoken⟩
  requests t ht := by
    rw [keys_startRefresh]
    exact (h.requests t ht).mono (List.Subset.refl _) (List.prefix_append _ _)
  sent b hb huse := by
    rcases List.mem_cons.mp hb with rfl | hb
    · exact ⟨_, howned, rfl, Url.isUnder_refreshUrl s.serverUrl⟩
    · exact h.sent b hb huse

/-- What follows from `refreshSnapshot`, for a request that goes on with it. -/
theorem Sound.refreshSnapshot (h : q.Sound) {s : AccountSessionSnapshot} (howned : s.Owned q.issued) {force : Bool}
    {r : Refreshing} (hq' : q.refreshSnapshot options s force = (q', r)) :
    q'.Sound ∧ q'.issued = q.issued ∧ match r with
      | .done token => s.Holds q'.issued token
      | .wait id => s.Awaits q'.issued q'.keys id := by
  rcases refreshSnapshot_cases q options s force with ⟨hempty, heq⟩ | ⟨hne, -, heq⟩ | ⟨hne, id, hid, heq⟩ |
    ⟨hne, hnone, heq⟩
  · cases hq'.symm.trans heq
    exact ⟨h, rfl, fun hne => absurd rfl hne⟩
  · cases hq'.symm.trans heq
    exact ⟨h, rfl, fun _ => ⟨hne, howned hne⟩⟩
  · cases hq'.symm.trans heq
    obtain ⟨r, hr, -, hkey⟩ := (h.registered _ id).mp hid
    exact ⟨h, rfl, hne, howned hne, by simp [keys, hr, hkey]⟩
  · cases hq'.symm.trans heq
    refine ⟨h.startRefresh hne (howned hne) hnone, rfl, hne, howned hne, ?_⟩
    rw [keys_startRefresh]
    simp [keys]

theorem Sound.noteExpiry (h : q.Sound) (s : AccountSessionSnapshot) (expires : Option (Option Nat)) :
    (q.noteExpiry s expires).Sound := by
  cases expires with
  | none => exact h
  | some expiresAt => exact { h with }

@[simp] theorem noteExpiry_issued (q : ApiClientState) (s : AccountSessionSnapshot) (expires : Option (Option Nat)) :
    (q.noteExpiry s expires).issued = q.issued := by
  cases expires <;> rfl

theorem Sound.ofAccount (h : q.Sound) (defaultServerUrl : Url) (accountId : String) :
    (AccountSessionSnapshot.ofAccount defaultServerUrl accountId (q.accounts accountId)).Owned q.issued := by
  intro hne
  cases haccount : q.accounts accountId with
  | none =>
    rw [haccount] at hne
    exact absurd rfl hne
  | some account =>
    rw [haccount] at hne
    simp only [AccountSessionSnapshot.ofAccount, AccountSessionSnapshot.bearer] at hne ⊢
    cases htoken : account.token with
    | none => simp [htoken] at hne
    | some token => exact h.stored accountId account token haccount htoken (by simpa [htoken] using hne)

theorem Holds.afterForced {issued : List ClientSession} {keys : List AccountKey} {bearer : Option String}
    {s : AccountSessionSnapshot} (hbearer : bearer = none) (token : String) {refreshedToken : String}
    (h : s.Holds issued refreshedToken) : (ApiRequest.afterForced s token refreshedToken).Sound issued keys bearer := by
  unfold ApiRequest.afterForced
  split
  · exact ⟨hbearer, h⟩
  · trivial

/-- The token of a request that goes to the server of its account. -/
theorem target_atHome {issued : List ClientSession} {t : ApiRequest} {s : AccountSessionSnapshot} {token : String}
    (hbearer : t.bearer = none) (hholds : s.Holds issued token) (hne : token ≠ "") (defaultServerUrl : Url)
    (use : BearerUse) : (⟨t.target defaultServerUrl (some s), token, use⟩ : SentBearer).AtHome issued := by
  refine ⟨_, (hholds hne).2, rfl, ?_⟩
  simp only [ApiRequest.target, hbearer, Option.map_some, Option.getD_some]
  exact Url.isUnder_routeRequestUrl ..

theorem Sound.resume (h : q.Sound) {t : ApiRequest} {ok : Bool} {await : RequestAwait}
    (ht : t.await.Sound q.issued q.keys t.bearer) (hq' : q.resume options t ok = some (q', await)) :
    q'.Sound ∧ await.Sound q'.issued q'.keys t.bearer := by
  unfold ApiClientState.resume at hq'
  cases hawait : t.await with
  | activeAccount =>
    rw [hawait] at hq' ht
    cases hq'
    cases q.activeAccount with
    | none => exact ⟨h, trivial⟩
    | some accountId => exact ⟨h, ht⟩
  | accountSnapshot accountId =>
    rw [hawait] at hq' ht
    cases hq'
    exact ⟨h, ht, h.ofAccount _ _⟩
  | authorizeServer snapshot =>
    rw [hawait] at hq' ht
    dsimp only at hq'
    split at hq'
    · cases hq'
      exact ⟨h, trivial⟩
    · cases hbearer : t.bearer with
      | some token =>
        rw [hbearer] at hq'
        cases hq'
        exact ⟨h.send fun _ huse => absurd rfl huse, rfl⟩
      | none =>
        rw [hbearer] at hq'
        cases snapshot with
        | none =>
          cases hq'
          exact ⟨h, rfl, rfl⟩
        | some s =>
          obtain ⟨hbearer, howned⟩ := ht
          rcases hrefresh : q.refreshSnapshot options s false with ⟨q'', r⟩
          obtain ⟨hsound, hissued, hr⟩ := h.refreshSnapshot howned hrefresh
          dsimp only at hq'
          rw [hrefresh] at hq'
          cases r with
          | done token =>
            cases hq'
            exact ⟨hsound, rfl, hissued ▸ howned, hr⟩
          | wait id =>
            cases hq'
            exact ⟨hsound, rfl, hr⟩
  | body snapshot token =>
    rw [hawait] at hq' ht
    cases hq'
    cases snapshot with
    | none =>
      obtain ⟨hbearer, rfl⟩ := ht
      exact ⟨h.send fun hne => absurd rfl hne, by simp [RequestAwait.Sound, hbearer]⟩
    | some s => exact ⟨h.send fun hne _ => target_atHome ht.1 ht.2.2 hne _ _, ht⟩
  | answered snapshot token unauthorized expires =>
    rw [hawait] at hq' ht
    cases snapshot with
    | none =>
      cases hq'
      exact ⟨h, trivial⟩
    | some s =>
      obtain ⟨hbearer, howned, hholds⟩ := ht
      dsimp only at hq'
      split at hq'
      · rcases hrefresh : (q.noteExpiry s expires).refreshSnapshot options s true with ⟨q'', r⟩
        obtain ⟨hsound, hissued, hr⟩ := (h.noteExpiry s expires).refreshSnapshot (by simpa using howned) hrefresh
        rw [noteExpiry_issued] at hissued
        rw [hrefresh] at hq'
        cases r with
        | done refreshedToken =>
          cases hq'
          exact ⟨hsound, Holds.afterForced hbearer token hr⟩
        | wait id =>
          cases hq'
          exact ⟨hsound, hbearer, hr, hissued ▸ hholds⟩
      · cases hq'
        exact ⟨h.noteExpiry s expires, trivial⟩
  | refresh | sent | forced | replayed | ended =>
    rw [hawait] at hq'
    cases hq'

/-! ### The servers -/

theorem session?_eq_some {url : Url} {token : String} {x : ClientSession} (h : q.session? url token = some x) :
    x ∈ q.sessions ∧ x.token = token ∧ url.isUnder x.server = true := by
  obtain ⟨hx, hmem⟩ := And.intro (List.find?_some h) (List.mem_of_find?_eq_some h)
  simp only [Bool.and_eq_true, decide_eq_true_eq] at hx
  exact ⟨hmem, hx⟩

theorem isFresh_iff {token : String} : q.isFresh token = true ↔ token ≠ "" ∧ ∀ x ∈ q.issued, x.token ≠ token := by
  simp [isFresh]

theorem Sound.renew (h : q.Sound) {x : ClientSession} (hx : x ∈ q.issued) {fresh : String}
    (hfresh : q.isFresh fresh = true) : (q.renew x fresh).Sound := by
  obtain ⟨hne, hnew⟩ := isFresh_iff.mp hfresh
  have hissued : q.issued ⊆ (q.renew x fresh).issued := fun y hy => List.mem_cons_of_mem _ hy
  exact {
    nonempty := by
      intro y hy
      rcases List.mem_cons.mp hy with rfl | hy
      · exact hne
      · exact h.nonempty y hy
    distinct := by
      intro y hy z hz heq
      rcases List.mem_cons.mp hy with rfl | hy <;> rcases List.mem_cons.mp hz with rfl | hz
      · rfl
      · exact absurd heq.symm (hnew z hz)
      · exact absurd heq (hnew y hy)
      · exact h.distinct y hy z hz heq
    sessions := by
      intro y hy
      rcases List.mem_cons.mp hy with rfl | hy
      · exact List.mem_cons_self
      · exact hissued (h.sessions y (List.mem_of_mem_filter hy))
    servers := by
      intro y hy account haccount
      rcases List.mem_cons.mp hy with rfl | hy
      · exact h.servers x hx account haccount
      · exact h.servers y hy account haccount
    stored := fun accountId account token haccount htoken hne =>
      hissued (h.stored accountId account token haccount htoken hne)
    registered := h.registered
    refreshes := fun r hr => by
      obtain ⟨hbearer, howned, hrenewed⟩ := h.refreshes r hr
      exact ⟨hbearer, hissued howned, fun token htoken => hissued (hrenewed token htoken)⟩
    requests := fun t ht => (h.requests t ht).mono hissued List.prefix_rfl
    sent := fun b hb huse => (h.sent b hb huse).mono hissued }

theorem Sound.serve (h : q.Sound) {t : ApiRequest} {expires : Option (Option Nat)} {fresh : String}
    {await : RequestAwait} (hfresh : q.isFresh fresh = true) (ht : t.await.Sound q.issued q.keys t.bearer)
    (hq' : q.serve options t expires fresh = some (q', await)) :
    q'.Sound ∧ await.Sound q'.issued q'.keys t.bearer := by
  unfold ApiClientState.serve at hq'
  cases hawait : t.await with
  | sent snapshot token =>
    rw [hawait] at hq' ht
    dsimp only at hq'
    have hanswered : ∀ unauthorized,
        (RequestAwait.answered snapshot token unauthorized expires).Sound q.issued q.keys t.bearer := by
      intro unauthorized
      cases snapshot with
      | none => exact ht
      | some s => exact ht
    split at hq'
    · cases hq'
      exact ⟨h, hanswered true⟩
    · next x hx =>
      cases hq'
      split
      · exact ⟨h.renew (h.sessions x (session?_eq_some hx).1) hfresh, (hanswered false).mono (List.subset_cons_self _ _) List.prefix_rfl⟩
      · exact ⟨h, hanswered false⟩
  | replayed s token =>
    rw [hawait] at hq'
    cases hq'
    exact ⟨h, trivial⟩
  | activeAccount | accountSnapshot | authorizeServer | refresh | body | answered | forced | ended =>
    rw [hawait] at hq'
    cases hq'

/-! ### Refreshes -/

/-- A refresh goes on, without ending. -/
theorem Sound.setRefresh (h : q.Sound) {id : Nat} {r : Refresh} (hr : q.refreshes[id]? = some r)
    (hflight : r.inFlight = true) {await : RefreshAwait} (hflight' : (Refresh.mk r.snapshot await).inFlight = true)
    (hrenewed : ∀ token ∈ (Refresh.mk r.snapshot await).renewed, r.snapshot.session token ∈ q.issued) :
    ({ q with refreshes := q.refreshes.set id { r with await := await } } : ApiClientState).Sound := by
  have hlt := (List.getElem?_eq_some_iff.mp hr).1
  refine { h with registered := fun key j => ?_, refreshes := fun r' hr' => ?_, requests := fun t ht => ?_ }
  · rw [h.registered]
    dsimp only
    by_cases hj : id = j
    · subst hj
      rw [List.getElem?_set_self hlt]
      simp only [hr, Option.some.injEq, exists_eq_left', hflight, hflight', true_and]
    · rw [List.getElem?_set_ne hj]
  · rcases List.mem_or_eq_of_mem_set hr' with hr' | rfl
    · exact h.refreshes r' hr'
    · obtain ⟨hbearer, howned, -⟩ := h.refreshes r (List.mem_of_getElem? hr)
      exact ⟨hbearer, howned, hrenewed⟩
  · have hkeys := keys_set hr await
    rw [keys, hkeys]
    exact h.requests t ht

theorem Sound.store (h : q.Sound) {s : AccountSessionSnapshot} {token : String} (howned : s.session token ∈ q.issued)
    (expiresAt : Option Nat) : (q.store s.accountId token expiresAt).Sound := by
  have haccounts : ∀ accountId account, (q.store s.accountId token expiresAt).accounts accountId = some account →
      ∃ account', q.accounts accountId = some account' ∧ account.serverUrl = account'.serverUrl ∧
        (accountId = s.accountId ∧ account.token = some token ∨ account.token = account'.token) := by
    intro accountId account haccount
    simp only [ApiClientState.store] at haccount
    by_cases hid : accountId = s.accountId
    · subst hid
      rw [Function.update_self] at haccount
      obtain ⟨account', haccount', rfl⟩ := Option.map_eq_some_iff.mp haccount
      exact ⟨account', haccount', rfl, .inl ⟨rfl, rfl⟩⟩
    · rw [Function.update_of_ne hid] at haccount
      exact ⟨account, haccount, rfl, .inr rfl⟩
  refine { h with servers := fun x hx account haccount => ?_, stored := fun accountId account token' haccount htoken hne => ?_ }
  · obtain ⟨account', haccount', hserver, -⟩ := haccounts _ _ haccount
    exact hserver.trans (h.servers x hx account' haccount')
  · obtain ⟨account', haccount', hserver, ⟨rfl, heq⟩ | heq⟩ := haccounts _ _ haccount
    · cases heq.symm.trans htoken
      rw [hserver, h.servers _ howned account' haccount']
      exact howned
    · rw [hserver]
      exact h.stored accountId account' token' haccount' (heq ▸ htoken) hne

theorem Sound.resumed {issued : List ClientSession} {keys : List AccountKey} {id : Nat} {s : AccountSessionSnapshot}
    {token : String} (hkey : keys[id]? = some s.accountKey)
    (htoken : token ≠ "" → s.session token ∈ issued) {t : ApiRequest} (ht : t.await.Sound issued keys t.bearer) :
    (t.resumed id token).await.Sound issued keys (t.resumed id token).bearer := by
  have hholds : ∀ s' : AccountSessionSnapshot, s'.Awaits issued keys id → s'.Holds issued token := by
    rintro s' ⟨hne, -, hkey'⟩ htoken'
    have hs : s'.session token = s.session token := by
      have heq := Option.some.inj (hkey'.symm.trans hkey)
      simp only [AccountSessionSnapshot.accountKey, Prod.mk.injEq] at heq
      simp [AccountSessionSnapshot.session, heq]
    exact ⟨hne, hs ▸ htoken htoken'⟩
  unfold ApiRequest.resumed
  cases hawait : t.await with
  | refresh s' j =>
    rw [hawait] at ht
    dsimp only
    split
    · next hj =>
      subst hj
      exact ⟨ht.1, fun _ => ht.2.2.1, hholds s' ht.2⟩
    · rw [hawait]
      exact ht
  | forced s' old j =>
    rw [hawait] at ht
    dsimp only
    split
    · next hj =>
      subst hj
      exact Holds.afterForced ht.1 old (hholds s' ht.2.1)
    · rw [hawait]
      exact ht
  | activeAccount | accountSnapshot | authorizeServer | body | sent | answered | replayed | ended =>
    dsimp only
    exact ht

theorem Sound.settle (h : q.Sound) {id : Nat} {r : Refresh} (hr : q.refreshes[id]? = some r)
    (hflight : r.inFlight = true) {renewed : Option String}
    (hrenewed : ∀ token ∈ renewed, r.snapshot.session token ∈ q.issued) :
    (q.settle options id r renewed).Sound := by
  obtain ⟨hbearer, howned, -⟩ := h.refreshes r (List.mem_of_getElem? hr)
  have hlt := (List.getElem?_eq_some_iff.mp hr).1
  have hkeys : (q.settle options id r renewed).keys = q.keys := keys_set hr (.ended renewed)
  have htoken : r.snapshot.session (renewed.getD r.snapshot.bearer) ∈ q.issued := by
    cases renewed with
    | none => exact howned
    | some token => exact hrenewed token rfl
  refine { h with registered := fun key j => ?_, refreshes := fun r' hr' => ?_, requests := fun t ht => ?_, sent := fun b hb huse => ?_ }
  · simp only [ApiClientState.settle]
    by_cases hkey : key = r.snapshot.accountKey
    · subst hkey
      rw [Function.update_self]
      refine ⟨fun h => (by cases h), ?_⟩
      rintro ⟨r', hr', hflight', hkey⟩
      by_cases hj : id = j
      · subst hj
        rw [List.getElem?_set_self hlt] at hr'
        cases hr'
        cases hflight'
      · rw [List.getElem?_set_ne hj] at hr'
        exact absurd (h.same_inFlight hr hr' hflight hflight' hkey.symm) hj
    · rw [Function.update_of_ne hkey, h.registered]
      by_cases hj : id = j
      · subst hj
        rw [List.getElem?_set_self hlt, hr]
        constructor
        · rintro ⟨_, ⟨⟩, -, hkey'⟩
          exact absurd hkey'.symm hkey
        · rintro ⟨_, ⟨⟩, hflight', -⟩
          cases hflight'
      · rw [List.getElem?_set_ne hj]
  · rcases List.mem_or_eq_of_mem_set hr' with hr' | rfl
    · exact h.refreshes r' hr'
    · exact ⟨hbearer, howned, hrenewed⟩
  · rw [hkeys]
    obtain ⟨t', ht', rfl⟩ := List.mem_map.mp ht
    have hkey : q.keys[id]? = some r.snapshot.accountKey := by simp [keys, hr]
    exact Sound.resumed hkey (fun _ => htoken) (h.requests t' ht')
  · rcases List.mem_append.mp hb with hb | hb
    · obtain ⟨t, ht, hreplay⟩ := List.mem_filterMap.mp hb
      have hsound := h.requests t ht
      unfold ApiClientState.replay? at hreplay
      split at hreplay
      · next s old j hawait =>
        rw [hawait] at hsound
        split at hreplay
        · next hcond =>
          obtain ⟨hj, hne, -⟩ := hcond
          subst hj
          cases hreplay
          obtain ⟨hbearer, ⟨hsbearer, -, hkey⟩, -⟩ := hsound
          have heq : r.snapshot.accountKey = s.accountKey := by simpa [keys, hr] using hkey
          refine target_atHome hbearer (fun _ => ⟨hsbearer, ?_⟩) hne _ _
          simp only [AccountSessionSnapshot.accountKey, Prod.mk.injEq] at heq
          change _ ∈ q.issued
          simpa [AccountSessionSnapshot.session, heq] using htoken
        · cases hreplay
      · cases hreplay
    · exact h.sent b hb huse

/-- The session that a refresh asks for, if it is still there. -/
theorem Sound.session?_refresh (h : q.Sound) {r : Refresh} (hr : r ∈ q.refreshes) {url : Url} {x : ClientSession}
    (hx : q.session? url r.snapshot.bearer = some x) : x = r.snapshot.session r.snapshot.bearer := by
  obtain ⟨hmem, htoken, -⟩ := session?_eq_some hx
  exact h.distinct x (h.sessions x hmem) _ (h.refreshes r hr).2.1 htoken

theorem Sound.serveRefresh (h : q.Sound) {id : Nat} {r : Refresh} (hr : q.refreshes[id]? = some r)
    {expiresAt : Option Nat} {fresh : String} (hfresh : q.isFresh fresh = true)
    (hq' : q.serveRefresh id r expiresAt fresh = some q') : q'.Sound := by
  unfold ApiClientState.serveRefresh at hq'
  split at hq'
  · next hawait =>
    have hflight : r.inFlight = true := by simp [Refresh.inFlight, hawait]
    split at hq'
    · cases hq'
      exact h.setRefresh hr hflight rfl fun token htoken => by cases htoken
    · next x hx =>
      cases hq'
      have hx' := h.session?_refresh (List.mem_of_getElem? hr) hx
      refine (h.renew (h.sessions x (session?_eq_some hx).1) hfresh).setRefresh hr hflight rfl fun token htoken => ?_
      cases htoken
      exact List.mem_cons.mpr (.inl (by simp [hx', AccountSessionSnapshot.session]))
  · cases hq'

theorem Sound.resumeRefresh (h : q.Sound) {id : Nat} {r : Refresh} (hr : q.refreshes[id]? = some r)
    (hq' : q.resumeRefresh options id r = some q') : q'.Sound := by
  obtain ⟨-, -, hrenewed⟩ := h.refreshes r (List.mem_of_getElem? hr)
  unfold ApiClientState.resumeRefresh at hq'
  split at hq'
  · next hawait =>
    cases hq'
    exact h.settle hr (by simp [Refresh.inFlight, hawait]) fun token htoken => by cases htoken
  · next token expiresAt hawait =>
    cases hq'
    have hnoted : ∀ timing, ({ q with timingByAccount := timing } : ApiClientState).Sound := fun _ => { h with }
    refine (hnoted (Function.update q.timingByAccount r.snapshot.accountKey (some ⟨some q.clock, expiresAt⟩))).setRefresh
      hr ?_ ?_ fun token' htoken => ?_
    · simp [Refresh.inFlight, hawait]
    · rfl
    · cases htoken
      exact hrenewed token (by simp [Refresh.renewed, hawait])
  · next token expiresAt hawait =>
    cases hq'
    have htoken : r.snapshot.session token ∈ q.issued := hrenewed token (by simp [Refresh.renewed, hawait])
    refine (h.store htoken expiresAt).settle hr (by simp [Refresh.inFlight, hawait]) fun token' htoken' => ?_
    cases htoken'
    exact htoken
  · cases hq'

theorem Sound.refreshFails (h : q.Sound) {id : Nat} {r : Refresh} (hr : q.refreshes[id]? = some r) {written : Bool}
    (hq' : q.refreshFails options id r written = some q') : q'.Sound := by
  obtain ⟨-, -, hrenewed⟩ := h.refreshes r (List.mem_of_getElem? hr)
  unfold ApiClientState.refreshFails at hq'
  split at hq'
  · cases hq'
  · next token expiresAt hawait =>
    cases hq'
    have hstored : (if written then q.store r.snapshot.accountId token expiresAt else q).Sound := by
      split
      · exact h.store (hrenewed token (by simp [Refresh.renewed, hawait])) expiresAt
      · exact h
    refine hstored.settle ?_ (by simp [Refresh.inFlight, hawait]) fun token htoken => by cases htoken
    split <;> exact hr
  · next hended _ =>
    cases hq'
    refine h.settle hr ?_ fun token htoken => by cases htoken
    unfold Refresh.inFlight
    split
    · next token hawait => exact absurd hawait (hended token)
    · rfl

/-- **Whatever happens next**, the client stays sound. -/
theorem Sound.step (h : q.Sound) {label : ApiLabel} (hq' : q.step options label = some q') : q'.Sound := by
  cases label with
  | request url bearer =>
    simp only [ApiClientState.step] at hq'
    split at hq'
    · cases hq'
      refine { h with requests := fun t ht => ?_ }
      rcases List.mem_append.mp ht with ht | ht
      · exact h.requests t ht
      · obtain rfl := List.mem_singleton.mp ht
        cases bearer with
        | none => exact rfl
        | some token => exact trivial
    · cases hq'
  | setActiveAccount accountId =>
    cases hq'
    exact { h with }
  | resume k ok =>
    simp only [ApiClientState.step, Option.bind_eq_bind, Option.bind_eq_some_iff, Option.pure_def,
      Option.some.injEq, Prod.exists] at hq'
    obtain ⟨t, ht, q'', await, hresume, rfl⟩ := hq'
    obtain ⟨hsound, hawait⟩ := h.resume (h.requests t (List.mem_of_getElem? ht)) hresume
    exact hsound.goOn k hawait
  | serve k expires fresh =>
    simp only [ApiClientState.step] at hq'
    split at hq'
    · next hfresh =>
      simp only [Option.bind_eq_bind, Option.bind_eq_some_iff, Option.pure_def,
      Option.some.injEq, Prod.exists] at hq'
      obtain ⟨t, ht, q'', await, hserve, rfl⟩ := hq'
      obtain ⟨hsound, hawait⟩ := h.serve hfresh (h.requests t (List.mem_of_getElem? ht)) hserve
      exact hsound.goOn k hawait
    · cases hq'
  | lose k =>
    simp only [ApiClientState.step, Option.bind_eq_bind, Option.bind_eq_some_iff] at hq'
    obtain ⟨t, ht, hq'⟩ := hq'
    split at hq'
    · cases hq'
      exact h.goOn k trivial
    · cases hq'
      exact h.goOn k trivial
    · cases hq'
      exact h.goOn k trivial
    · cases hq'
  | serveRefresh i expiresAt fresh =>
    simp only [ApiClientState.step] at hq'
    split at hq'
    · next hfresh =>
      simp only [Option.bind_eq_bind, Option.bind_eq_some_iff] at hq'
      obtain ⟨r, hr, hq'⟩ := hq'
      exact h.serveRefresh hr hfresh hq'
    · cases hq'
  | resumeRefresh i =>
    simp only [ApiClientState.step, Option.bind_eq_bind, Option.bind_eq_some_iff] at hq'
    obtain ⟨r, hr, hq'⟩ := hq'
    exact h.resumeRefresh hr hq'
  | refreshFails i written =>
    simp only [ApiClientState.step, Option.bind_eq_bind, Option.bind_eq_some_iff] at hq'
    obtain ⟨r, hr, hq'⟩ := hq'
    exact h.refreshFails hr hq'
  | revoke token =>
    cases hq'
    exact { h with sessions := fun x hx => h.sessions x (List.mem_of_mem_filter hx) }

theorem sound_of_initial (h : q.Initial) : q.Sound where
  nonempty := h.nonempty
  distinct := h.distinct
  sessions := h.sessions
  servers := h.servers
  stored := h.stored
  registered key id := by simp [h.refreshByAccount, h.refreshes]
  refreshes r hr := by simp [h.refreshes] at hr
  requests t ht := by simp [h.requests] at ht
  sent b hb := by simp [h.sent] at hb

end ApiClientState

/-- The step of the client, at the time of its clock. -/
theorem sessionRefreshingApiClient_step {options : SessionRefreshingApiClientOptions} {q q' : ApiClientState}
    {a : Nat × ApiLabel} (h : (sessionRefreshingApiClient options).step q a = some q') :
    ({ q with clock := a.1 } : ApiClientState).step options a.2 = some q' := by
  simp only [sessionRefreshingApiClient] at h
  split at h
  · exact h
  · cases h

/-- **Every state that a client reaches is sound.** -/
theorem sessionRefreshingApiClient_sound {options : SessionRefreshingApiClientOptions} {q : ApiClientState}
    (h : (sessionRefreshingApiClient options).Reachable q) : q.Sound :=
  h.invariant ApiClientState.Sound (fun _ hq => ApiClientState.sound_of_initial hq) fun q a _ _ hsound hstep =>
    ApiClientState.Sound.step (q := { q with clock := a.1 }) { hsound with } (sessionRefreshingApiClient_step hstep)

end Bittery
