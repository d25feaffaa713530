/-
Passkeys of the extension: which relying party an origin may ask for, and which passkeys are made and used for
it (`passkey-handlers.ts`).

A handler is one step: it reads the items once, and what else happens to them is a change of its own. A missing
text is empty, and times are numbers.
-/
import Bittery.Client.HostnameFacts

namespace Bittery.PasskeyOrigins

open Hostnames Lib.Labels

inductive PasskeyStatus where
  | active
  | suspect
deriving DecidableEq, Repr

inductive StatusReason where
  | unknownCredential
  | signingError
deriving DecidableEq, Repr

structure Passkey where
  credentialId : Text
  rpId : Text
  rpName : Text
  userHandle : Text
  userName : Text
  userDisplayName : Text
  privateKey : Text
  publicKey : Text
  algorithm : Int
  signCount : Nat
  transports : List String
  createdAt : Nat
  lastUsedAt : Option Nat
  status : PasskeyStatus
  statusReason : Option StatusReason
  statusUpdatedAt : Option Nat
deriving DecidableEq, Repr

inductive ItemCategory where
  | login
  | other
deriving DecidableEq, Repr

structure Item where
  id : Text
  vaultId : Text
  category : ItemCategory
  title : Text
  url : Text
  urls : List Text
  username : Option Text
  passkeys : List Passkey
deriving DecidableEq, Repr

inductive VaultRole where
  | owner
  | admin
  | member
  | readOnly
deriving DecidableEq, Repr

structure VaultOption where
  id : Text
  role : VaultRole
deriving DecidableEq, Repr

structure CredentialDescriptor where
  type : String
  id : Text
deriving DecidableEq, Repr

inductive SaveDecision where
  | attachExisting (itemId : Text)
  | createNew (vaultId : Text)
deriving DecidableEq, Repr

structure CreatePayload where
  origin : Text
  rpId : Text
  rpName : Text
  userHandle : Text
  userName : Text
  userDisplayName : Text
  createDecision : Option SaveDecision
deriving DecidableEq, Repr

structure GetPayload where
  origin : Text
  rpId : Text
  allowCredentials : List CredentialDescriptor
  clientDataHash : Text
  selectedCredentialId : Text
deriving DecidableEq, Repr

/-! ## The relying party -/

def deriveRpId (P : UrlPlatform) (origin rpId : Text) : Except String Text :=
  match parseHostname P origin with
  | none | some [] => .error "Invalid origin host"
  | some originHost =>
    if rpId = [] then .ok originHost
    else
      let normalizedRpId := normalizeHost P rpId
      if originHost = normalizedRpId ∨ Above '.' normalizedRpId originHost then .ok normalizedRpId
      else .error "rpId does not match requesting origin"

def getItemCandidateRpIds (P : UrlPlatform) (item : Item) : List Text :=
  (item.url :: item.urls).flatMap fun urlValue =>
    match parseHostname P urlValue with
    | none | some [] => []
    | some host => [host, registrableDomain P host]

def matchesCreationRpId (P : UrlPlatform) (item : Item) (rpId : Text) : Bool :=
  (getItemCandidateRpIds P item).contains rpId

def matchesStoredPasskey (P : UrlPlatform) (passkey : Passkey) (rpId : Text) : Bool :=
  normalizeHost P passkey.rpId = rpId

/-! ## Where a new passkey goes -/

inductive CreateDecisionResolution where
  | prompt
  | attachExisting (item : Item)
  | createNew (vault : VaultOption)
  | invalid (reason : String)

def pickCreateTarget (P : UrlPlatform) (candidates : List Item) (userName : Text) : Option Item :=
  match candidates with
  | [item] => some item
  | _ =>
    match candidates.filter fun item => item.username.map P.toLowerCase = some (P.toLowerCase userName) with
    | [item] => some item
    | _ => none

def pickWritableVault (vaults : List VaultOption) (vaultId : Text) : Option VaultOption :=
  if vaultId ≠ [] then vaults.find? fun vault => vault.id = vaultId else vaults.head?

def resolveCreateDecision (P : UrlPlatform) (candidateItems : List Item) (userName : Text)
    (writableVaults : List VaultOption) : Option SaveDecision → CreateDecisionResolution
  | some (.attachExisting itemId) =>
    match candidateItems.find? fun item => item.id = itemId with
    | some item => .attachExisting item
    | none => .invalid "Selected item is not a valid passkey target"
  | some (.createNew vaultId) =>
    match pickWritableVault writableVaults vaultId with
    | some vault => .createNew vault
    | none => .invalid "Selected vault is not writable"
  | none =>
    match pickCreateTarget P candidateItems userName with
    | some item => .attachExisting item
    | none =>
      if candidateItems ≠ [] then .prompt
      else
        match pickWritableVault writableVaults [] with
        | some vault => .createNew vault
        | none => .invalid "No writable vault available"

/-! ## Which passkey answers -/

structure MatchedPasskey where
  item : Item
  passkey : Passkey
  passkeyIndex : Nat
deriving DecidableEq, Repr

inductive GetSelectionResolution where
  | noMatch
  | invalidSelection
  | prompt (options : List Text)
  | selected (found : MatchedPasskey)

/-- The ids that are asked for, nothing where any will do. -/
def allowCredentialIds (allowCredentials : List CredentialDescriptor) : Option (List Text) :=
  if allowCredentials = [] then none
  else some ((allowCredentials.filter fun descriptor => descriptor.type = "public-key").map (·.id))

def usedAt (passkey : Passkey) : Nat := passkey.lastUsedAt.getD passkey.createdAt

/-- The most recently used come first. -/
def findMatchingPasskeysForItems (P : UrlPlatform) (items : List Item) (rpId : Text)
    (allowCredentials : List CredentialDescriptor) : List MatchedPasskey :=
  let allowed (passkey : Passkey) := (allowCredentialIds allowCredentials).all (·.contains passkey.credentialId)
  let found := items.flatMap fun item =>
    (item.passkeys.zipIdx.filter fun (passkey, _) => matchesStoredPasskey P passkey rpId && allowed passkey).map
      fun (passkey, index) => { item, passkey, passkeyIndex := index }
  found.mergeSort fun left right => usedAt right.passkey ≤ usedAt left.passkey

def resolveGetSelection (found : List MatchedPasskey) (selectedCredentialId : Text) : GetSelectionResolution :=
  if found = [] then .noMatch
  else if selectedCredentialId = [] then .prompt (found.map (·.passkey.credentialId))
  else
    match found.find? fun entry => entry.passkey.credentialId = selectedCredentialId with
    | some entry => .selected entry
    | none => .invalidSelection

/-- A passkey that the site does not seem to know. -/
def resolveUnknownCredentialSuspectMatch (rpMatches : List MatchedPasskey)
    (allowCredentials : List CredentialDescriptor) (selectedCredentialId : Text) : Option MatchedPasskey :=
  match allowCredentialIds allowCredentials with
  | none | some [] => none
  | some _ =>
    if selectedCredentialId ≠ [] then
      rpMatches.find? fun entry => entry.passkey.credentialId = selectedCredentialId
    else if rpMatches.length = 1 then rpMatches.head? else none

/-! ## The handlers -/

structure Keypair where
  privateKey : Text
  publicKey : Text
  credentialId : Text
deriving DecidableEq, Repr

/-- What decides about a request besides the items: the lock, the vaults, the clock, what the crypto core
answers (nothing where it throws), and whether the item command can be given. -/
structure Surroundings where
  unlocked : Bool
  vaults : List VaultOption
  now : Nat
  keypair : Option Keypair
  newItemId : Text
  signs : Bool
  persists : Bool
deriving DecidableEq, Repr

/-- What is signed, and for which relying party. -/
structure Assertion where
  privateKey : Text
  rpId : Text
  clientDataHash : Text
  signCount : Nat
deriving DecidableEq, Repr

inductive Response where
  | fallback (error : Option String)
  /-- With the message of what was thrown. -/
  | failed
  | saveTarget (rpId : Text) (items : List Text)
  | picker (rpId : Text) (options : List Text)
  | created (passkey : Passkey)
  | asserted (passkey : Passkey) (assertion : Assertion)
deriving DecidableEq, Repr

def PASSKEY_TRANSPORTS : List String := ["internal", "hybrid"]

def toPasskeyModel (keypair : Keypair) (rpId : Text) (payload : CreatePayload) (now : Nat) : Passkey where
  credentialId := keypair.credentialId
  rpId := rpId
  rpName := payload.rpName
  userHandle := payload.userHandle
  userName := payload.userName
  userDisplayName := payload.userDisplayName
  privateKey := keypair.privateKey
  publicKey := keypair.publicKey
  algorithm := -7
  signCount := 0
  transports := PASSKEY_TRANSPORTS
  createdAt := now
  lastUsedAt := none
  status := .active
  statusReason := none
  statusUpdatedAt := none

/-- The item command writes the whole item. -/
def updateItem (items : List Item) (item : Item) : List Item :=
  items.map fun old => if old.id = item.id then item else old

def attachPasskeyToExistingItem (items : List Item) (item : Item) (passkey : Passkey) : List Item :=
  updateItem items { item with passkeys := item.passkeys ++ [passkey] }

def createItemWithPasskey (items : List Item) (id : Text) (vault : VaultOption) (rpId userName : Text)
    (passkey : Passkey) : List Item :=
  { id, vaultId := vault.id, category := .login, title := rpId, url := https rpId, urls := [],
    username := some userName, passkeys := [passkey] } :: items

def loginItems (items : List Item) : List Item := items.filter (·.category = .login)

/-- The stages after the decision: the keypair, then the item command. -/
def savePasskey (surroundings : Surroundings) (payload : CreatePayload) (rpId : Text) (items : List Item)
    (store : Passkey → List Item) : Response × List Item :=
  match surroundings.keypair with
  | none => (.failed, items)
  | some keypair =>
    let passkey := toPasskeyModel keypair rpId payload surroundings.now
    if surroundings.persists then (.created passkey, store passkey) else (.failed, items)

def handlePasskeyCreate (P : UrlPlatform) (surroundings : Surroundings) (payload : CreatePayload)
    (items : List Item) : Response × List Item :=
  if !surroundings.unlocked then (.fallback "Extension is locked", items)
  else
    match deriveRpId P payload.origin payload.rpId with
    | .error message => (.fallback message, items)
    | .ok rpId =>
      let candidateItems := (loginItems items).filter (matchesCreationRpId P · rpId)
      let writableVaults := surroundings.vaults.filter (·.role ≠ .readOnly)
      let save := savePasskey surroundings payload rpId items
      match resolveCreateDecision P candidateItems payload.userName writableVaults payload.createDecision with
      | .prompt => (.saveTarget rpId (candidateItems.map (·.id)), items)
      | .invalid reason => (.fallback reason, items)
      | .attachExisting item => save (attachPasskeyToExistingItem items item)
      | .createNew vault => save (createItemWithPasskey items surroundings.newItemId vault rpId payload.userName)

/-- The largest of the known count, the local one and the clock's, each past the last. -/
def computeNextSignCount (lastSignCount : Text → Nat) (credentialId : Text) (knownCount epochSeconds : Nat) : Nat :=
  max (max (knownCount + 1) (lastSignCount credentialId + 1)) epochSeconds

def updateStoredPasskey (items : List Item) (found : MatchedPasskey) (update : Passkey → Passkey) : List Item :=
  updateItem items { found.item with passkeys := found.item.passkeys.modify found.passkeyIndex update }

def markPasskeyAsSuspectSafely (surroundings : Surroundings) (items : List Item) (found : MatchedPasskey)
    (reason : StatusReason) : List Item :=
  if surroundings.persists then
    updateStoredPasskey items found fun current =>
      { current with status := .suspect, statusReason := some reason, statusUpdatedAt := some surroundings.now }
  else items

def updateAssertionUsage (surroundings : Surroundings) (items : List Item) (found : MatchedPasskey)
    (nextSignCount : Nat) : List Item :=
  if surroundings.persists then
    updateStoredPasskey items found fun current =>
      { current with signCount := nextSignCount, lastUsedAt := some surroundings.now, status := .active,
                     statusReason := none, statusUpdatedAt := some surroundings.now }
  else items

def handlePasskeyGet (P : UrlPlatform) (surroundings : Surroundings) (lastSignCount : Text → Nat)
    (payload : GetPayload) (items : List Item) : Response × List Item × (Text → Nat) :=
  if !surroundings.unlocked then (.fallback "Extension is locked", items, lastSignCount)
  else
    match deriveRpId P payload.origin payload.rpId with
    | .error message => (.fallback message, items, lastSignCount)
    | .ok rpId =>
      let found := findMatchingPasskeysForItems P (loginItems items) rpId payload.allowCredentials
      match resolveGetSelection found payload.selectedCredentialId with
      | .noMatch =>
        let rpMatches := findMatchingPasskeysForItems P (loginItems items) rpId []
        match resolveUnknownCredentialSuspectMatch rpMatches payload.allowCredentials payload.selectedCredentialId with
        | some suspect =>
          (.fallback none, markPasskeyAsSuspectSafely surroundings items suspect .unknownCredential, lastSignCount)
        | none => (.fallback none, items, lastSignCount)
      | .invalidSelection => (.fallback "Selected passkey is no longer available", items, lastSignCount)
      | .prompt options => (.picker rpId options, items, lastSignCount)
      | .selected entry =>
        let credentialId := entry.passkey.credentialId
        let nextSignCount := computeNextSignCount lastSignCount credentialId entry.passkey.signCount
          (surroundings.now / 1000)
        -- the local count moves before anything is signed
        let lastSignCount := Function.update lastSignCount credentialId nextSignCount
        if surroundings.signs then
          (.asserted { entry.passkey with signCount := nextSignCount }
            ⟨entry.passkey.privateKey, rpId, payload.clientDataHash, nextSignCount⟩,
            updateAssertionUsage surroundings items entry nextSignCount, lastSignCount)
        else (.failed, markPasskeyAsSuspectSafely surroundings items entry .signingError, lastSignCount)

/-! ## Runs -/

/-- The background, with what it has made and signed for which origin. -/
structure Background where
  items : List Item
  lastSignCount : Text → Nat
  created : List (Text × Passkey)
  asserted : List (Text × Passkey × Assertion)

inductive Event where
  | create (surroundings : Surroundings) (payload : CreatePayload)
  | get (surroundings : Surroundings) (payload : GetPayload)
  /-- Whatever the user, another device or the server does to the items. -/
  | change (items : List Item)

def step (P : UrlPlatform) (s : Background) : Event → Background
  | .create surroundings payload =>
    let (response, items) := handlePasskeyCreate P surroundings payload s.items
    match response with
    | .created passkey => { s with items, created := (payload.origin, passkey) :: s.created }
    | _ => { s with items }
  | .get surroundings payload =>
    let (response, items, lastSignCount) := handlePasskeyGet P surroundings s.lastSignCount payload s.items
    match response with
    | .asserted passkey assertion =>
      { s with items, lastSignCount, asserted := (payload.origin, passkey, assertion) :: s.asserted }
    | _ => { s with items, lastSignCount }
  | .change items => { s with items }

def start (items : List Item) : Background where
  items := items
  lastSignCount := fun _ => 0
  created := []
  asserted := []

def run (P : UrlPlatform) (items : List Item) (events : List Event) : Background :=
  events.foldl (step P) (start items)

/-! ## What an origin may ask for -/

variable {P : UrlPlatform} {origin rpId : Text}

/-- A secure origin whose host has no empty label but the root's. -/
structure HttpsOrigin (P : UrlPlatform) (origin : Text) : Prop where
  secure : "https://".toList <+: origin
  host : ∃ host, [] ∉ host.splitOn '.' ∧ (P.hostname origin = some host ∨ P.hostname origin = some (host ++ ['.']))

theorem parseHostname_of_origin (hP : P.Lawful) (h : HttpsOrigin P origin) :
    ∃ host, IsHost P host ∧ parseHostname P origin = some host := by
  obtain ⟨hsecure, host, hlabels, hread⟩ := h
  have hprefix : "https://".toList.isPrefixOf origin = true := List.isPrefixOf_iff_prefix.2 hsecure
  have hhost : IsHost P host := by
    rcases hread with hread | hread
    · exact ⟨hP.stable (Or.inr hsecure) hread, hlabels⟩
    · exact ⟨hP.root hlabels (hP.stable (Or.inr hsecure) hread), hlabels⟩
  refine ⟨host, hhost, ?_⟩
  rw [parseHostname, hprefix, Bool.or_true, if_pos rfl]
  rcases hread with hread | hread
  · rw [hread, Option.map_some, hhost.normalizeHost hP]
  · rw [hread, Option.map_some, normalizeHost_of_text hP (hP.text (Or.inr hsecure) hread) (by simp),
      trimDots_of_root hlabels, hhost.accepted, Option.getD_some]

/-- The registrable domain of the origin's host. -/
def originDomain (P : UrlPlatform) (origin : Text) : Text :=
  registrableDomain P ((parseHostname P origin).getD [])

/-- Whatever the origin gets, it is its own host, or a suffix of it that somebody can own. -/
def Scoped (P : UrlPlatform) (origin rpId : Text) : Prop :=
  ∀ accepted, deriveRpId P origin rpId = .ok accepted →
    (∃ originHost, parseHostname P origin = some originHost ∧
      (accepted = originHost ∨ (Above '.' accepted originHost ∧ isPublicSuffix accepted = false))) ∧
      registrableDomain P accepted = originDomain P origin

/-- The origin asks for a public suffix above its host. -/
def AsksForPublicSuffix (P : UrlPlatform) (origin rpId : Text) : Prop :=
  ∃ originHost, parseHostname P origin = some originHost ∧ Above '.' (normalizeHost P rpId) originHost ∧
    isPublicSuffix (normalizeHost P rpId)

/-- The cases of what is accepted. -/
theorem deriveRpId_ok {originHost accepted : Text} (hhost : parseHostname P origin = some originHost)
    (hne : originHost ≠ []) :
    deriveRpId P origin rpId = .ok accepted ↔
      (rpId = [] ∧ accepted = originHost) ∨
        (rpId ≠ [] ∧ accepted = normalizeHost P rpId ∧ (accepted = originHost ∨ Above '.' accepted originHost)) := by
  obtain ⟨first, rest, rfl⟩ := List.exists_cons_of_ne_nil hne
  rw [deriveRpId, hhost]
  simp only
  split_ifs with hnil hmatch
  · simp [hnil, eq_comm]
  · simp only [Except.ok.injEq]
    constructor
    · rintro rfl
      exact Or.inr ⟨hnil, rfl, hmatch.imp_left Eq.symm⟩
    · rintro (⟨hnil', -⟩ | ⟨-, rfl, -⟩)
      · exact absurd hnil' hnil
      · rfl
  · refine iff_of_false (by simp) ?_
    rintro (⟨hnil', -⟩ | ⟨-, rfl, hmatch'⟩)
    · exact hnil hnil'
    · exact hmatch (hmatch'.imp_left Eq.symm)

/-- What is above a host and a normal form is a host. -/
theorem isHost_of_above (hP : P.Lawful) {originHost : Text} (hhost : IsHost P originHost)
    (habove : Above '.' (normalizeHost P rpId) originHost) : IsHost P (normalizeHost P rpId) := by
  have hlabels := Above.labels habove hhost.labels
  refine ⟨(accepted_normalizeHost hP rpId).resolve_right fun hnone => ?_, hlabels⟩
  cases hip : isIpv4 originHost with
  | true =>
    obtain ⟨address, hread, -⟩ := hP.ipv4Tail habove hip hhost.accepted
    simp [hread] at hnone
  | false =>
    have hread : P.hostname (https (normalizeHost P rpId)) = _ := hP.parent habove hlabels hip hhost.accepted
    simp [hread] at hnone

/-- **A relying party is scoped to its origin if and only if no public suffix above the host is asked for.** -/
theorem scoped_iff (hP : P.Lawful) (horigin : HttpsOrigin P origin) :
    Scoped P origin rpId ↔ ¬ AsksForPublicSuffix P origin rpId := by
  obtain ⟨originHost, hhost, hread⟩ := parseHostname_of_origin hP horigin
  have hne := ne_nil_of_labels hhost.labels
  constructor
  · rintro hscoped ⟨originHost', hread', habove, hpublic⟩
    obtain rfl := Option.some.inj (hread.symm.trans hread')
    have hnil : rpId ≠ [] := by
      rintro rfl
      exact ne_nil_of_labels (isHost_of_above hP hhost habove).labels (by simp [normalizeHost])
    obtain ⟨⟨originHost', hread', heq | hnot⟩, -⟩ := hscoped (normalizeHost P rpId)
      ((deriveRpId_ok hread hne).2 (Or.inr ⟨hnil, rfl, Or.inr habove⟩))
    all_goals obtain rfl := Option.some.inj (hread.symm.trans hread')
    · exact habove.ne heq
    · simp [hpublic] at hnot
  · intro hasks accepted hok
    rw [originDomain, hread, Option.getD_some]
    rcases (deriveRpId_ok hread hne).1 hok with ⟨-, rfl⟩ | ⟨-, rfl, heq | habove⟩
    · exact ⟨⟨_, rfl, Or.inl rfl⟩, rfl⟩
    · exact ⟨⟨_, rfl, Or.inl heq⟩, by rw [heq]⟩
    · have hpublic : isPublicSuffix (normalizeHost P rpId) = false := by
        by_contra hpublic
        exact hasks ⟨originHost, hread, habove, by simpa using hpublic⟩
      have haccepted := isHost_of_above hP hhost habove
      refine ⟨⟨_, rfl, Or.inr ⟨habove, hpublic⟩⟩, ?_⟩
      rw [registrableDomain_of_isHost hP haccepted, registrableDomain_of_isHost hP hhost]
      exact (registrableOf_of_above hP habove haccepted hhost hpublic).symm

/-! ## What is made and used -/

/-- The condition on a request. -/
structure InScope (P : UrlPlatform) (origin rpId : Text) : Prop where
  secure : HttpsOrigin P origin
  own : ¬ AsksForPublicSuffix P origin rpId

/-- **Any text that normalizes to what an origin gets has the origin's registrable domain.** -/
theorem InScope.domain (hP : P.Lawful) (h : InScope P origin rpId) {stored accepted : Text}
    (hok : deriveRpId P origin rpId = .ok accepted) (hstored : normalizeHost P stored = accepted) :
    registrableDomain P stored = originDomain P origin := by
  obtain ⟨originHost, hhost, hread⟩ := parseHostname_of_origin hP h.secure
  have hdomain := ((scoped_iff hP h.secure).2 h.own accepted hok).2
  have haccepted : IsHost P accepted := by
    rcases (deriveRpId_ok hread (ne_nil_of_labels hhost.labels)).1 hok with ⟨-, rfl⟩ | ⟨-, rfl, rfl | habove⟩
    · exact hhost
    · exact hhost
    · exact isHost_of_above hP hhost habove
  rw [← hdomain, registrableDomain_of_isHost hP haccepted, registrableDomain, hstored]

theorem rpId_of_savePasskey {surroundings : Surroundings} {payload : CreatePayload} {items : List Item}
    {store : Passkey → List Item} {passkey : Passkey}
    (h : (savePasskey surroundings payload rpId items store).1 = .created passkey) : passkey.rpId = rpId := by
  unfold savePasskey at h
  split at h
  · cases h
  · simp only at h
    split_ifs at h
    cases h
    rfl

/-- A new passkey carries what the origin got. -/
theorem rpId_of_created {surroundings : Surroundings} {payload : CreatePayload} {items : List Item} {passkey : Passkey}
    (h : (handlePasskeyCreate P surroundings payload items).1 = .created passkey) :
    deriveRpId P payload.origin payload.rpId = .ok passkey.rpId := by
  unfold handlePasskeyCreate at h
  split_ifs at h
  split at h
  · cases h
  · rename_i accepted hok
    simp only at h
    split at h
    · cases h
    · cases h
    · rw [hok, rpId_of_savePasskey h]
    · rw [hok, rpId_of_savePasskey h]

theorem mem_findMatchingPasskeysForItems {items : List Item} {accepted : Text} {allow : List CredentialDescriptor}
    {found : MatchedPasskey} (h : found ∈ findMatchingPasskeysForItems P items accepted allow) :
    normalizeHost P found.passkey.rpId = accepted := by
  simp only [findMatchingPasskeysForItems, List.mem_mergeSort, List.mem_flatMap, List.mem_map, List.mem_filter] at h
  obtain ⟨item, -, entry, ⟨-, hmatch⟩, rfl⟩ := h
  simp only [Bool.and_eq_true, matchesStoredPasskey, decide_eq_true_eq] at hmatch
  exact hmatch.1

theorem mem_of_selected {found : List MatchedPasskey} {selectedCredentialId : Text} {entry : MatchedPasskey}
    (h : resolveGetSelection found selectedCredentialId = .selected entry) : entry ∈ found := by
  unfold resolveGetSelection at h
  split_ifs at h
  split at h
  · rename_i hfind
    cases h
    exact List.mem_of_find?_eq_some hfind
  · cases h

/-- An assertion is signed for what the origin got, with a passkey stored for it. -/
theorem rpId_of_asserted {surroundings : Surroundings} {counts : Text → Nat} {payload : GetPayload} {items : List Item}
    {passkey : Passkey} {assertion : Assertion}
    (h : (handlePasskeyGet P surroundings counts payload items).1 = .asserted passkey assertion) :
    deriveRpId P payload.origin payload.rpId = .ok assertion.rpId ∧ normalizeHost P passkey.rpId = assertion.rpId := by
  unfold handlePasskeyGet at h
  split at h
  · cases h
  split at h
  · cases h
  · rename_i accepted hok
    simp only at h
    split at h
    · split at h <;> cases h
    · cases h
    · cases h
    · rename_i entry hselected
      split_ifs at h
      cases h
      exact ⟨hok, mem_findMatchingPasskeysForItems (mem_of_selected hselected)⟩

/-- Every request of the event is in scope. -/
def Event.InScope (P : UrlPlatform) : Event → Prop
  | .create _ payload => PasskeyOrigins.InScope P payload.origin payload.rpId
  | .get _ payload => PasskeyOrigins.InScope P payload.origin payload.rpId
  | .change _ => True

/-- What was made and signed has the registrable domain of the origin it was for. -/
structure SitesKept (P : UrlPlatform) (s : Background) : Prop where
  created : ∀ entry ∈ s.created, registrableDomain P entry.2.rpId = originDomain P entry.1
  asserted : ∀ entry ∈ s.asserted, registrableDomain P entry.2.1.rpId = originDomain P entry.1

theorem SitesKept.step (hP : P.Lawful) {s : Background} (hs : SitesKept P s) {event : Event} (h : event.InScope P) :
    SitesKept P (step P s event) := by
  cases event with
  | create surroundings payload =>
    rcases hout : handlePasskeyCreate P surroundings payload s.items with ⟨response, items⟩
    simp only [PasskeyOrigins.step, hout]
    cases response with
    | created passkey =>
      have hok := rpId_of_created (congrArg Prod.fst hout)
      exact ⟨List.forall_mem_cons.2 ⟨((scoped_iff hP h.secure).2 h.own _ hok).2, hs.created⟩, hs.asserted⟩
    | fallback | failed | saveTarget | picker | asserted => exact ⟨hs.created, hs.asserted⟩
  | get surroundings payload =>
    rcases hout : handlePasskeyGet P surroundings s.lastSignCount payload s.items with ⟨response, items, counts⟩
    simp only [PasskeyOrigins.step, hout]
    cases response with
    | asserted passkey assertion =>
      obtain ⟨hok, hstored⟩ := rpId_of_asserted (congrArg Prod.fst hout)
      exact ⟨hs.created, List.forall_mem_cons.2 ⟨h.domain hP hok hstored, hs.asserted⟩⟩
    | fallback | failed | saveTarget | picker | created => exact ⟨hs.created, hs.asserted⟩
  | change items => exact ⟨hs.created, hs.asserted⟩

theorem sitesKept_run (hP : P.Lawful) (items : List Item) {events : List Event}
    (h : ∀ event ∈ events, event.InScope P) : SitesKept P (run P items events) := by
  have hfrom : ∀ (events : List Event) (s : Background), SitesKept P s → (∀ event ∈ events, event.InScope P) →
      SitesKept P (events.foldl (PasskeyOrigins.step P) s) := by
    intro events
    induction events with
    | nil => exact fun s hs _ => hs
    | cons event events ih =>
      intro s hs h
      obtain ⟨hfirst, hrest⟩ := List.forall_mem_cons.1 h
      exact ih _ (hs.step hP hfirst) hrest
  exact hfrom events _ ⟨by simp [start], by simp [start]⟩ h

/-- **Passkeys are scoped to their sites as long as no origin asks for a public suffix above its host**: one request
is scoped if and only if it does not, and in a run of such requests every passkey has the registrable domain of the
origin that it was made for, no origin of another one can ask for it, and it is used for none of another. -/
theorem passkeys_scoped (hP : P.Lawful) :
    (∀ origin rpId, HttpsOrigin P origin → (Scoped P origin rpId ↔ ¬ AsksForPublicSuffix P origin rpId)) ∧
      ∀ (items : List Item) (events : List Event), (∀ event ∈ events, event.InScope P) →
        (∀ entry ∈ (run P items events).created,
          registrableDomain P entry.2.rpId = originDomain P entry.1 ∧
            ∀ origin rpId, InScope P origin rpId →
              deriveRpId P origin rpId = .ok (normalizeHost P entry.2.rpId) →
                originDomain P origin = originDomain P entry.1) ∧
          ∀ entry ∈ (run P items events).asserted,
            registrableDomain P entry.2.1.rpId = originDomain P entry.1 := by
  refine ⟨fun origin rpId horigin => scoped_iff hP horigin, fun items events h => ?_⟩
  have hkept := sitesKept_run hP items h
  refine ⟨fun entry hentry => ⟨hkept.created entry hentry, fun origin rpId hscope hok => ?_⟩, hkept.asserted⟩
  rw [← hkept.created entry hentry]
  exact (hscope.domain hP hok rfl).symm

/-! ## Two sites -/

/-- Unlocked, with a vault of the user's own, and nothing fails. -/
def exampleSurroundings : Surroundings where
  unlocked := true
  vaults := [⟨"v".toList, .owner⟩]
  now := 1000
  keypair := some ⟨"private".toList, "public".toList, "credential".toList⟩
  newItemId := "1".toList
  signs := true
  persists := true

/-- One origin makes a passkey for the relying party, and another one uses it. -/
def exampleEvents (maker user rpId : String) : List Event :=
  [.create exampleSurroundings ⟨maker.toList, rpId.toList, "Site".toList, "u".toList, "ann".toList, "Ann".toList, none⟩,
    .get exampleSurroundings ⟨user.toList, rpId.toList, [], "hash".toList, "credential".toList⟩]

/-- Two hosts of one site share the passkey. -/
theorem passkeys_scoped_example :
    let s := run plainPlatform [] (exampleEvents "https://login.example.co.uk" "https://shop.example.co.uk" "example.co.uk")
    s.asserted.length = 1 ∧
      ∀ entry ∈ s.asserted, registrableDomain plainPlatform entry.2.1.rpId = originDomain plainPlatform entry.1 := by
  refine ⟨by decide +kernel, ((passkeys_scoped plainPlatform_lawful).2 [] _ fun event hevent => ?_).2⟩
  have hpublic : isPublicSuffix (normalizeHost plainPlatform "example.co.uk".toList) = false := by decide +kernel
  have hown : ∀ origin, ¬ AsksForPublicSuffix plainPlatform origin "example.co.uk".toList := fun origin => by
    rintro ⟨-, -, -, hasks⟩
    rw [hpublic] at hasks
    exact Bool.false_ne_true hasks
  simp only [exampleEvents, List.mem_cons, List.not_mem_nil, or_false] at hevent
  rcases hevent with rfl | rfl
  · exact ⟨⟨by decide, "login.example.co.uk".toList, by decide +kernel, Or.inl (by decide +kernel)⟩, hown _⟩
  · exact ⟨⟨by decide, "shop.example.co.uk".toList, by decide +kernel, Or.inl (by decide +kernel)⟩, hown _⟩

/-- A site makes a passkey for a public suffix above it, and a site of another registrable domain uses it. -/
theorem passkeys_cross_sites :
    let s := run plainPlatform [] (exampleEvents "https://bbc.co.uk" "https://itv.co.uk" "co.uk")
    ¬ Scoped plainPlatform "https://bbc.co.uk".toList "co.uk".toList ∧
      s.created.map (fun entry => (entry.2.credentialId, originDomain plainPlatform entry.1)) =
        [("credential".toList, "bbc.co.uk".toList)] ∧
      s.asserted.map (fun entry => (entry.2.1.credentialId, originDomain plainPlatform entry.1)) =
        [("credential".toList, "itv.co.uk".toList)] := by
  refine ⟨fun hscoped => ?_, by decide +kernel, by decide +kernel⟩
  have hdomain := (hscoped "co.uk".toList (by decide +kernel)).2
  exact absurd hdomain (by decide +kernel)

end Bittery.PasskeyOrigins
