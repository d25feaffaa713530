/-
The other readings of "the same site": the ranking of autofill suggestions (`autofill-ranking.ts`) and the
Android credential provider (`DomainMatch.kt`).
-/
import Bittery.Client.HostnameFacts

namespace Bittery.Hostnames

open Lib.Labels

/-! ## Ranking suggestions -/

namespace UrlMatchScore

def EXACT : Nat := 100
def PARENT_DOMAIN : Nat := 80
def SUBDOMAIN : Nat := 70
def SIBLING_DOMAIN : Nat := 40
def NONE : Nat := 0

end UrlMatchScore

/-- What the ranking reads of an item. `updatedAt` is the parsed time, zero where there is none. -/
structure RankedItem where
  id : Text
  url : Text
  urls : List Text
  title : Text
  favorite : Bool
  updatedAt : Nat
deriving DecidableEq, Repr

def getItemUrls (item : RankedItem) : List Text :=
  ((item.url :: item.urls).filter fun value => trim isSpace value ≠ []).eraseDups

def scoreUrlMatch (P : UrlPlatform) (url targetHostname : Text) : Nat :=
  let itemHost := (parseHostname P url).getD []
  let target := normalizeHost P targetHostname
  if itemHost = [] ∨ target = [] then UrlMatchScore.NONE
  else if itemHost = target then UrlMatchScore.EXACT
  else if Above '.' itemHost target then UrlMatchScore.PARENT_DOMAIN
  else if Above '.' target itemHost then UrlMatchScore.SUBDOMAIN
  else if registrableDomain P itemHost = registrableDomain P target then UrlMatchScore.SIBLING_DOMAIN
  else UrlMatchScore.NONE

/-- The loop stops at an exact match. -/
def bestScore (score : Text → Nat) : Nat → List Text → Nat
  | best, [] => best
  | best, url :: urls =>
    let best := if score url > best then score url else best
    if best = UrlMatchScore.EXACT then best else bestScore score best urls

def scoreItemForHostname (P : UrlPlatform) (item : RankedItem) (targetHostname : Text) : Nat :=
  bestScore (fun url => scoreUrlMatch P url targetHostname) UrlMatchScore.NONE (getItemUrls item)

/-- Not after: a better score, a favourite, a later change, then by title in the order of the locale. -/
def ranksBefore (titleBefore : Text → Text → Bool) (a b : RankedItem × Nat) : Bool :=
  if b.2 ≠ a.2 then b.2 < a.2
  else if a.1.favorite ≠ b.1.favorite then a.1.favorite
  else if b.1.updatedAt ≠ a.1.updatedAt then b.1.updatedAt < a.1.updatedAt
  else titleBefore a.1.title b.1.title

def rankItemsForHostname (P : UrlPlatform) (titleBefore : Text → Text → Bool) (items : List RankedItem)
    (hostname : Text) : List RankedItem :=
  let scored := items.map fun item => (item, scoreItemForHostname P item hostname)
  let relevant := scored.filter fun entry => entry.2 > UrlMatchScore.NONE
  (relevant.mergeSort (ranksBefore titleBefore)).map Prod.fst

/-! ## The Android credential provider -/

/-- What decides on Android: `lowercase`, `IDN.toASCII` (nothing where it throws) and `isDigit`. -/
structure AndroidPlatform where
  lowercase : Text → Text
  toASCII : Text → Option Text
  isDigit : Char → Bool

namespace DomainMatch

/-- What Kotlin's `trim` removes: the separators of Unicode and the separators of information. -/
def isWhitespace (c : Char) : Bool :=
  let n := c.toNat
  (9 ≤ n && n ≤ 13) || (0x1C ≤ n && n ≤ 0x20) || n = 0xA0 || n = 0x1680 || (0x2000 ≤ n && n ≤ 0x200A) ||
    n = 0x2028 || n = 0x2029 || n = 0x202F || n = 0x205F || n = 0x3000

def normalizeHost (K : AndroidPlatform) (value : Text) : Text :=
  if value.all isWhitespace then []
  else
    let host := trimDots (dropPort K.isDigit (authority (dropScheme (K.lowercase (trim isWhitespace value)))))
    (K.toASCII host).getD host

def registrableDomain (K : AndroidPlatform) (host : Text) : Text := registrableOf (normalizeHost K host)

def lookupKeys (K : AndroidPlatform) (host : Text) : List Text :=
  let normalized := normalizeHost K host
  if normalized = [] then []
  else
    let registrable := registrableDomain K normalized
    if registrable = normalized then [normalized] else [normalized, registrable]

def «matches» (K : AndroidPlatform) (left right : Text) : Bool :=
  let a := normalizeHost K left
  let b := normalizeHost K right
  if a = [] ∨ b = [] then false
  else if a = b then true
  else if Above '.' b a ∧ !isPublicSuffix b then true
  else if Above '.' a b ∧ !isPublicSuffix a then true
  else if isPublicSuffix a ∨ isPublicSuffix b then false
  else registrableDomain K a = registrableDomain K b

end DomainMatch

/-! ## Suggestions against matches -/

section Ranking

variable {P : UrlPlatform} {url page : Text}

theorem none_lt_bestScore {score : Text → Nat} {best : Nat} {urls : List Text} :
    UrlMatchScore.NONE < bestScore score best urls ↔
      UrlMatchScore.NONE < best ∨ ∃ url ∈ urls, UrlMatchScore.NONE < score url := by
  induction urls generalizing best with
  | nil => simp [bestScore]
  | cons url urls ih =>
    have hbest : UrlMatchScore.NONE < (if score url > best then score url else best) ↔
        UrlMatchScore.NONE < best ∨ UrlMatchScore.NONE < score url := by
      simp only [UrlMatchScore.NONE]
      split <;> omega
    rw [bestScore]
    simp only [List.exists_mem_cons_iff]
    rw [← or_assoc, ← hbest]
    split_ifs with hexact hexact hexact
    · simp [hexact, UrlMatchScore.NONE, UrlMatchScore.EXACT]
    · exact ih
    · simp [hexact, UrlMatchScore.NONE, UrlMatchScore.EXACT]
    · exact ih

theorem mem_rankItemsForHostname {titleBefore : Text → Text → Bool} {items : List RankedItem} {item : RankedItem} :
    item ∈ rankItemsForHostname P titleBefore items page ↔
      item ∈ items ∧ ∃ url ∈ getItemUrls item, UrlMatchScore.NONE < scoreUrlMatch P url page := by
  have hscore : UrlMatchScore.NONE < scoreItemForHostname P item page ↔
      ∃ url ∈ getItemUrls item, UrlMatchScore.NONE < scoreUrlMatch P url page := by
    rw [scoreItemForHostname, none_lt_bestScore]
    simp
  simp only [rankItemsForHostname, List.mem_map, List.mem_mergeSort, List.mem_filter, decide_eq_true_eq]
  rw [← hscore]
  constructor
  · rintro ⟨-, ⟨⟨found, hfound, rfl⟩, hpos⟩, rfl⟩
    exact ⟨hfound, hpos⟩
  · rintro ⟨hmem, hpos⟩
    exact ⟨_, ⟨⟨item, hmem, rfl⟩, hpos⟩, rfl⟩

/-- Both readers take the same host from the text. -/
def ReadAlike (P : UrlPlatform) (url : Text) : Prop :=
  ReadsHost P url ∧ parseHostname P url = some (normalizeHost P url)

/-- One of the hosts is a public suffix above the other. -/
def ThroughPublicSuffix (P : UrlPlatform) (a b : Text) : Prop :=
  (Above '.' (normalizeHost P a) (normalizeHost P b) ∧ isPublicSuffix (normalizeHost P a)) ∨
    (Above '.' (normalizeHost P b) (normalizeHost P a) ∧ isPublicSuffix (normalizeHost P b))

/-- **The ranking counts the registrable domain, and the public suffixes of a host as well.** -/
theorem none_lt_scoreUrlMatch (hP : P.Lawful) (hurl : ReadAlike P url) (hpage : ReadsHost P page) :
    UrlMatchScore.NONE < scoreUrlMatch P url page ↔
      registrableDomain P url = registrableDomain P page ∨ ThroughPublicSuffix P url page := by
  obtain ⟨hhost, hread⟩ := hurl
  have hne : ¬ (normalizeHost P url = [] ∨ normalizeHost P page = []) := not_or.2
    ⟨ne_nil_of_labels hhost.labels, ne_nil_of_labels hpage.labels⟩
  have hhost' : IsHost P (normalizeHost P url) := hhost
  have hpage' : IsHost P (normalizeHost P page) := hpage
  simp only [scoreUrlMatch, hread, Option.getD_some, if_neg hne, registrableDomain, hhost'.normalizeHost hP,
    hpage'.normalizeHost hP, ThroughPublicSuffix]
  generalize normalizeHost P url = item at hhost' hne
  generalize normalizeHost P page = target at hpage' hne
  split_ifs with heq hparent hsub hsibling
  · simp [heq, UrlMatchScore.NONE, UrlMatchScore.EXACT]
  · refine iff_of_true (by decide) ?_
    cases hpublic : isPublicSuffix item with
    | true => exact Or.inr (Or.inl ⟨hparent, rfl⟩)
    | false => exact Or.inl (registrableOf_of_above hP hparent hhost' hpage' hpublic).symm
  · refine iff_of_true (by decide) ?_
    cases hpublic : isPublicSuffix target with
    | true => exact Or.inr (Or.inr ⟨hsub, rfl⟩)
    | false => exact Or.inl (registrableOf_of_above hP hsub hpage' hhost' hpublic)
  · exact iff_of_true (by decide) (Or.inl hsibling)
  · refine iff_of_false (lt_irrefl _) ?_
    rintro (hsame | ⟨habove, -⟩ | ⟨habove, -⟩)
    · exact hsibling hsame
    · exact hparent habove
    · exact hsub habove

end Ranking

/-! ## The two platforms -/

section Android

variable {P : UrlPlatform} {K : AndroidPlatform}

/-- The platforms map case alike and make the same host of a host. -/
structure AndroidPlatform.Agrees (K : AndroidPlatform) (P : UrlPlatform) : Prop where
  lowercase : ∀ value, K.lowercase value = P.toLowerCase value
  host : ∀ host, (K.toASCII host).getD host = (P.hostname (https host)).getD host

/-- Both platforms see the same edges and the same port. -/
def SameEdges (K : AndroidPlatform) (P : UrlPlatform) (value : Text) : Prop :=
  let reduced := authority (dropScheme (P.toLowerCase (trim isSpace value)))
  trim DomainMatch.isWhitespace value = trim isSpace value ∧
    dropPort K.isDigit reduced = dropPort Char.isDigit reduced

instance (value : Text) : Decidable (SameEdges K P value) := inferInstanceAs (Decidable (_ ∧ _))

theorem normalizeHost_android (hP : P.Lawful) (hK : K.Agrees P) {value : Text} (h : SameEdges K P value) :
    DomainMatch.normalizeHost K value = normalizeHost P value := by
  obtain ⟨htrim, hport⟩ := h
  have hlower : P.toLowerCase [] = [] := hP.lowercase (by simp)
  rw [DomainMatch.normalizeHost, normalizeHost]
  split_ifs with hblank hempty hempty
  · rfl
  · have hnil : trim isSpace value = [] := by
      rw [← htrim, trim, List.dropWhile_eq_nil_iff.2 (List.all_eq_true.1 hblank)]
      rfl
    simp only [hnil, hlower]
    exact (by rw [show trimDots (dropPort Char.isDigit (authority (dropScheme []))) = [] from rfl, hP.empty]; rfl)
  · exact absurd (by simp [hempty]) hblank
  · simp only [hK.lowercase, htrim, hport]
    exact hK.host _

/-- The text and the host it is reduced to have the same edges and ports on both platforms. -/
def ReadAlikeOnAndroid (K : AndroidPlatform) (P : UrlPlatform) (value : Text) : Prop :=
  SameEdges K P value ∧ SameEdges K P (normalizeHost P value)

instance (value : Text) : Decidable (ReadAlikeOnAndroid K P value) := inferInstanceAs (Decidable (_ ∧ _))

theorem registrableDomain_android (hP : P.Lawful) (hK : K.Agrees P) {value : Text} (h : SameEdges K P value) :
    DomainMatch.registrableDomain K value = registrableDomain P value := by
  rw [DomainMatch.registrableDomain, registrableDomain, normalizeHost_android hP hK h]

theorem matches_android (hP : P.Lawful) (hK : K.Agrees P) {a b : Text} (ha : ReadAlikeOnAndroid K P a)
    (hb : ReadAlikeOnAndroid K P b) : DomainMatch.«matches» K a b = hostnameMatches P a b := by
  simp only [DomainMatch.«matches», hostnameMatches, normalizeHost_android hP hK ha.1, normalizeHost_android hP hK hb.1,
    registrableDomain_android hP hK ha.2, registrableDomain_android hP hK hb.2]

theorem lookupKeys_android (hP : P.Lawful) (hK : K.Agrees P) {value : Text} (h : ReadAlikeOnAndroid K P value) :
    DomainMatch.lookupKeys K value = domainLookupKeys P value := by
  simp only [DomainMatch.lookupKeys, domainLookupKeys, normalizeHost_android hP hK h.1,
    registrableDomain_android hP hK h.2]

end Android

/-! ## All formulations -/

variable {P : UrlPlatform}

def plainAndroid : AndroidPlatform where
  lowercase := plainPlatform.toLowerCase
  toASCII := fun host => plainPlatform.hostname (https host)
  isDigit := Char.isDigit

end Bittery.Hostnames
