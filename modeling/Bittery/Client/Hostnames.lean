/-
Which saved credential belongs to which site: `hostname.ts`.

The platform's URL parser and its case mapping are parameters. A text is its list of characters, and a
missing value is the empty text.
-/
import Bittery.Lib.Labels
import Mathlib.Data.List.DropRight

namespace Bittery.Hostnames

open Lib.Labels

abbrev Text := List Char

/-- What the platform decides. -/
structure UrlPlatform where
  toLowerCase : Text → Text
  /-- `new URL(value).hostname`, nothing where it throws. -/
  hostname : Text → Option Text

def https (host : Text) : Text := "https://".toList ++ host

def MULTI_LABEL_PUBLIC_SUFFIXES : List Text :=
  ["co.uk", "org.uk", "me.uk", "ltd.uk", "plc.uk", "net.uk", "sch.uk", "ac.uk", "gov.uk", "nhs.uk", "com.au",
    "net.au", "org.au", "edu.au", "gov.au", "id.au", "co.nz", "net.nz", "org.nz", "govt.nz", "ac.nz", "co.jp",
    "ne.jp", "or.jp", "ac.jp", "go.jp", "co.kr", "or.kr", "com.tw", "com.cn", "net.cn", "org.cn", "gov.cn",
    "com.hk", "com.sg", "co.in", "net.in", "org.in", "gov.in", "ac.in", "com.my", "com.ph", "com.pk", "co.th",
    "co.id", "com.vn", "com.bd", "com.br", "net.br", "org.br", "gov.br", "com.mx", "com.ar", "com.co",
    "com.pe", "com.uy", "com.ve", "com.ec", "com.bo", "com.py", "com.do", "com.gt", "com.pa", "co.cr", "co.za",
    "org.za", "net.za", "gov.za", "com.ng", "com.eg", "com.gh", "co.ke", "co.il", "com.tr", "gov.tr", "edu.tr",
    "com.sa", "com.ua", "com.ru", "com.pl", "com.gr", "com.es", "com.pt", "com.cy", "com.hr", "co.rs"].map
    String.toList

/-! ## Reducing a text to a host -/

/-- What `trim` removes: white space and the byte order mark. -/
def isSpace (c : Char) : Bool :=
  let n := c.toNat
  (9 ≤ n && n ≤ 13) || n = 0x20 || n = 0xA0 || n = 0x1680 || (0x2000 ≤ n && n ≤ 0x200A) || n = 0x2028 ||
    n = 0x2029 || n = 0x202F || n = 0x205F || n = 0x3000 || n = 0xFEFF

def trim (isSpace : Char → Bool) (value : Text) : Text := (value.dropWhile isSpace).rdropWhile isSpace

/-- Without what `/^[a-z][a-z0-9+.-]*:\/\//` matches. -/
def dropScheme (value : Text) : Text :=
  match value with
  | [] => []
  | first :: rest =>
    let after := rest.dropWhile fun c => c.isLower || c.isDigit || c = '+' || c = '.' || c = '-'
    if first.isLower && "://".toList.isPrefixOf after then after.drop 3 else value

/-- Up to the path, the query or the fragment, and past the userinfo. -/
def authority (value : Text) : Text :=
  (value.takeWhile fun c => !(c = '/' || c = '?' || c = '#')).rtakeWhile (· ≠ '@')

/-- The part of the authority that is the host. After an IPv6 literal everything is the port. -/
def dropPort (isDigit : Char → Bool) (host : Text) : Text :=
  if host.head? = some '[' then
    if ']' ∈ host then host.takeWhile (· ≠ ']') ++ [']'] else host
  else
    let port := host.rtakeWhile (· ≠ ':')
    if ':' ∈ host ∧ port ≠ [] ∧ port.all isDigit then host.take (host.length - port.length - 1) else host

def trimDots (host : Text) : Text := trim (· = '.') host

/-- Where the URL parser refuses the host, it stays as it is. -/
def normalizeHost (P : UrlPlatform) (value : Text) : Text :=
  if value = [] then []
  else
    let host := trimDots (dropPort Char.isDigit (authority (dropScheme (P.toLowerCase (trim isSpace value)))))
    (P.hostname (https host)).getD host

def parseHostname (P : UrlPlatform) (urlValue : Text) : Option Text :=
  let url := if "http://".toList.isPrefixOf urlValue || "https://".toList.isPrefixOf urlValue then urlValue
    else https urlValue
  (P.hostname url).map (normalizeHost P)

/-! ## Registrable domains -/

/-- `/^\d{1,3}(?:\.\d{1,3}){3}$/` -/
def isIpv4 (host : Text) : Bool :=
  let labels := host.splitOn '.'
  labels.length = 4 && labels.all fun label => 1 ≤ label.length && label.length ≤ 3 && label.all Char.isDigit

def suffixLabels (labels : List Text) : Nat :=
  (List.range' 1 (labels.length - 1)).foldl
    (fun suffixLabels index =>
      let candidate := ['.'].intercalate (labels.drop index)
      if MULTI_LABEL_PUBLIC_SUFFIXES.contains candidate then max suffixLabels (labels.length - index)
      else suffixLabels)
    1

/-- The body of `registrableDomain`, for a host that is normalized. -/
def registrableOf (normalized : Text) : Text :=
  if normalized = [] ∨ isIpv4 normalized ∨ normalized.head? = some '[' then normalized
  else
    let labels := normalized.splitOn '.'
    let suffixLabels := suffixLabels labels
    if labels.length ≤ suffixLabels then normalized
    else ['.'].intercalate (labels.drop (labels.length - suffixLabels - 1))

def registrableDomain (P : UrlPlatform) (host : Text) : Text := registrableOf (normalizeHost P host)

def isPublicSuffix (host : Text) : Bool := !host.contains '.' || MULTI_LABEL_PUBLIC_SUFFIXES.contains host

def domainLookupKeys (P : UrlPlatform) (host : Text) : List Text :=
  let normalized := normalizeHost P host
  if normalized = [] then []
  else
    let registrable := registrableDomain P normalized
    if registrable = normalized then [normalized] else [normalized, registrable]

def hostnameMatches (P : UrlPlatform) (itemUrl targetHostname : Text) : Bool :=
  let item := normalizeHost P itemUrl
  let target := normalizeHost P targetHostname
  if item = [] ∨ target = [] then false
  else if item = target then true
  else if Above '.' target item ∧ !isPublicSuffix target then true
  else if Above '.' item target ∧ !isPublicSuffix item then true
  else if isPublicSuffix item ∨ isPublicSuffix target then false
  else registrableDomain P item = registrableDomain P target

/-! ## What the platform promises -/

/-- A printable ASCII character but the capitals and the characters that no domain may have. -/
def isHostChar (c : Char) : Bool :=
  '!' ≤ c && c ≤ '~' && !c.isUpper && !("#/:<>?@[\\]^|%".toList.contains c)

/-- The text of a parsed host: a domain, an IPv4 address, or an IPv6 address in brackets. -/
def IsHostText (host : Text) : Prop :=
  host.all isHostChar ∨
    ∃ address : Text, (∀ c ∈ address, c ∈ "0123456789abcdef:".toList) ∧ host = '[' :: (address ++ [']'])

/-- A web address, which is all that the parser is asked for. -/
def IsWebUrl (url : Text) : Prop := "http://".toList <+: url ∨ "https://".toList <+: url

def Accepted (P : UrlPlatform) (host : Text) : Prop := P.hostname (https host) = some host

/-- What the URL standard says of the hosts of web addresses, as far as it is relied on. -/
structure UrlPlatform.Lawful (P : UrlPlatform) : Prop where
  lowercase : ∀ {value : Text}, (∀ c ∈ value, c.toNat < 128 ∧ c.isUpper = false) → P.toLowerCase value = value
  empty : P.hostname (https []) = none
  text : ∀ {url host : Text}, IsWebUrl url → P.hostname url = some host → IsHostText host
  /-- A parsed host is parsed to itself. -/
  stable : ∀ {url host : Text}, IsWebUrl url → P.hostname url = some host → Accepted P host
  /-- The root's empty label can be left out. -/
  root : ∀ {host : Text}, [] ∉ host.splitOn '.' → Accepted P (host ++ ['.']) → Accepted P host
  /-- The parent of a domain is a domain. -/
  parent : ∀ {upper lower : Text}, Above '.' upper lower → [] ∉ upper.splitOn '.' → isIpv4 lower = false →
    Accepted P lower → Accepted P upper
  /-- One to three numbers are an IPv4 address too. -/
  ipv4Tail : ∀ {upper lower : Text}, Above '.' upper lower → isIpv4 lower → Accepted P lower →
    ∃ address, P.hostname (https upper) = some address ∧ isIpv4 address
  /-- A host that ends in a number is an IPv4 address. -/
  numeric : ∀ {host lead label : Text}, Accepted P host → host = lead ++ '.' :: label → label ≠ [] →
    label.all Char.isDigit → isIpv4 host

/-- A host whose labels are not empty. -/
structure IsHost (P : UrlPlatform) (host : Text) : Prop where
  accepted : Accepted P host
  labels : [] ∉ host.splitOn '.'

end Bittery.Hostnames
