/-
The signed cursors and the pages of `http/pagination.rs`.

A cursor is a payload in base64 with a tag over it. The payload says for whom, for which list and for
which filters the cursor was made, so that it is of use nowhere else, and after which element the next
page begins.
-/
import Bittery.Lib.Base64
import Bittery.Lib.Hex
import Bittery.Lib.Json
import Bittery.Lib.Page
import Bittery.Server.Bootstrap

namespace Bittery

open Lib Lib.Json Lib.Page

/-! ## Cursors -/

structure CursorContext where
  principal : String
  scope : String
  filters : String
  jwtSecret : String
deriving DecidableEq, Repr

structure CursorPayload where
  version : Nat
  principal : String
  scope : String
  filters : String
  key : String
deriving DecidableEq, Repr

/-- What the cursors are made with: SHA-256, HMAC-SHA-256, and `serde_json` for the payload. -/
structure CursorCodec where
  sha256 : List UInt8 → List UInt8
  hmac : List UInt8 → List UInt8 → List UInt8
  toVec : CursorPayload → List UInt8
  fromSlice : List UInt8 → Option CursorPayload

/-- `split_once`. -/
def splitOnce (delimiter : Char) (text : List Char) : Option (List Char × List Char) :=
  if delimiter ∈ text then some (text.takeWhile (· ≠ delimiter), (text.dropWhile (· ≠ delimiter)).tail) else none

def invalidCursor : ApiError := .badRequest .invalidCursor "The page cursor is invalid for this request."

namespace CursorCodec

variable (c : CursorCodec)

def cursorSecret (jwtSecret : String) : List UInt8 := c.sha256 (utf8 ("bittery-page-cursor-v1\x00" ++ jwtSecret))

def principalDigest (principal : String) : String := String.ofList (Hex.encode (c.sha256 (utf8 principal)))

def payload (context : CursorContext) (key : String) : CursorPayload :=
  ⟨1, c.principalDigest context.principal, context.scope, context.filters, key⟩

/-- The tag over an encoded payload. -/
def tag (jwtSecret : String) (encodedPayload : List Char) : List UInt8 :=
  c.hmac (c.cursorSecret jwtSecret) (utf8 (String.ofList encodedPayload))

def encodeCursor (context : CursorContext) (key : String) : String :=
  let encodedPayload := Base64.encodeUrl (c.toVec (c.payload context key))
  String.ofList (encodedPayload ++ '.' :: Base64.encodeUrl (c.tag context.jwtSecret encodedPayload))

def decodeCursor (cursor : String) (context : CursorContext) : Except ApiError String :=
  match splitOnce '.' cursor.toList with
  | none => .error invalidCursor
  | some (encodedPayload, encodedSignature) =>
    match Base64.decodeUrl encodedSignature with
    | none => .error invalidCursor
    | some signature =>
      if c.tag context.jwtSecret encodedPayload ≠ signature then .error invalidCursor
      else
        match (Base64.decodeUrl encodedPayload).bind c.fromSlice with
        | none => .error invalidCursor
        | some payload =>
          if payload.version ≠ 1 ∨ payload.principal ≠ c.principalDigest context.principal ∨ payload.scope ≠ context.scope ∨
              payload.filters ≠ context.filters then .error invalidCursor
          else .ok payload.key

end CursorCodec

/-! ## Pages -/

structure PageRequest where
  cursor : Option String
  limit : Nat
deriving DecidableEq, Repr

structure CursorPage (α : Type) where
  items : List α
  nextCursor : Option String
  hasMore : Bool
deriving Repr

def itemTooLarge : ApiError := .payloadTooLarge "A single response item exceeds the page byte budget."

def validatePageRequest (request : PageRequest) : Except ApiError Unit :=
  if request.limit = 0 ∨ MAX_PAGE_SIZE < request.limit then
    .error (.badRequest .invalidPageLimit ("limit must be between 1 and " ++ toString MAX_PAGE_SIZE))
  else .ok ()

/-- The loop of `page_values`; `bytes` and `count` are of the items before, `size` is what an item takes as JSON. -/
def pageItems {α : Type} (size : α → Nat) (limit : Nat) : Nat → Nat → List α → Except ApiError (List α)
  | _, _, [] => .ok []
  | bytes, count, value :: values =>
    if limit ≤ count then .ok []
    else
      let itemBytes := size value + (decide (0 < count)).toNat
      if RESPONSE_PAGE_ITEMS_BYTES < bytes + itemBytes then
        if count = 0 then .error itemTooLarge else .ok []
      else (pageItems size limit (bytes + itemBytes) (count + 1) values).map (value :: ·)

section Pages

variable {α : Type} (c : CursorCodec) (context : CursorContext) (size : α → Nat) (key : α → String)

/-- Where a page begins: after the element that the cursor names. -/
def pageStart (values : List α) : Option String → Except ApiError Nat
  | none => .ok 0
  | some cursor => do
    let cursorKey ← c.decodeCursor cursor context
    match values.findIdx? fun value => key value = cursorKey with
    | some index => .ok (index + 1)
    | none => .error invalidCursor

/-- The page of `items`, when there may be more. -/
def CursorPage.ofItems (items : List α) (hasMore : Bool) : CursorPage α :=
  ⟨items, if hasMore then items.getLast?.map fun value => c.encodeCursor context (key value) else none, hasMore⟩

def pageValues (values : List α) (request : PageRequest) : Except ApiError (CursorPage α) := do
  validatePageRequest request
  let start ← pageStart c context key values request.cursor
  let items ← pageItems size request.limit 2 0 (values.drop start)
  return .ofItems c context key items (start + items.length < values.length)

def decodePageKey (request : PageRequest) : Except ApiError (Option String) :=
  match request.cursor with
  | none => .ok none
  | some cursor => (c.decodeCursor cursor context).map some

def queryLimit (request : PageRequest) : Except ApiError Nat := do
  validatePageRequest request
  return request.limit + 1

def pagePrefetchedWithMore (values : List α) (sourceHasMore : Bool) (request : PageRequest) :
    Except ApiError (CursorPage α) := do
  validatePageRequest request
  let countTruncated : Bool := request.limit < values.length
  match truncateSerialized size RESPONSE_PAGE_ITEMS_BYTES (values.take request.limit) with
  | none => throw itemTooLarge
  | some (items, bytesTruncated) => return .ofItems c context key items (sourceHasMore || countTruncated || bytesTruncated)

/-- A handler whose query is given the decoded key and one more than the limit, and returns rows and
whether it left some out. -/
def pageQuery (query : Option String → Nat → List α × Bool) (request : PageRequest) : Except ApiError (CursorPage α) := do
  let cursor ← decodePageKey c context request
  let limit ← queryLimit request
  let rows := query cursor limit
  pagePrefetchedWithMore c context size key rows.1 rows.2 request

end Pages

/-! ## What a cursor is worth -/

theorem splitOnce_append {delimiter : Char} {before rest : List Char} (h : ∀ c ∈ before, c ≠ delimiter) :
    splitOnce delimiter (before ++ delimiter :: rest) = some (before, rest) := by
  have hbefore : ∀ c ∈ before, decide (c ≠ delimiter) = true := fun c hc => decide_eq_true (h c hc)
  rw [splitOnce, if_pos (by simp), List.takeWhile_append_of_pos hbefore, List.dropWhile_append_of_pos hbefore,
    List.takeWhile_cons_of_neg (by simp), List.dropWhile_cons_of_neg (by simp), List.append_nil, List.tail_cons]

namespace CursorCodec

variable {c : CursorCodec} {context context' : CursorContext} {key : String}

/-- The payload of a cursor, as the cursor has it. -/
def encodedPayload (c : CursorCodec) (context : CursorContext) (key : String) : List Char :=
  Base64.encodeUrl (c.toVec (c.payload context key))

/-- What is assumed of `serde_json`: it reads the payload of a cursor as it wrote it. -/
def Restores (c : CursorCodec) (context : CursorContext) (key : String) : Prop :=
  c.fromSlice (c.toVec (c.payload context key)) = some (c.payload context key)

/-- Decoding a cursor that was encoded: the tag is compared, and then each part of the payload. -/
theorem decodeCursor_encodeCursor_eq (hserde : c.Restores context key) :
    c.decodeCursor (c.encodeCursor context key) context' =
      if c.tag context'.jwtSecret (c.encodedPayload context key) ≠ c.tag context.jwtSecret (c.encodedPayload context key) then
        .error invalidCursor
      else if c.principalDigest context.principal ≠ c.principalDigest context'.principal ∨ context.scope ≠ context'.scope ∨
          context.filters ≠ context'.filters then .error invalidCursor
      else .ok key := by
  unfold decodeCursor encodeCursor
  simp only [String.toList_ofList]
  rw [splitOnce_append fun _ h => Base64.mem_encodeUrl h]
  simp only [Base64.decodeUrl_encodeUrl, Option.bind_some, encodedPayload]
  rw [show c.fromSlice (c.toVec (c.payload context key)) = some (c.payload context key) from hserde]
  refine if_congr Iff.rfl rfl (if_congr ?_ rfl rfl)
  simp only [payload, ne_eq, not_true_eq_false, false_or]

/-- A cursor is decoded to its key where it was made. -/
theorem decodeCursor_encodeCursor (hserde : c.Restores context key) :
    c.decodeCursor (c.encodeCursor context key) context = .ok key := by
  rw [decodeCursor_encodeCursor_eq hserde, if_neg (by simp), if_neg (by simp)]

/-- What is assumed of the digests: that the tag of a payload is another one with another secret, and
that two principals have different digests. -/
structure Separates (c : CursorCodec) (context : CursorContext) (key : String) (context' : CursorContext) : Prop where
  secret : context'.jwtSecret ≠ context.jwtSecret →
    c.tag context'.jwtSecret (c.encodedPayload context key) ≠ c.tag context.jwtSecret (c.encodedPayload context key)
  principal : context'.principal ≠ context.principal → c.principalDigest context'.principal ≠ c.principalDigest context.principal

/-- A cursor is of no use anywhere else. -/
theorem decodeCursor_of_ne (hserde : c.Restores context key) (hseparates : c.Separates context key context')
    (hne : context' ≠ context) : c.decodeCursor (c.encodeCursor context key) context' = .error invalidCursor := by
  rw [decodeCursor_encodeCursor_eq hserde]
  by_cases hsecret : context'.jwtSecret = context.jwtSecret
  · rw [hsecret, if_neg (by simp), if_pos]
    by_contra hsame
    rw [not_or, not_or, not_not, not_not, not_not] at hsame
    obtain ⟨hdigest, hscope, hfilters⟩ := hsame
    have hprincipal : context'.principal = context.principal := by
      by_contra hprincipal
      exact hseparates.principal hprincipal hdigest.symm
    apply hne
    cases context
    cases context'
    simp only at hsecret hscope hfilters hprincipal
    rw [hsecret, hscope, hfilters, hprincipal]
  · rw [if_pos (hseparates.secret hsecret)]

end CursorCodec

/-! ## What a page has of the list -/

section Following

variable {α : Type} {c : CursorCodec} {context : CursorContext} {size : α → Nat} {key : α → String} {values : List α}

/-- The elements after the one that has a key. -/
def afterKey (key : α → String) (values : List α) : Option String → List α
  | none => values
  | some k => (values.dropWhile fun value => key value ≠ k).tail

/-- An element that fits a page by itself. -/
def fitsPage (size : α → Nat) (value : α) : Bool := decide (2 + size value ≤ RESPONSE_PAGE_ITEMS_BYTES)

/-- The keys of a list without repetition name the places of its elements. -/
theorem afterKey_of_append (hnodup : (values.map key).Nodup) {before rest : List α} {value : α}
    (h : values = before ++ value :: rest) : afterKey key values (some (key value)) = rest := by
  subst h
  rw [List.map_append, List.map_cons, List.nodup_append'] at hnodup
  obtain ⟨-, -, hdisjoint⟩ := hnodup
  have hbefore : ∀ a ∈ before, decide (key a ≠ key value) = true := by
    intro a ha
    rw [decide_eq_true_iff]
    intro he
    exact hdisjoint (List.mem_map_of_mem ha) (he ▸ List.mem_cons_self)
  rw [afterKey, List.dropWhile_append_of_pos hbefore, List.dropWhile_cons_of_neg (by simp), List.tail_cons]

/-- What is after an element is an end of the list. -/
theorem afterKey_suffix (k : Option String) : ∃ before, values = before ++ afterKey key values k := by
  cases k with
  | none => exact ⟨[], rfl⟩
  | some k =>
    have hdrop : values.dropWhile (fun value => decide (key value ≠ k)) <:+ values := List.dropWhile_suffix _
    obtain ⟨before, hbefore⟩ := (List.tail_suffix _).trans hdrop
    exact ⟨before, hbefore.symm⟩

/-- The next page begins where a page ended. -/
theorem afterKey_getLast (hnodup : (values.map key).Nodup) {k : Option String} {items rest : List α} {value : α}
    (h : afterKey key values k = items ++ rest) (hlast : items.getLast? = some value) :
    afterKey key values (some (key value)) = rest := by
  obtain ⟨before, hbefore⟩ := @afterKey_suffix _ key values k
  obtain ⟨init, rfl⟩ := List.getLast?_eq_some_iff.mp hlast
  have hsplit : values = (before ++ init) ++ value :: rest := by
    rw [hbefore, h]
    simp
  exact afterKey_of_append hnodup hsplit

/-- The loop of `page_values` keeps what `truncate_serialized` keeps of the elements up to the limit. -/
theorem pageItems_eq (limit : Nat) : ∀ (values : List α) (bytes count : Nat), pageItems size limit bytes count values =
    match keepCount size RESPONSE_PAGE_ITEMS_BYTES bytes count (values.take (limit - count)) with
    | none => .error itemTooLarge
    | some keep => .ok (values.take (keep - count))
  | [], bytes, count => by simp [pageItems, keepCount]
  | value :: values, bytes, count => by
    rw [pageItems]
    by_cases hlimit : limit ≤ count
    · rw [if_pos hlimit, Nat.sub_eq_zero_of_le hlimit, List.take_zero]
      simp [keepCount]
    · rw [if_neg hlimit, show limit - count = limit - (count + 1) + 1 by omega, List.take_succ_cons]
      simp only [keepCount, pageItems_eq limit values]
      split
      · split
        · rfl
        · simp
      · cases hkeep : keepCount size RESPONSE_PAGE_ITEMS_BYTES (bytes + (size value + (decide (0 < count)).toNat)) (count + 1)
            (values.take (limit - (count + 1))) with
        | none => rfl
        | some keep =>
          have hle := (keepCount_bounds hkeep).1
          show _ = Except.ok (List.take (keep - count) (value :: values))
          rw [show keep - count = keep - (count + 1) + 1 by omega, List.take_succ_cons]
          rfl

/-- What is kept of a list up to a limit: a beginning that fits, or nothing as the first element does not. -/
theorem truncateSerialized_fits {limit : Nat} (hlimit : 0 < limit) (l : List α) :
    (∃ items truncated, truncateSerialized size RESPONSE_PAGE_ITEMS_BYTES (l.take limit) = some (items, truncated) ∧
      Cut l items (decide (limit < l.length) || truncated) ∧ ∀ a ∈ items, fitsPage size a = true) ∨
    truncateSerialized size RESPONSE_PAGE_ITEMS_BYTES (l.take limit) = none ∧ ∃ a rest, l = a :: rest ∧ fitsPage size a = false := by
  cases htruncated : truncateSerialized size RESPONSE_PAGE_ITEMS_BYTES (l.take limit) with
  | none =>
    right
    obtain ⟨-, a, hhead, hlarge⟩ := keepCount_eq_none (Option.map_eq_none_iff.mp htruncated)
    obtain ⟨rest, hrest⟩ := List.head?_eq_some_iff.mp hhead
    obtain ⟨rest', hrest'⟩ := List.take_prefix limit l
    refine ⟨rfl, a, rest ++ rest', by rw [← hrest', hrest, List.cons_append], ?_⟩
    rw [fitsPage, decide_eq_false_iff_not]
    omega
  | some page =>
    left
    obtain ⟨items, truncated⟩ := page
    refine ⟨items, truncated, rfl, (Cut.of_take l hlimit).trans (.of_truncateSerialized htruncated), fun a ha => ?_⟩
    obtain ⟨keep, hkeep, he⟩ := Option.map_eq_some_iff.mp htruncated
    cases he
    exact decide_eq_true (keepCount_fits hkeep a ha)

/-! ## Readings -/

/-- What a reading by the element of a key returns: what it keeps of the elements after that one, and
whether it leaves some out; or an error, when the first of them does not fit. -/
def Cuts (c : CursorCodec) (context : CursorContext) (size : α → Nat) (key : α → String) (l : List α)
    (result : Except ApiError (CursorPage α)) : Prop :=
  (∃ items more, result = .ok (.ofItems c context key items more) ∧ Cut l items more ∧ ∀ a ∈ items, fitsPage size a = true) ∨
    result = .error itemTooLarge ∧ ∃ a rest, l = a :: rest ∧ fitsPage size a = false

theorem validatePageRequest_ok {cursor : Option String} {limit : Nat} (hpos : 0 < limit) (hmax : limit ≤ MAX_PAGE_SIZE) :
    validatePageRequest ⟨cursor, limit⟩ = .ok () := by
  rw [validatePageRequest, if_neg]
  show ¬ (limit = 0 ∨ MAX_PAGE_SIZE < limit)
  omega

/-- The index that a key is looked up at. -/
theorem pageStart_of_decode {cursor : Option String} {limit : Nat} {k : Option String} (hnodup : (values.map key).Nodup)
    (hdecode : decodePageKey c context ⟨cursor, limit⟩ = .ok k) (hk : ∀ k', k = some k' → ∃ value ∈ values, key value = k') :
    ∃ start, pageStart c context key values cursor = .ok start ∧ start ≤ values.length ∧
      values.drop start = afterKey key values k := by
  cases cursor with
  | none =>
    cases hdecode
    exact ⟨0, rfl, Nat.zero_le _, rfl⟩
  | some cursor =>
    simp only [decodePageKey] at hdecode
    cases hcursor : c.decodeCursor cursor context with
    | error e =>
      rw [hcursor] at hdecode
      cases hdecode
    | ok cursorKey =>
      rw [hcursor] at hdecode
      cases hdecode
      obtain ⟨value, hvalue, rfl⟩ := hk cursorKey rfl
      obtain ⟨before, rest, hsplit⟩ := List.append_of_mem hvalue
      have hfind : values.findIdx? (fun v => decide (key v = key value)) = some before.length := by
        rw [hsplit, List.map_append, List.map_cons, List.nodup_append'] at hnodup
        rw [hsplit, List.findIdx?_append, List.findIdx?_eq_none_iff.mpr, List.findIdx?_cons]
        · simp
        · intro a ha
          rw [decide_eq_false_iff_not]
          exact fun he => hnodup.2.2 (List.mem_map_of_mem ha) (he ▸ List.mem_cons_self)
      refine ⟨before.length + 1, ?_, ?_, ?_⟩
      · simp only [pageStart, hcursor, bind, Except.bind, hfind]
      · rw [hsplit, List.length_append, List.length_cons]
        omega
      · rw [afterKey_of_append hnodup hsplit, hsplit]
        simp

/-- `page_values` cuts what is after the element of the cursor. -/
theorem pageValues_cuts {cursor : Option String} {limit : Nat} {k : Option String} (hnodup : (values.map key).Nodup)
    (hpos : 0 < limit) (hmax : limit ≤ MAX_PAGE_SIZE) (hdecode : decodePageKey c context ⟨cursor, limit⟩ = .ok k)
    (hk : ∀ k', k = some k' → ∃ value ∈ values, key value = k') :
    Cuts c context size key (afterKey key values k) (pageValues c context size key values ⟨cursor, limit⟩) := by
  obtain ⟨start, hstart, hle, hdrop⟩ := pageStart_of_decode hnodup hdecode hk
  have hlength : (afterKey key values k).length = values.length - start := by rw [← hdrop, List.length_drop]
  simp only [pageValues, validatePageRequest_ok hpos hmax, hstart, hdrop, bind, Except.bind, pageItems_eq, Nat.sub_zero]
  rcases @truncateSerialized_fits _ size _ hpos (afterKey key values k) with
    ⟨items, truncated, htruncated, hcut, hfits⟩ | ⟨htruncated, a, rest, hleft, hlarge⟩
  · left
    obtain ⟨keep, hkeep, he⟩ := Option.map_eq_some_iff.mp htruncated
    cases he
    have hkept : (afterKey key values k).take keep = ((afterKey key values k).take limit).take keep := by
      have := (keepCount_bounds hkeep).2.1
      rw [List.length_take] at this
      rw [List.take_take]
      by_cases hshort : keep ≤ limit
      · rw [Nat.min_eq_left hshort]
      · omega
    refine ⟨((afterKey key values k).take limit).take keep, _, ?_, hcut, hfits⟩
    have hmore : decide (start + (((afterKey key values k).take limit).take keep).length < values.length) =
        (decide (limit < (afterKey key values k).length) || decide (keep < ((afterKey key values k).take limit).length)) := by
      rw [Bool.eq_iff_iff, hcut.more, decide_eq_true_iff]
      omega
    simp only [hkeep, hkept, pure, Except.pure, hmore]
  · right
    have hnone := Option.map_eq_none_iff.mp htruncated
    simp only [hnone]
    exact ⟨trivial, a, rest, hleft, hlarge⟩

/-- What a query answers that is asked for so many rows of a list: a beginning of the list, and when
it has not that many rows, whether it left some out. -/
structure Serves (l rows : List α) (more : Bool) (limit : Nat) : Prop where
  start : rows <+: l
  nonempty : l ≠ [] → rows ≠ []
  more : rows.length < limit → (more = true ↔ rows.length < l.length)

/-- A query with a limit serves. -/
theorem Serves.of_take (l : List α) {limit : Nat} (hlimit : 0 < limit) : Serves l (l.take limit) false limit :=
  ⟨List.take_prefix .., (Cut.of_take l hlimit).nonempty, fun h => by
    rw [List.length_take] at h ⊢
    simp only [Bool.false_eq_true, false_iff]
    omega⟩

/-- A handler cuts what its query serves. -/
theorem pageQuery_cuts {query : Option String → Nat → List α × Bool} {cursor : Option String} {limit : Nat} {k : Option String}
    (hpos : 0 < limit) (hmax : limit ≤ MAX_PAGE_SIZE) (hdecode : decodePageKey c context ⟨cursor, limit⟩ = .ok k)
    (hquery : Serves (afterKey key values k) (query k (limit + 1)).1 (query k (limit + 1)).2 (limit + 1)) :
    Cuts c context size key (afterKey key values k) (pageQuery c context size key query ⟨cursor, limit⟩) := by
  simp only [pageQuery, hdecode, queryLimit, pagePrefetchedWithMore, validatePageRequest_ok hpos hmax, bind, Except.bind, pure,
    Except.pure]
  rcases @truncateSerialized_fits _ size _ hpos (query k (limit + 1)).1 with
    ⟨items, truncated, htruncated, hcut, hfits⟩ | ⟨htruncated, a, rest, hrows, hlarge⟩
  · left
    refine ⟨items, (query k (limit + 1)).2 || decide (limit < (query k (limit + 1)).1.length) || truncated,
      by simp only [htruncated], ?_, hfits⟩
    by_cases hall : (query k (limit + 1)).1.length < limit + 1
    · rw [Bool.or_assoc]
      exact Cut.trans ⟨hquery.start, hquery.more hall, hquery.nonempty⟩ hcut
    · have hlong : decide (limit < (query k (limit + 1)).1.length) = true := decide_eq_true (by omega)
      have hrows : Cut (afterKey key values k) (query k (limit + 1)).1
          (decide ((query k (limit + 1)).1.length < (afterKey key values k).length)) :=
        ⟨hquery.start, decide_eq_true_iff, hquery.nonempty⟩
      have := hrows.trans hcut
      rw [hlong, Bool.true_or, Bool.or_true] at this
      rw [hlong, Bool.or_true, Bool.true_or]
      exact this
  · right
    obtain ⟨rest', hrest'⟩ := hquery.start
    exact ⟨by simp only [htruncated]; rfl, a, rest ++ rest', by rw [← hrest', hrows, List.cons_append], hlarge⟩

/-- What the cursor of a request leaves of the list. -/
def leftBy (c : CursorCodec) (context : CursorContext) (key : α → String) (values : List α) (limit : Option String → Nat)
    (cursor : Option String) : List α :=
  match decodePageKey c context ⟨cursor, limit cursor⟩ with
  | .ok k => afterKey key values k
  | .error _ => []

/-- The cursors that the pages of a list have. -/
def NamesElement (c : CursorCodec) (context : CursorContext) (key : α → String) (values : List α) (cursor : Option String) : Prop :=
  ∀ encoded, cursor = some encoded → ∃ value ∈ values, encoded = c.encodeCursor context (key value)

theorem NamesElement.decode (hserde : ∀ value ∈ values, c.Restores context (key value)) {cursor : Option String}
    (h : NamesElement c context key values cursor) (limit : Nat) : ∃ k, decodePageKey c context ⟨cursor, limit⟩ = .ok k ∧
      ∀ k', k = some k' → ∃ value ∈ values, key value = k' := by
  cases cursor with
  | none => exact ⟨none, rfl, fun k' hk' => by cases hk'⟩
  | some encoded =>
    obtain ⟨value, hvalue, rfl⟩ := h encoded rfl
    refine ⟨some (key value), ?_, fun k' hk' => ⟨value, hvalue, Option.some.inj hk'⟩⟩
    simp only [decodePageKey, CursorCodec.decodeCursor_encodeCursor (hserde value hvalue), Except.map]

/-- **Readings that cut what is left** return the elements of the list page by page. -/
theorem follow_of_cuts {read : Option String → Except ApiError (CursorPage α)} {limit : Option String → Nat}
    (hserde : ∀ value ∈ values, c.Restores context (key value)) (hnodup : (values.map key).Nodup)
    (hcuts : ∀ cursor k, decodePageKey c context ⟨cursor, limit cursor⟩ = .ok k →
      (∀ k', k = some k' → ∃ value ∈ values, key value = k') → Cuts c context size key (afterKey key values k) (read cursor))
    {pages : Nat} (hpages : values.length < pages) :
    follow (fun cursor => (read cursor).map fun page => (page.items, page.nextCursor)) pages none =
      some (values.takeWhile (fitsPage size), if values.all (fitsPage size) then none else some itemTooLarge) := by
  refine @follow_eq _ _ _ _ (NamesElement c context key values) (leftBy c context key values limit) (fitsPage size) _
    (fun cursor hcursor => ?_) _ none (fun _ he => by cases he) hpages
  obtain ⟨k, hdecode, hk⟩ := hcursor.decode hserde (limit cursor)
  have hleft : leftBy c context key values limit cursor = afterKey key values k := by rw [leftBy, hdecode]
  rw [Page.Continues, hleft]
  rcases hcuts cursor k hdecode hk with ⟨items, more, hread, hcut, hfits⟩ | ⟨hread, hlarge⟩
  · rw [hread]
    cases more with
    | false =>
      left
      obtain rfl := hcut.done
      exact ⟨rfl, hfits⟩
    | true =>
      right; left
      have hne : items ≠ [] := hcut.nonempty fun hnil => by
        have := hcut.more.mp rfl
        rw [hnil] at this
        exact Nat.not_lt_zero _ this
      have hlast : items.getLast? = some (items.getLast hne) := List.getLast?_eq_some_getLast _
      have hmem : items.getLast hne ∈ values := by
        obtain ⟨before, hbefore⟩ := @afterKey_suffix _ key values k
        rw [hbefore]
        exact List.mem_append_right _ (hcut.start.subset (List.getLast_mem hne))
      refine ⟨items, c.encodeCursor context (key (items.getLast hne)), ?_, hne, hfits, fun encoded he => ⟨_, hmem, (Option.some.inj he).symm⟩, ?_⟩
      · simp only [CursorPage.ofItems, Except.map, if_true, hlast, Option.map_some]
      · have hdecode' : decodePageKey c context ⟨some (c.encodeCursor context (key (items.getLast hne))),
            limit (some (c.encodeCursor context (key (items.getLast hne))))⟩ = .ok (some (key (items.getLast hne))) := by
          simp only [decodePageKey, CursorCodec.decodeCursor_encodeCursor (hserde _ hmem), Except.map]
        rw [leftBy, hdecode']
        simp only [afterKey_getLast hnodup hcut.eq_append hlast]
        exact hcut.eq_append
  · right; right
    obtain ⟨a, rest, hrows, hlarge⟩ := hlarge
    exact ⟨a, rest, by rw [hread]; rfl, hrows, hlarge⟩

end Following

/-- **Signed cursors**: a cursor is decoded to its key where it was made and refused anywhere else, and
following the cursors of a list returns its elements once and in order, up to the first that is larger
than a page; it ends there with an error, and otherwise with the last element. -/
theorem cursors_faithful {α : Type} (c : CursorCodec) (context : CursorContext) (size : α → Nat) (key : α → String)
    (values : List α) (limit : Option String → Nat) (query : Option String → Nat → List α × Bool) :
    (∀ k, c.Restores context k → c.decodeCursor (c.encodeCursor context k) context = .ok k) ∧
    (∀ k context', c.Restores context k → c.Separates context k context' → context' ≠ context →
      c.decodeCursor (c.encodeCursor context k) context' = .error invalidCursor) ∧
    ((∀ value ∈ values, c.Restores context (key value)) → (values.map key).Nodup →
      (∀ cursor, 0 < limit cursor ∧ limit cursor ≤ MAX_PAGE_SIZE) → ∀ pages, values.length < pages →
      follow (fun cursor => (pageValues c context size key values ⟨cursor, limit cursor⟩).map fun page =>
          (page.items, page.nextCursor)) pages none =
        some (values.takeWhile (fitsPage size), if values.all (fitsPage size) then none else some itemTooLarge) ∧
      ((∀ k n, Serves (afterKey key values k) (query k (n + 1)).1 (query k (n + 1)).2 (n + 1)) →
        follow (fun cursor => (pageQuery c context size key query ⟨cursor, limit cursor⟩).map fun page =>
            (page.items, page.nextCursor)) pages none =
          some (values.takeWhile (fitsPage size), if values.all (fitsPage size) then none else some itemTooLarge))) := by
  refine ⟨fun k hserde => CursorCodec.decodeCursor_encodeCursor hserde,
    fun k context' hserde hseparates hne => CursorCodec.decodeCursor_of_ne hserde hseparates hne,
    fun hserde hnodup hlimit pages hpages => ⟨?_, fun hquery => ?_⟩⟩
  · exact follow_of_cuts hserde hnodup
      (fun cursor k hdecode hk => pageValues_cuts hnodup (hlimit cursor).1 (hlimit cursor).2 hdecode hk) hpages
  · exact follow_of_cuts hserde hnodup
      (fun cursor k hdecode _ => pageQuery_cuts (hlimit cursor).1 (hlimit cursor).2 hdecode (hquery k _)) hpages

/-- SHA-256, HMAC and the texts of `serde_json` on what the cursors of two rows need. -/
def rowsCodec : CursorCodec where
  sha256 message := ofHex <|
    if message = utf8 "user-a" then "fc95297aa4f56781f0decb7d4bf59b1447f09b3611039b80188b1c6beb03ee6a"
    else if message = utf8 "user-b" then "eb1c58aa404f0ada5e83d6c2bc60990da8e2e16b09a28c5a7fcb39e3231eabb9"
    else if message = utf8 "bittery-page-cursor-v1\x00pagination-test-secret" then
      "58c991a1d24181f5570b8c203600ce8ad12db86f6cce6ab97c8ca37641fc6240"
    else if message = utf8 "bittery-page-cursor-v1\x00another-secret" then
      "8112c9034f53965e8fbeec13914024ea31d1ea21dc70bfc9915eb3a235373639"
    else ""
  hmac secret message := ofHex <|
    if message = utf8 (String.ofList (Base64.encodeUrl (json (row "a")))) then
      if secret = ofHex "58c991a1d24181f5570b8c203600ce8ad12db86f6cce6ab97c8ca37641fc6240" then
        "dd5c0e8b60f550845b55ceb173f76a6b1e6560f6992a2a9dcec1e31757025006"
      else if secret = ofHex "8112c9034f53965e8fbeec13914024ea31d1ea21dc70bfc9915eb3a235373639" then
        "f643100fcfcfcc1ea34ebe69767202b8486905f6e42bce79cde52dcb71b28223"
      else ""
    else ""
  toVec := json
  fromSlice bytes := [row "a", row "b"].find? fun payload => json payload = bytes
where
  ofHex (text : String) : List UInt8 := (Hex.decode text.toList).getD []
  json (payload : CursorPayload) : List UInt8 := utf8 <| Json.object "," ":"
    [("version", toString payload.version), ("principal", Json.quote payload.principal), ("scope", Json.quote payload.scope),
      ("filters", Json.quote payload.filters), ("key", Json.quote payload.key)]
  row (key : String) : CursorPayload :=
    ⟨1, "fc95297aa4f56781f0decb7d4bf59b1447f09b3611039b80188b1c6beb03ee6a", "items", "active", key⟩

/-- The payload of a row's cursor. -/
theorem rowsCodec_payload (key : String) :
    rowsCodec.payload ⟨"user-a", "items", "active", "pagination-test-secret"⟩ key = rowsCodec.row key := by
  have hdigest : rowsCodec.principalDigest "user-a" = "fc95297aa4f56781f0decb7d4bf59b1447f09b3611039b80188b1c6beb03ee6a" := by
    decide +kernel
  rw [CursorCodec.payload, hdigest]
  rfl

theorem rowsCodec_restores {key : String} (h : key = "a" ∨ key = "b") :
    rowsCodec.Restores ⟨"user-a", "items", "active", "pagination-test-secret"⟩ key := by
  have hdistinct : rowsCodec.json (rowsCodec.row "a") ≠ rowsCodec.json (rowsCodec.row "b") := fun h =>
    absurd (utf8_inj h) (by decide +kernel)
  have hread : ∀ bytes, rowsCodec.fromSlice bytes =
      [rowsCodec.row "a", rowsCodec.row "b"].find? fun payload => rowsCodec.json payload = bytes := fun _ => rfl
  have hwritten : rowsCodec.toVec = rowsCodec.json := rfl
  rw [CursorCodec.Restores, rowsCodec_payload, hread, hwritten]
  rcases h with rfl | rfl
  · rw [List.find?_cons_of_pos (by simp)]
  · rw [List.find?_cons_of_neg (by simpa using hdistinct), List.find?_cons_of_pos (by simp)]

/-- The tag of a row's cursor, by the digest of the secret. -/
theorem rowsCodec_tag (jwtSecret : String) :
    rowsCodec.tag jwtSecret (rowsCodec.encodedPayload ⟨"user-a", "items", "active", "pagination-test-secret"⟩ "a") =
      rowsCodec.ofHex
        (if rowsCodec.cursorSecret jwtSecret = rowsCodec.ofHex "58c991a1d24181f5570b8c203600ce8ad12db86f6cce6ab97c8ca37641fc6240" then
          "dd5c0e8b60f550845b55ceb173f76a6b1e6560f6992a2a9dcec1e31757025006"
        else if rowsCodec.cursorSecret jwtSecret = rowsCodec.ofHex "8112c9034f53965e8fbeec13914024ea31d1ea21dc70bfc9915eb3a235373639" then
          "f643100fcfcfcc1ea34ebe69767202b8486905f6e42bce79cde52dcb71b28223"
        else "") := by
  have hwritten : rowsCodec.toVec = rowsCodec.json := rfl
  rw [CursorCodec.tag, CursorCodec.encodedPayload, rowsCodec_payload, hwritten]
  generalize rowsCodec.cursorSecret jwtSecret = secret
  simp only [rowsCodec, if_true]

/-- Two rows, one on a page. -/
theorem cursors_faithful_rows :
    let context : CursorContext := ⟨"user-a", "items", "active", "pagination-test-secret"⟩
    rowsCodec.decodeCursor (rowsCodec.encodeCursor context "a") context = .ok "a" ∧
      rowsCodec.decodeCursor (rowsCodec.encodeCursor context "a") { context with principal := "user-b" } = .error invalidCursor ∧
      rowsCodec.decodeCursor (rowsCodec.encodeCursor context "a") { context with jwtSecret := "another-secret" } =
        .error invalidCursor ∧
      follow (fun cursor => (pageValues rowsCodec context (fun _ => 20) id ["a", "b"] ⟨cursor, 1⟩).map fun page =>
          (page.items, page.nextCursor)) 3 none = some (["a", "b"], none) ∧
      follow (fun cursor => (pageQuery rowsCodec context (fun _ => 20) id (fun k n => ((afterKey id ["a", "b"] k).take n, false))
          ⟨cursor, 1⟩).map fun page => (page.items, page.nextCursor)) 3 none = some (["a", "b"], none) := by
  intro context
  have hrows := cursors_faithful rowsCodec context (fun _ => 20) id ["a", "b"] (fun _ => 1)
    fun k n => ((afterKey id ["a", "b"] k).take n, false)
  have hrestores : ∀ value ∈ ["a", "b"], rowsCodec.Restores context (id value) := fun value hvalue =>
    rowsCodec_restores (by simpa using hvalue)
  have ha := hrestores "a" List.mem_cons_self
  have hpages := hrows.2.2 hrestores (by decide) (fun _ => by decide) 3 (by decide)
  have hsecret : rowsCodec.Separates context "a" { context with jwtSecret := "another-secret" } := by
    refine ⟨fun _ => ?_, fun h => absurd rfl h⟩
    rw [rowsCodec_tag, rowsCodec_tag]
    decide +kernel
  have hprincipal : rowsCodec.Separates context "a" { context with principal := "user-b" } :=
    ⟨fun h => absurd rfl h, fun _ => by decide +kernel⟩
  exact ⟨hrows.1 "a" ha, hrows.2.1 "a" _ ha hprincipal (by decide), hrows.2.1 "a" _ ha hsecret (by decide), hpages.1,
    hpages.2 fun k n => .of_take _ (Nat.succ_pos n)⟩

/-- **A single element that is larger than a page is never returned**: the reading is refused. -/
theorem large_element_not_returned : ∃ size : Unit → Nat, ∀ (c : CursorCodec) (context : CursorContext) (limit : Nat),
    0 < limit → limit ≤ MAX_PAGE_SIZE → ∀ pages,
      follow (fun cursor => (pageValues c context size (fun _ => "key") [()] ⟨cursor, limit⟩).map fun page =>
        (page.items, page.nextCursor)) (pages + 1) none = some ([], some itemTooLarge) := by
  refine ⟨fun _ => RESPONSE_PAGE_ITEMS_BYTES, fun c context limit hpos hmax pages => ?_⟩
  have hitems : pageItems (fun _ : Unit => RESPONSE_PAGE_ITEMS_BYTES) limit 2 0 [()] = .error itemTooLarge := by
    rw [pageItems, if_neg (by omega)]
    simp only
    rw [if_pos (by omega), if_true]
  simp only [follow, pageValues, validatePageRequest_ok hpos hmax, pageStart, List.drop_zero, hitems, bind, Except.bind, Except.map]

end Bittery
