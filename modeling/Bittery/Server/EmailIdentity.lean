/-
The email as the identity of an account: what `domains/auth/registration.rs`, `login.rs`, `recovery.rs` and
`credentials.rs` store and look up.

Requests run one after another. Of an account only the columns of the queries are kept, and every check but
those of the email is one flag.
-/
import Bittery.Crypto.Identity
import Bittery.Server.Error

namespace Bittery.EmailIdentity

open CryptoCore

structure AccountRow where
  id : String
  email : String
deriving DecidableEq, Repr

variable (T : TextTables) (lower : String → String)

/-- The rows of `WHERE LOWER(email) = $1`. -/
def findByEmail (rows : List AccountRow) (normalizedEmail : String) : List AccountRow :=
  rows.filter fun row => lower row.email = normalizedEmail

/-- What `check_email`, `start_login`, `request_recovery_verification`, `verify_recovery_code` and the checks for
duplicates look up. -/
def lookup (rows : List AccountRow) (email : String) : List AccountRow :=
  findByEmail lower rows (normalizeEmail T email)

/-- The join of a recovery with its account, on `LOWER(u.email) = LOWER(rv.email)`. -/
def recoveryAccount (rows : List AccountRow) (verificationEmail : String) : List AccountRow :=
  rows.filter fun row => lower row.email = lower verificationEmail

/-- `user_email_unique` and the primary key. -/
def insertUserAccount (rows : List AccountRow) (row : AccountRow) : Except AppError (List AccountRow) :=
  if rows.any fun old => old.id = row.id || old.email = row.email then .error (.badRequest "Unable to create account")
  else .ok (rows ++ [row])

def signup (rows : List AccountRow) (userId email : String) (admitted : Bool) : Except AppError (List AccountRow) :=
  let normalizedEmail := normalizeEmail T email
  if !admitted then .error (.forbidden "Public registration is disabled. Ask an admin for an invite link.")
  else if lookup T lower rows email ≠ [] then .error (.badRequest "Unable to create account")
  else insertUserAccount rows ⟨userId, normalizedEmail⟩

/-- `limitOne` is the row that the database happens to return. -/
def updateEmail (limitOne : List AccountRow → Option AccountRow) (rows : List AccountRow)
    (userId newEmail : String) (admitted : Bool) : Except AppError (List AccountRow) :=
  let normalizedNewEmail := normalizeEmail T newEmail
  if !admitted then .error (.badRequest "Invalid SRP salt")
  else if (limitOne (lookup T lower rows newEmail)).any (·.id ≠ userId) then .error (.badRequest "Email already in use")
  else if rows.any fun row => row.id ≠ userId && row.email = normalizedNewEmail then
    .error (.internal "Failed to update email")
  else .ok (rows.map fun row => if row.id = userId then { row with email := normalizedNewEmail } else row)

def deleteAccount (rows : List AccountRow) (userId confirmEmail : String) : Except AppError (List AccountRow) :=
  match rows.find? (·.id = userId) with
  | none => .error (.notFound "User not found")
  | some row =>
    if normalizeEmail T row.email ≠ normalizeEmail T confirmEmail then .error (.badRequest "Email does not match")
    else .ok (rows.filter (·.id ≠ userId))

inductive Request where
  | signup (userId email : String) (admitted : Bool)
  | updateEmail (limitOne : List AccountRow → Option AccountRow) (userId newEmail : String) (admitted : Bool)
  | deleteAccount (userId confirmEmail : String)

def answer (rows : List AccountRow) : Request → Except AppError (List AccountRow)
  | .signup userId email admitted => EmailIdentity.signup T lower rows userId email admitted
  | .updateEmail limitOne userId newEmail admitted =>
    EmailIdentity.updateEmail T lower limitOne rows userId newEmail admitted
  | .deleteAccount userId confirmEmail => EmailIdentity.deleteAccount T rows userId confirmEmail

/-- A request that fails leaves the accounts as they are. -/
def serve (rows : List AccountRow) (request : Request) : List AccountRow :=
  match answer T lower rows request with
  | .ok rows => rows
  | .error _ => rows

def run (requests : List Request) : List AccountRow := requests.foldl (serve T lower) []

/-- The emails that a request wants stored. -/
def Request.emails : Request → List String
  | .signup _ email _ => [email]
  | .updateEmail _ _ newEmail _ => [newEmail]
  | .deleteAccount .. => []

/-! ## Canonical emails -/

/-- What Unicode and the database promise. -/
structure Lawful : Prop where
  /-- Composing is final. -/
  nfkc : ∀ text, T.nfkc (T.nfkc text) = T.nfkc text
  /-- A part of a composed text is composed, and a part of a text in lower case is. -/
  nfkcTrim : ∀ text, T.nfkc text = text → T.nfkc (trim text) = trim text
  lowerTrim : ∀ text, T.toLowercase text = text → T.toLowercase (trim text) = trim text
  /-- The database leaves alone the texts in lower case, and only them. -/
  database : ∀ text, lower text = text ↔ T.toLowercase text = text

/-- Composing the trimmed text in lower case brings a capital into it, or white space to one of its ends. -/
def Disturbed (email : String) : Prop :=
  let composed := T.nfkc (T.toLowercase (trim email))
  T.toLowercase composed ≠ composed ∨ trim composed ≠ composed

instance (email : String) : Decidable (Disturbed T email) := inferInstanceAs (Decidable (_ ∨ _))

/-- The email is normalized once and for all, and the account that is made for it is found by every spelling. -/
def Canonical (email : String) : Prop :=
  normalizeEmail T (normalizeEmail T email) = normalizeEmail T email ∧
    ∀ userId spelling, normalizeEmail T spelling = normalizeEmail T email →
      signup T lower [] userId email true = .ok [⟨userId, normalizeEmail T email⟩] ∧
        lookup T lower [⟨userId, normalizeEmail T email⟩] spelling = [⟨userId, normalizeEmail T email⟩]

variable {T lower} {email : String}

/-- **An email is canonical if and only if composing does not disturb it.** -/
theorem canonical_iff (h : Lawful T lower) : Canonical T lower email ↔ ¬ Disturbed T email := by
  have hnfkc : T.nfkc (normalizeEmail T email) = normalizeEmail T email := h.nfkc _
  have hfound : ∀ userId : String, lookup T lower [⟨userId, normalizeEmail T email⟩] email =
      [⟨userId, normalizeEmail T email⟩] ↔ T.toLowercase (normalizeEmail T email) = normalizeEmail T email := by
    intro userId
    rw [← h.database]
    simp [lookup, findByEmail]
  constructor
  · rintro ⟨hidem, hsigned⟩ hdisturbed
    have hlower := (hfound "").1 (hsigned "" email rfl).2
    have htrim : normalizeEmail T (normalizeEmail T email) = trim (normalizeEmail T email) := by
      conv_lhs => rw [normalizeEmail]
      rw [h.lowerTrim _ hlower, h.nfkcTrim _ hnfkc]
    rcases hdisturbed with hcapital | hblank
    · exact hcapital hlower
    · exact hblank (htrim.symm.trans hidem)
  · intro hquiet
    have hquiet' : T.toLowercase (normalizeEmail T email) = normalizeEmail T email ∧
        trim (normalizeEmail T email) = normalizeEmail T email := by
      simp only [Disturbed, not_or, not_not] at hquiet
      exact hquiet
    refine ⟨?_, fun userId spelling hspelling => ⟨?_, ?_⟩⟩
    · conv_lhs => rw [normalizeEmail]
      rw [hquiet'.2, hquiet'.1, hnfkc]
    · simp [signup, lookup, findByEmail, insertUserAccount]
    · rw [lookup, hspelling]
      exact (hfound userId).2 hquiet'.1

/-! ## Accounts over a run -/

/-- No two accounts have an id or an email in common. -/
def Distinct (rows : List AccountRow) : Prop := rows.Pairwise fun a b => a.id ≠ b.id ∧ a.email ≠ b.email

variable {rows rows' : List AccountRow}

theorem Distinct.signup {userId : String} {admitted : Bool} (hrows : Distinct rows)
    (h : signup T lower rows userId email admitted = .ok rows') :
    Distinct rows' ∧ rows' = rows ++ [⟨userId, normalizeEmail T email⟩] := by
  simp only [EmailIdentity.signup, insertUserAccount] at h
  split_ifs at h with _ _ hfree
  cases h
  simp only [List.any_eq_true, Bool.or_eq_true, decide_eq_true_eq, not_exists, not_and, not_or] at hfree
  exact ⟨List.pairwise_append.2 ⟨hrows, List.pairwise_singleton _ _, by simpa using hfree⟩, rfl⟩

theorem Distinct.updateEmail {limitOne : List AccountRow → Option AccountRow} {userId : String} {admitted : Bool}
    (hrows : Distinct rows) (h : updateEmail T lower limitOne rows userId email admitted = .ok rows') :
    Distinct rows' ∧ ∀ row ∈ rows', row ∈ rows ∨ row.email = normalizeEmail T email := by
  simp only [EmailIdentity.updateEmail] at h
  split_ifs at h with _ _ hfree
  cases h
  simp only [List.any_eq_true, Bool.and_eq_true, decide_eq_true_eq, not_exists, not_and] at hfree
  refine ⟨List.pairwise_map.2 (hrows.imp_of_mem fun {a b} ha hb hab => ?_), fun row hrow => ?_⟩
  · by_cases hau : a.id = userId
    · have hbu : b.id ≠ userId := fun hbu => hab.1 (hau.trans hbu.symm)
      rw [if_pos hau, if_neg hbu]
      exact ⟨hab.1, fun heq => hfree b hb hbu heq.symm⟩
    · rw [if_neg hau]
      split_ifs with hbu
      · exact ⟨hab.1, hfree a ha hau⟩
      · exact hab
  · obtain ⟨old, hold, rfl⟩ := List.mem_map.1 hrow
    split_ifs
    · exact Or.inr rfl
    · exact Or.inl hold

theorem Distinct.deleteAccount {userId : String} (hrows : Distinct rows)
    (h : deleteAccount T rows userId email = .ok rows') : Distinct rows' ∧ ∀ row ∈ rows', row ∈ rows := by
  unfold EmailIdentity.deleteAccount at h
  split at h
  · cases h
  · split_ifs at h
    cases h
    exact ⟨hrows.sublist List.filter_sublist, fun row hrow => List.mem_of_mem_filter hrow⟩

/-- What a request does to the accounts: it keeps them apart, and the new emails are those it asks for. -/
theorem Distinct.serve (hrows : Distinct rows) (request : Request) :
    Distinct (serve T lower rows request) ∧
      ∀ row ∈ EmailIdentity.serve T lower rows request,
        row.email ∈ rows.map (·.email) ∨ ∃ email ∈ request.emails, row.email = normalizeEmail T email := by
  have hsame : ∀ row ∈ rows, row.email ∈ rows.map (·.email) ∨ ∃ email ∈ request.emails, row.email = normalizeEmail T email :=
    fun row hrow => Or.inl (List.mem_map_of_mem hrow)
  cases hout : answer T lower rows request with
  | error failure =>
    simp only [EmailIdentity.serve, hout]
    exact ⟨hrows, hsame⟩
  | ok rows' =>
    simp only [EmailIdentity.serve, hout]
    cases request with
    | signup userId email admitted =>
      obtain ⟨hdistinct, rfl⟩ := hrows.signup hout
      refine ⟨hdistinct, fun row hrow => ?_⟩
      rcases List.mem_append.1 hrow with hrow | hrow
      · exact hsame row hrow
      · exact Or.inr ⟨email, List.mem_singleton_self _, by rw [List.mem_singleton.1 hrow]⟩
    | updateEmail limitOne userId newEmail admitted =>
      obtain ⟨hdistinct, hnew⟩ := hrows.updateEmail hout
      refine ⟨hdistinct, fun row hrow => (hnew row hrow).elim (hsame row) fun heq => ?_⟩
      exact Or.inr ⟨newEmail, List.mem_singleton_self _, heq⟩
    | deleteAccount userId confirmEmail =>
      obtain ⟨hdistinct, hold⟩ := hrows.deleteAccount hout
      exact ⟨hdistinct, fun row hrow => hsame row (hold row hrow)⟩

/-- **In every run the accounts stay apart, and each email is one that a request asked for, normalized.** -/
theorem distinct_run (T : TextTables) (lower : String → String) (requests : List Request) :
    Distinct (run T lower requests) ∧ ∀ row ∈ run T lower requests,
      ∃ request ∈ requests, ∃ email ∈ request.emails, row.email = normalizeEmail T email := by
  induction requests using List.reverseRecOn with
  | nil => exact ⟨List.Pairwise.nil, fun row hrow => absurd hrow List.not_mem_nil⟩
  | append_singleton requests request ih =>
    obtain ⟨hdistinct, hasked⟩ := ih
    have hrun : run T lower (requests ++ [request]) = serve T lower (run T lower requests) request := by
      simp [run, List.foldl_append]
    have hstep : Distinct (serve T lower (run T lower requests) request) ∧ _ := hdistinct.serve request
    rw [hrun]
    obtain ⟨hdistinct', hnew⟩ := hstep
    refine ⟨hdistinct', fun row hrow => ?_⟩
    rcases hnew row hrow with hold | ⟨email, hemail, heq⟩
    · obtain ⟨old, hmem, heq⟩ := List.mem_map.1 hold
      obtain ⟨asked, hasked', email, hemail, hold'⟩ := hasked old hmem
      exact ⟨asked, List.mem_append_left _ hasked', email, hemail, heq.symm.trans hold'⟩
    · exact ⟨request, List.mem_append_right _ (List.mem_singleton_self _), email, hemail, heq⟩

theorem Distinct.filter_email (hrows : Distinct rows) {row : AccountRow} (hrow : row ∈ rows) :
    rows.filter (fun other => other.email = row.email) = [row] := by
  induction rows with
  | nil => exact absurd hrow List.not_mem_nil
  | cons first rows ih =>
    obtain ⟨hfirst, hrest⟩ := List.pairwise_cons.1 hrows
    rcases List.mem_cons.1 hrow with rfl | hmem
    · rw [List.filter_cons_of_pos (by simp), List.filter_eq_nil_iff.2]
      exact fun other hother => by simpa using (hfirst other hother).2.symm
    · rw [List.filter_cons_of_neg (by simpa using (hfirst row hmem).2), ih hrest hmem]

theorem lower_of_quiet (h : Lawful T lower) (hquiet : ¬ Disturbed T email) :
    lower (normalizeEmail T email) = normalizeEmail T email := by
  simp only [Disturbed, not_or, not_not] at hquiet
  exact (h.database _).2 hquiet.1

/-- **The email is the identity of the account as long as composing disturbs no email.** One email is canonical if
and only if composing does not disturb it. In a run of such emails every account is what every spelling of its email
finds, also from its recovery. In every run no two accounts have the same normalized email. -/
theorem email_identity (h : Lawful T lower) :
    (∀ email, Canonical T lower email ↔ ¬ Disturbed T email) ∧
      (∀ requests : List Request, (∀ request ∈ requests, ∀ email ∈ request.emails, ¬ Disturbed T email) →
        ∀ row ∈ run T lower requests, ∀ spelling, normalizeEmail T spelling = row.email →
          lookup T lower (run T lower requests) spelling = [row] ∧
            recoveryAccount lower (run T lower requests) (normalizeEmail T spelling) = [row]) ∧
      ∀ requests : List Request, Distinct (run T lower requests) := by
  refine ⟨fun email => canonical_iff h, fun requests hquiet row hrow spelling hspelling => ?_,
    fun requests => (distinct_run T lower requests).1⟩
  obtain ⟨hdistinct, hasked⟩ := distinct_run T lower requests
  have hlower : ∀ other ∈ run T lower requests, lower other.email = other.email := fun other hother => by
    obtain ⟨request, hrequest, email, hemail, heq⟩ := hasked other hother
    rw [heq]
    exact lower_of_quiet h (hquiet request hrequest email hemail)
  have hfilter : (run T lower requests).filter (fun other => lower other.email = row.email) = [row] := by
    rw [← hdistinct.filter_email hrow]
    exact List.filter_congr fun other hother => by rw [hlower other hother]
  refine ⟨?_, ?_⟩
  · rw [lookup, hspelling]
    exact hfilter
  · rw [recoveryAccount, hspelling, hlower row hrow]
    exact hfilter

/-! ## A capital from a compatibility character -/

def mapText (f : Char → Char) (text : String) : String := String.ofList (text.toList.map f)

/-- Tables that know the ASCII letters and the double-struck capital, which has no lower case of its own. -/
def exampleTables : TextTables where
  toLowercase := mapText Char.toLower
  nfkc := mapText fun c => if c = 'ℂ' then 'C' else c

theorem mapText_eq_iff {f : Char → Char} {text : String} : mapText f text = text ↔ ∀ c ∈ text.toList, f c = c := by
  rw [mapText, ← String.toList_inj, String.toList_ofList]
  exact ⟨fun h => List.map_inj_left.1 (h.trans (List.map_id _).symm),
    fun h => (List.map_congr_left h).trans (List.map_id _)⟩

theorem mem_of_mem_trim {text : String} {c : Char} (h : c ∈ (trim text).toList) : c ∈ text.toList := by
  simp only [trim, trimStart, String.toList_ofList, List.mem_reverse] at h
  exact (List.dropWhile_suffix _).subset (List.mem_reverse.1 ((List.dropWhile_suffix _).subset h))

theorem exampleTables_lawful : Lawful exampleTables exampleTables.toLowercase where
  nfkc := fun text => by
    refine mapText_eq_iff.2 fun c hc => ?_
    simp only [exampleTables, mapText, String.toList_ofList, List.mem_map] at hc
    obtain ⟨d, -, rfl⟩ := hc
    split_ifs <;> simp_all
  nfkcTrim := fun text h => mapText_eq_iff.2 fun c hc => mapText_eq_iff.1 h c (mem_of_mem_trim hc)
  lowerTrim := fun text h => mapText_eq_iff.2 fun c hc => mapText_eq_iff.1 h c (mem_of_mem_trim hc)
  database := fun text => Iff.rfl

/-- An account whose owner logs in with another spelling. -/
theorem email_identity_example :
    let requests := [Request.signup "1" " Ann@Example.com" true]
    lookup exampleTables exampleTables.toLowercase (run exampleTables exampleTables.toLowercase requests)
      "ann@example.COM " = [⟨"1", "ann@example.com"⟩] := by
  intro requests
  have hquiet : ¬ Disturbed exampleTables " Ann@Example.com" := by decide +kernel
  refine ((email_identity exampleTables_lawful).2.1 requests ?_ ⟨"1", "ann@example.com"⟩ ?_ "ann@example.COM " ?_).1
  · simpa [requests, Request.emails] using hquiet
  · decide +kernel
  · decide +kernel

/-- An email whose composition has a capital: normalizing it again gives another email, and the account that is made
for it is not found. -/
theorem capital_not_canonical :
    let rows := run exampleTables exampleTables.toLowercase [.signup "1" "ℂ@example.com" true]
    rows = [⟨"1", "C@example.com"⟩] ∧
      normalizeEmail exampleTables (normalizeEmail exampleTables "ℂ@example.com") ≠
        normalizeEmail exampleTables "ℂ@example.com" ∧
      lookup exampleTables exampleTables.toLowercase rows "ℂ@example.com" = [] := by
  decide +kernel

end Bittery.EmailIdentity
