/-
Verification codes are single use and their guesses are bounded, as long as the requests on
one code do not overlap where the source reads a row and writes it back later.

The invariant speaks about the codes that are active: of one purpose and email there is one
at most, and the wrong guesses compared with it are counted in its row or about to be.
-/
import Bittery.Server.VerificationCodes
import Mathlib.Data.List.Count

namespace Bittery

open Lib

/-- The code can never be accepted again. -/
def CodeEvent.isFinal : CodeEvent → Bool
  | .guessed _ => false
  | .retired _ | .accepted _ => true

/-- A code is accepted only if it was neither accepted nor retired before. -/
def CodeEvent.After (later earlier : CodeEvent) : Prop :=
  ∀ id, later = .accepted id → earlier ≠ .accepted id ∧ earlier ≠ .retired id

/-- Whether the request is about to count a wrong guess against the code. -/
def CodeRequest.mayCharge (t : CodeRequest) (r : Verification) : Bool :=
  match t.await with
  | .findActive _ _ => r.isFor t.purpose t.email
  | .recordFailed verification _ _ => verification.id = r.id
  | _ => false

namespace CodeState

def guesses (q : CodeState) (id : String) : Nat := q.log.count (.guessed id)

def pending (q : CodeState) (r : Verification) : Nat := q.requests.countP (·.mayCharge r)

/-- A code is inserted once the older ones of its purpose and email are used or have expired; a
wrong guess is compared with a code that has attempts left besides those about to be counted;
and a failed attempt is written back to the row as it was read. -/
def Undisturbed (q : CodeState) (a : Time × CodeLabel) : Prop :=
  match a.2 with
  | .resume k _ =>
    match q.requests[k]? with
    | none => True
    | some t =>
      match t.await with
      | .insert _ _ _ => ∀ r ∈ q.codes.rows, r.isFor t.purpose t.email = true → r.isActive a.1 = false
      | .verify codeHash _ =>
        (q.codes.newest fun r => r.isFor t.purpose t.email && r.codeHash = codeHash && r.isActive a.1) = none →
          ∀ r ∈ q.codes.rows, r.isFor t.purpose t.email = true → r.isActive a.1 = true →
            r.attempts + q.pending r < r.maxAttempts
      | .recordFailed verification _ _ => verification ∈ q.codes
      | _ => True
  | _ => True

end CodeState

/-! ## Rows -/

namespace Verification

variable {r r' : Verification} {now now' : Time} {purpose : VerificationPurpose} {email : String}

/-- What an update does to a row at most. -/
structure Ages (r r' : Verification) : Prop where
  id : r'.id = r.id
  purpose : r'.purpose = r.purpose
  email : r'.email = r.email
  expiresAt : r'.expiresAt = r.expiresAt
  maxAttempts : r'.maxAttempts = r.maxAttempts
  used : r'.usedAt = none → r.usedAt = none

theorem Ages.refl (r : Verification) : r.Ages r := ⟨rfl, rfl, rfl, rfl, rfl, fun h => h⟩

theorem isActive_iff : r.isActive now = true ↔ r.usedAt = none ∧ now < r.expiresAt := by simp [isActive]

theorem Ages.isActive (h : r.Ages r') (hr' : r'.isActive now = true) : r.isActive now = true := by
  rw [isActive_iff] at hr' ⊢
  exact ⟨h.used hr'.1, h.expiresAt ▸ hr'.2⟩

theorem isActive_of_le (h : now ≤ now') (hr : r.isActive now' = true) : r.isActive now = true := by
  rw [isActive_iff] at hr ⊢
  exact ⟨hr.1, Nat.lt_of_le_of_lt h hr.2⟩

theorem Ages.use (r : Verification) (now : Time) : r.Ages (r.use now) := ⟨rfl, rfl, rfl, rfl, rfl, nofun⟩

theorem Ages.consume (r : Verification) (now : Time) : r.Ages (r.consume purpose now) := by
  cases purpose <;> exact ⟨rfl, rfl, rfl, rfl, rfl, nofun⟩

theorem Ages.ite {f : Verification → Verification} {p : Bool} (h : p = true → r.Ages (f r)) :
    r.Ages (if p then f r else r) := by
  cases p with
  | true => exact h rfl
  | false => exact .refl r

theorem isActive_use : (r.use now).isActive now' = false := rfl

theorem isActive_consume : (r.consume purpose now).isActive now' = false := by cases purpose <;> rfl

/-- The codes of one purpose and email. -/
def Same (r r' : Verification) : Prop := r.purpose = r'.purpose ∧ r.email = r'.email

theorem isFor_iff : r.isFor purpose email = true ↔ r.purpose = purpose ∧ r.email = email := by simp [isFor]

theorem same_of_isFor (h : r.isFor purpose email = true) (h' : r'.isFor purpose email = true) : r.Same r' := by
  rw [isFor_iff] at h h'
  exact ⟨h.1.trans h'.1.symm, h.2.trans h'.2.symm⟩

end Verification

/-! ## The invariant -/

/-- What a request holds over an await. -/
def CodeRequest.Held (clock : Time) (t : CodeRequest) : Prop :=
  match t.await with
  | .findActive now _ => now ≤ clock
  | .recordFailed verification _ _ => verification.usedAt = none
  | _ => True

theorem CodeRequest.mayCharge_congr {t : CodeRequest} {r r' : Verification} (h : r.Ages r') :
    t.mayCharge r' = t.mayCharge r := by
  unfold mayCharge Verification.isFor
  rw [h.id, h.purpose, h.email]

namespace CodeState

variable {q : CodeState} {hashToken : String → String}

structure Sound (q : CodeState) : Prop where
  /-- What has happened to a code for good has. -/
  final : ∀ e ∈ q.log, e.isFinal = true → ∀ r ∈ q.codes.rows, r.id = e.id → r.isActive q.clock = false
  ordered : q.log.Pairwise CodeEvent.After
  /-- Only the newest code of a purpose and email can be active. -/
  newest : q.codes.rows.Pairwise fun r r' => r.Same r' → r.isActive q.clock = false
  bounded : ∀ r ∈ q.codes.rows, q.guesses r.id ≤ r.maxAttempts
  counted : ∀ r ∈ q.codes.rows, r.isActive q.clock = true → q.guesses r.id ≤ r.attempts + q.pending r
  known : ∀ e ∈ q.log, ∃ r ∈ q.codes.rows, r.id = e.id
  held : ∀ t ∈ q.requests, t.Held q.clock

theorem Sound.tick (h : q.Sound) {now : Time} (hnow : q.clock ≤ now) : Sound { q with clock := now } where
  final e he hfinal r hr hid := by
    have hdead := h.final e he hfinal r hr hid
    exact Bool.eq_false_iff.mpr fun ha => Bool.eq_false_iff.mp hdead (Verification.isActive_of_le hnow ha)
  ordered := h.ordered
  newest := h.newest.imp fun {r r'} hr hsame =>
    Bool.eq_false_iff.mpr fun ha => Bool.eq_false_iff.mp (hr hsame) (Verification.isActive_of_le hnow ha)
  bounded := h.bounded
  counted r hr ha := h.counted r hr (Verification.isActive_of_le hnow ha)
  known := h.known
  held t ht := by
    have := h.held t ht
    unfold CodeRequest.Held at this ⊢
    split
    · next hawait => rw [hawait] at this; exact Nat.le_trans this hnow
    · next hawait => rw [hawait] at this; exact this
    · trivial

/-- An active code of the purpose and email is the one the newest is looked up for. -/
theorem Sound.eq_newest (h : q.Sound) {purpose : VerificationPurpose} {email : String} {now : Time} {r : Verification}
    (hnow : now ≤ q.clock) (hr : r ∈ q.codes.rows) (hfor : r.isFor purpose email = true) (ha : r.isActive q.clock = true) :
    q.codes.newest (fun r => r.isFor purpose email && r.isActive now) = some r := by
  obtain ⟨before, after, hrows⟩ := List.append_of_mem hr
  have hlater : ∀ r' ∈ after, r'.isFor purpose email = false := by
    intro r' hr'
    have hnewest := h.newest
    rw [hrows, List.pairwise_append, List.pairwise_cons] at hnewest
    refine Bool.eq_false_iff.mpr fun hfor' => ?_
    have hdead := hnewest.2.1.1 r' hr' (Verification.same_of_isFor hfor hfor')
    rw [ha] at hdead
    cases hdead
  have hempty : after.filter (fun r => r.isFor purpose email && r.isActive now) = [] := by
    rw [List.filter_eq_nil_iff]
    intro r' hr'
    rw [hlater r' hr']
    exact Bool.false_ne_true
  rw [Codes.newest, Table.select, hrows, List.filter_append, List.filter_cons, hempty,
    if_pos (by rw [hfor, Verification.isActive_of_le hnow ha]; rfl), List.getLast?_append]
  rfl

/-- An update that ages the rows. -/
theorem Sound.write (h : q.Sound) {x : Codes × List CodeEvent} {requests : List CodeRequest} (g : Verification → Verification)
    (hrows : x.1.rows = q.codes.rows.map g) (hages : ∀ r ∈ q.codes.rows, r.Ages (g r))
    (hevents : ∀ e ∈ x.2, e.isFinal = true ∧ (∃ r ∈ q.codes.rows, r.id = e.id) ∧
      ∀ r ∈ q.codes.rows, r.id = e.id → (g r).isActive q.clock = false)
    (haccepts : ∀ id, .accepted id ∈ x.2 → x.2 = [.accepted id] ∧ ∃ r ∈ q.codes.rows, r.id = id ∧ r.isActive q.clock = true)
    (hcharge : ∀ r ∈ q.codes.rows, (g r).isActive q.clock = true →
      r.attempts + q.pending r ≤ (g r).attempts + requests.countP (·.mayCharge r))
    (hheld : ∀ t ∈ requests, t.Held q.clock) : Sound { q.write x with requests := requests } := by
  have hguesses : ∀ id, (q.write x).guesses id = q.guesses id := by
    intro id
    have hzero : x.2.count (.guessed id) = 0 := by
      rw [List.count_eq_zero]
      intro hmem
      cases (hevents _ hmem).1
    simp only [guesses, CodeState.write, List.count_append, hzero, Nat.zero_add]
  have hmem : ∀ r' ∈ x.1.rows, ∃ r ∈ q.codes.rows, g r = r' := fun r' hr' => by
    rwa [hrows, List.mem_map] at hr'
  refine ⟨?_, ?_, ?_, ?_, ?_, ?_, hheld⟩
  · intro e he hfinal r' hr' hid
    obtain ⟨r, hr, rfl⟩ := hmem r' hr'
    rw [(hages r hr).id] at hid
    rcases List.mem_append.mp he with he | he
    · exact (hevents e he).2.2 r hr hid
    · have hdead := h.final e he hfinal r hr hid
      exact Bool.eq_false_iff.mpr fun ha => Bool.eq_false_iff.mp hdead ((hages r hr).isActive ha)
  · refine List.pairwise_append.mpr ⟨?_, h.ordered, fun e he e' he' id heq => ?_⟩
    · by_cases hsome : ∃ id, CodeEvent.accepted id ∈ x.2
      · obtain ⟨id, hid⟩ := hsome
        rw [(haccepts id hid).1]
        exact List.pairwise_singleton ..
      · refine List.pairwise_of_forall_mem_list fun e he e' _ id heq => ?_
        exact absurd ⟨id, heq ▸ he⟩ hsome
    · subst heq
      obtain ⟨-, r, hr, hid, ha⟩ := haccepts id he
      constructor <;> rintro rfl <;> exact absurd (h.final _ he' rfl r hr hid) (by rw [ha]; decide)
  · show x.1.rows.Pairwise _
    rw [hrows, List.pairwise_map]
    refine h.newest.imp_of_mem fun {r r'} hr hr' hdead hsame => ?_
    refine Bool.eq_false_iff.mpr fun ha => Bool.eq_false_iff.mp (hdead ?_) ((hages r hr).isActive ha)
    obtain ⟨hpurpose, hemail⟩ := hsame
    rw [(hages r hr).purpose, (hages r' hr').purpose] at hpurpose
    rw [(hages r hr).email, (hages r' hr').email] at hemail
    exact ⟨hpurpose, hemail⟩
  · intro r' hr'
    obtain ⟨r, hr, rfl⟩ := hmem r' hr'
    show (q.write x).guesses (g r).id ≤ _
    rw [hguesses, (hages r hr).id, (hages r hr).maxAttempts]
    exact h.bounded r hr
  · intro r' hr' ha
    obtain ⟨r, hr, rfl⟩ := hmem r' hr'
    show (q.write x).guesses (g r).id ≤ (g r).attempts + requests.countP (·.mayCharge (g r))
    rw [hguesses, (hages r hr).id]
    have hcounted := h.counted r hr ((hages r hr).isActive ha)
    have hleft := hcharge r hr ha
    simp only [CodeRequest.mayCharge_congr (hages r hr)]
    omega
  · intro e he
    have hold : ∃ r ∈ q.codes.rows, r.id = e.id := by
      rcases List.mem_append.mp he with he | he
      · exact (hevents e he).2.1
      · exact h.known e he
    obtain ⟨r, hr, hid⟩ := hold
    exact ⟨g r, by rw [show ({ q.write x with requests := requests } : CodeState).codes.rows = x.1.rows from rfl, hrows]; exact List.mem_map_of_mem hr, (hages r hr).id.trans hid⟩

/-- A new code, whose older ones are not active any more. -/
theorem Sound.insert (h : q.Sound) {codes : Codes} {requests : List CodeRequest} {new : Verification} {events : List CodeEvent}
    (hins : q.codes.insert new = some codes) (hunused : new.attempts = 0)
    (hdead : ∀ r ∈ q.codes.rows, r.Same new → r.isActive q.clock = false)
    (hevents : ∀ e ∈ events, ∃ r ∈ q.codes.rows, e = .retired r.id ∧ r.Same new)
    (hpending : ∀ r ∈ q.codes.rows, q.pending r ≤ requests.countP (·.mayCharge r))
    (hheld : ∀ t ∈ requests, t.Held q.clock) : Sound { q.write (codes, events) with requests := requests } := by
  have hrows := Table.insert_rows hins
  have hfresh := Table.insert_fresh hins
  have hnone : ∀ e ∈ q.log, e.id ≠ new.id := fun e he heq => by
    obtain ⟨r, hr, hid⟩ := h.known e he
    exact hfresh r hr (hid.trans heq)
  have hguesses : ∀ id, (q.write (codes, events)).guesses id = q.guesses id := by
    intro id
    have hzero : events.count (.guessed id) = 0 := by
      rw [List.count_eq_zero]
      intro hmem
      obtain ⟨r, -, heq, -⟩ := hevents _ hmem
      cases heq
    simp only [guesses, CodeState.write, List.count_append, hzero, Nat.zero_add]
  have hzero : q.guesses new.id = 0 := List.count_eq_zero.mpr fun hmem => hnone _ hmem rfl
  have hmem : ∀ r ∈ codes.rows, r ∈ q.codes.rows ∨ r = new := fun r hr => by
    rwa [hrows, List.mem_append, List.mem_singleton] at hr
  refine ⟨?_, ?_, ?_, ?_, ?_, ?_, hheld⟩
  · intro e he hfinal r hr hid
    rcases List.mem_append.mp he with he | he
    · obtain ⟨old, hold, rfl, hsame⟩ := hevents e he
      rcases hmem r hr with hr | rfl
      · rw [Table.eq_of_key_eq hr hold hid]
        exact hdead old hold hsame
      · exact absurd hid.symm (hfresh old hold)
    · rcases hmem r hr with hr | rfl
      · exact h.final e he hfinal r hr hid
      · exact absurd hid.symm (hnone e he)
  · refine List.pairwise_append.mpr ⟨?_, h.ordered, fun e he e' _ id heq => ?_⟩
    · refine List.pairwise_of_forall_mem_list fun e he e' _ id heq => ?_
      obtain ⟨r, -, heq', -⟩ := hevents e he
      rw [heq] at heq'
      cases heq'
    · obtain ⟨r, -, heq', -⟩ := hevents e he
      rw [heq] at heq'
      cases heq'
  · show codes.rows.Pairwise _
    rw [hrows, List.pairwise_append]
    refine ⟨h.newest, List.pairwise_singleton .., fun r hr r' hr' hsame => ?_⟩
    rw [List.mem_singleton.mp hr'] at hsame
    exact hdead r hr hsame
  · intro r hr
    show (q.write (codes, events)).guesses r.id ≤ _
    rw [hguesses]
    rcases hmem r hr with hr | rfl
    · exact h.bounded r hr
    · rw [hzero]
      exact Nat.zero_le _
  · intro r hr ha
    show (q.write (codes, events)).guesses r.id ≤ r.attempts + requests.countP (·.mayCharge r)
    rw [hguesses]
    rcases hmem r hr with hr | rfl
    · have hcounted := h.counted r hr ha
      have hleft := hpending r hr
      omega
    · rw [hzero]
      exact Nat.zero_le _
  · intro e he
    have hold : ∃ r ∈ q.codes.rows, r.id = e.id := by
      rcases List.mem_append.mp he with he | he
      · obtain ⟨r, hr, rfl, -⟩ := hevents e he
        exact ⟨r, hr, rfl⟩
      · exact h.known e he
    obtain ⟨r, hr, hid⟩ := hold
    refine ⟨r, ?_, hid⟩
    show r ∈ codes.rows
    rw [hrows]
    exact List.mem_append_left _ hr

/-- A wrong guess, compared with codes that have attempts left. -/
theorem Sound.guess (h : q.Sound) {requests : List CodeRequest} {purpose : VerificationPurpose} {email : String}
    (hleft : ∀ r ∈ q.codes.rows, r.isFor purpose email = true → r.isActive q.clock = true →
      r.attempts + q.pending r < r.maxAttempts)
    (hpending : ∀ r ∈ q.codes.rows, q.pending r + (if r.isFor purpose email then 1 else 0) ≤ requests.countP (·.mayCharge r))
    (hheld : ∀ t ∈ requests, t.Held q.clock) :
    Sound { q.write (q.codes, (q.codes.select fun r => r.isFor purpose email && r.isActive q.clock).map fun r =>
      .guessed r.id) with requests := requests } := by
  -- A code is compared with the guess once, if it is active and of the purpose and email.
  have hguesses : ∀ r ∈ q.codes.rows, (q.write (q.codes, (q.codes.select fun r => r.isFor purpose email &&
      r.isActive q.clock).map fun r => .guessed r.id)).guesses r.id =
        (if r.isFor purpose email && r.isActive q.clock then 1 else 0) + q.guesses r.id := by
    intro r hr
    have hone : ((q.codes.select fun r => r.isFor purpose email && r.isActive q.clock).map fun r =>
        CodeEvent.guessed r.id).count (.guessed r.id) = if r.isFor purpose email && r.isActive q.clock then 1 else 0 := by
      have hinj : Function.Injective CodeEvent.guessed := fun _ _ heq => CodeEvent.guessed.inj heq
      have hmap : (q.codes.select fun r => r.isFor purpose email && r.isActive q.clock).map (fun r => CodeEvent.guessed r.id) =
          ((q.codes.select fun r => r.isFor purpose email && r.isActive q.clock).map Verification.id).map .guessed := by
        rw [List.map_map]
        rfl
      rw [hmap, List.count_map_of_injective _ _ hinj]
      have hnodup : ((q.codes.select fun r => r.isFor purpose email && r.isActive q.clock).map Verification.id).Nodup :=
        q.codes.nodup.sublist (List.filter_sublist.map _)
      rw [hnodup.count]
      congr 1
      rw [eq_iff_iff, List.mem_map]
      constructor
      · rintro ⟨r', hr', hid⟩
        obtain ⟨hr', hp⟩ := Table.mem_select.mp hr'
        rwa [Table.eq_of_key_eq hr' hr hid] at hp
      · exact fun hp => ⟨r, Table.mem_select.mpr ⟨hr, hp⟩, rfl⟩
    simp only [guesses, CodeState.write, List.count_append, hone]
  refine ⟨?_, ?_, h.newest, ?_, ?_, ?_, hheld⟩
  · intro e he hfinal r hr hid
    rcases List.mem_append.mp he with he | he
    · obtain ⟨r, -, rfl⟩ := List.mem_map.mp he
      cases hfinal
    · exact h.final e he hfinal r hr hid
  · refine List.pairwise_append.mpr ⟨?_, h.ordered, fun e he e' _ id heq => ?_⟩
    · refine List.pairwise_of_forall_mem_list fun e he e' _ id heq => ?_
      obtain ⟨r, -, rfl⟩ := List.mem_map.mp he
      cases heq
    · obtain ⟨r, -, rfl⟩ := List.mem_map.mp he
      cases heq
  · intro r hr
    show (q.write _).guesses r.id ≤ _
    rw [hguesses r hr]
    split
    · next hp =>
      rw [Bool.and_eq_true] at hp
      have hcounted := h.counted r hr hp.2
      have := hleft r hr hp.1 hp.2
      omega
    · have := h.bounded r hr
      omega
  · intro r hr ha
    show (q.write _).guesses r.id ≤ r.attempts + requests.countP (·.mayCharge r)
    rw [hguesses r hr]
    have hcounted := h.counted r hr ha
    have hmore := hpending r hr
    have ha' : r.isActive q.clock = true := ha
    rw [ha', Bool.and_true]
    split at hmore <;> simp_all <;> omega
  · intro e he
    rcases List.mem_append.mp he with he | he
    · obtain ⟨r, hr, rfl⟩ := List.mem_map.mp he
      exact ⟨r, (Table.mem_select.mp hr).1, rfl⟩
    · exact h.known e he

/-! ## One step -/

variable {k : Nat} {t t' : CodeRequest} {now : Time}

/-- One of the requests goes on. -/
theorem countP_requests (hk : q.requests[k]? = some t) (p : CodeRequest → Bool) :
    (q.requests.set k t').countP p + (if p t then 1 else 0) = q.requests.countP p + (if p t' then 1 else 0) :=
  countP_set hk t' p

theorem held_set (h : q.Sound) (ht' : t'.Held q.clock) : ∀ u ∈ q.requests.set k t', u.Held q.clock := by
  intro u hu
  rcases List.mem_or_eq_of_mem_set hu with hu | rfl
  · exact h.held u hu
  · exact ht'

theorem held_append (h : q.Sound) (ht' : t'.Held q.clock) : ∀ u ∈ q.requests ++ [t'], u.Held q.clock := by
  intro u hu
  rcases List.mem_append.mp hu with hu | hu
  · exact h.held u hu
  · exact List.mem_singleton.mp hu ▸ ht'

/-- A statement that only reads. -/
theorem Sound.read (h : q.Sound) (hk : q.requests[k]? = some t) (ht' : t'.Held q.clock)
    (hcharge : ∀ r ∈ q.codes.rows, r.isActive q.clock = true → t.mayCharge r = true → t'.mayCharge r = true) :
    Sound { q.write (q.codes, []) with requests := q.requests.set k t' } := by
  refine h.write id (List.map_id _).symm (fun r _ => .refl r) nofun nofun (fun r hr ha => ?_) (held_set h ht')
  have hset := @countP_requests q k t t' hk (·.mayCharge r)
  have hmore := hcharge r hr ha
  simp only [id, pending]
  cases hcharged : t.mayCharge r with
  | true => simp only [hcharged, hmore hcharged] at hset; omega
  | false => simp only [hcharged, Bool.false_eq_true, if_false] at hset; omega

/-- An update that retires the rows it finds. -/
theorem Sound.retire (h : q.Sound) {p : Verification → Bool} {f : Verification → Verification} {hf : ∀ r, (f r).id = r.id}
    {requests : List CodeRequest} (hages : ∀ r : Verification, r.Ages (f r)) (hdead : ∀ r, (f r).isActive q.clock = false)
    (hpending : ∀ r, q.pending r ≤ requests.countP (·.mayCharge r)) (hattempts : ∀ r : Verification, r.attempts ≤ (f r).attempts)
    (hheld : ∀ u ∈ requests, u.Held q.clock) : Sound { q.write (q.codes.retire p f hf) with requests := requests } := by
  refine h.write (fun r => if p r then f r else r) rfl (fun r _ => .ite fun _ => hages r) (fun e he => ?_) (fun id hid => ?_)
    (fun r _ _ => ?_) hheld
  · obtain ⟨r, hr, rfl⟩ := List.mem_map.mp he
    obtain ⟨hr, hp⟩ := Table.mem_select.mp hr
    refine ⟨rfl, ⟨r, hr, rfl⟩, fun r' hr' hid => ?_⟩
    rw [Table.eq_of_key_eq hr' hr hid, if_pos hp]
    exact hdead r
  · obtain ⟨r, -, heq⟩ := List.mem_map.mp hid
    cases heq
  · have hmore := hpending r
    have := hattempts r
    split <;> omega

theorem pending_le_set (hk : q.requests[k]? = some t) (hcharge : ∀ r, t.mayCharge r = false) (r : Verification) :
    q.pending r ≤ (q.requests.set k t').countP (·.mayCharge r) := by
  have hset := @countP_requests q k t t' hk (·.mayCharge r)
  simp only [hcharge r, Bool.false_eq_true, if_false, Nat.add_zero] at hset
  unfold pending
  omega

theorem attempts_le_consume (purpose : VerificationPurpose) (r : Verification) :
    r.attempts ≤ (r.consume purpose now).attempts := by
  cases purpose
  · exact Nat.le_succ _
  · exact Nat.le_refl _
  · exact Nat.le_refl _

/-- The failed attempt is counted in the row as it was read. -/
theorem Sound.recordFailed (h : q.Sound) (hk : q.requests[k]? = some t) {verification : Verification} {hadActiveCode : Bool}
    (hawait : t.await = .recordFailed verification now hadActiveCode) (hmem : verification ∈ q.codes)
    (ht' : t'.Held q.clock) {events : List CodeEvent}
    (hevents : events = if (verification.usedAfterFailure now).isSome then [.retired verification.id] else []) :
    Sound { q.write (q.codes.updateWhere (fun r => r.id = verification.id) (verification.recordFailed now), events) with
      requests := q.requests.set k t' } := by
  have hunused : verification.usedAt = none := by
    have hheld := h.held t (List.mem_of_getElem? hk)
    simp only [CodeRequest.Held, hawait] at hheld
    exact hheld
  have hrow : ∀ r ∈ q.codes.rows, r.id = verification.id → r = verification := fun r hr hid => Table.eq_of_key_eq hr hmem hid
  refine h.write (fun r => if decide (r.id = verification.id) then verification.recordFailed now r else r) rfl
    (fun r hr => .ite fun hp => ?_) (fun e he => ?_) (fun id hid => ?_) (fun r hr ha => ?_) (held_set h ht')
  · refine ⟨rfl, rfl, rfl, rfl, rfl, fun _ => ?_⟩
    rw [hrow r hr (of_decide_eq_true hp)]
    exact hunused
  · simp only [hevents] at he
    split at he
    · next hused =>
      rw [List.mem_singleton] at he
      subst he
      refine ⟨rfl, ⟨verification, hmem, rfl⟩, fun r _ hid => ?_⟩
      obtain ⟨at', hat⟩ := Option.isSome_iff_exists.mp hused
      rw [if_pos (decide_eq_true (show r.id = verification.id from hid))]
      simp [Verification.isActive, Verification.recordFailed, hat]
    · cases he
  · simp only [hevents] at hid
    split at hid
    · rw [List.mem_singleton] at hid
      cases hid
    · cases hid
  · have hset := @countP_requests q k t t' hk (·.mayCharge r)
    simp only [CodeRequest.mayCharge, hawait] at hset
    unfold pending
    by_cases hid : r.id = verification.id
    · obtain rfl := hrow r hr hid
      rw [if_pos (decide_eq_true rfl)]
      simp only [decide_true, if_true] at hset
      simp only [CodeRequest.mayCharge, Verification.recordFailed]
      omega
    · rw [if_neg (by simpa using hid)]
      have hne : verification.id ≠ r.id := fun heq => hid heq.symm
      simp only [hne, decide_false, Bool.false_eq_true, if_false] at hset
      simp only [CodeRequest.mayCharge]
      omega

/-- A code is accepted: it is active, and is not from then on. -/
theorem Sound.consume (h : q.Sound) {id : String} (hk : q.requests[k]? = some t) (hcharge : ∀ r, t.mayCharge r = false)
    (hany : q.codes.any (·.isConsumable t.purpose id q.clock) = true) (ht' : t'.Held q.clock) :
    Sound { q.write (q.codes.updateWhere (·.isConsumable t.purpose id q.clock) (·.consume t.purpose q.clock)
      (Verification.consume_id t.purpose q.clock), [.accepted id]) with requests := q.requests.set k t' } := by
  obtain ⟨r, hr, hp⟩ := Table.any_eq_true.mp hany
  have hconsumable := hp
  simp only [Verification.isConsumable, Bool.and_eq_true, decide_eq_true_eq] at hconsumable
  obtain ⟨⟨⟨hid, -⟩, hactive⟩, -⟩ := hconsumable
  refine h.write (fun r => if r.isConsumable t.purpose id q.clock then r.consume t.purpose q.clock else r) rfl
    (fun r _ => @Verification.Ages.ite r (·.consume t.purpose q.clock) _ fun _ => .consume r q.clock) (fun e he => ?_) (fun id' hid' => ?_) (fun r' _ _ => ?_) (held_set h ht')
  · obtain rfl := List.mem_singleton.mp he
    refine ⟨rfl, ⟨r, hr, hid⟩, fun r' hr' hid' => ?_⟩
    rw [Table.eq_of_key_eq hr' hr (hid'.trans hid.symm), if_pos hp]
    exact Verification.isActive_consume
  · cases List.mem_singleton.mp hid'
    exact ⟨rfl, r, hr, hid, hactive⟩
  · have hmore := @pending_le_set q k t t' hk hcharge r'
    have := @attempts_le_consume q.clock t.purpose r'
    split <;> omega

/-- **A request that goes on keeps the invariant.** -/
theorem Sound.resume (h : q.Sound) {ok : Bool} {x : Codes × List CodeEvent} {await : CodeAwait}
    (hk : q.requests[k]? = some t) (hno : q.Undisturbed (q.clock, .resume k ok))
    (hstep : t.resume hashToken q.codes ok q.clock = some (x, await)) :
    Sound { q.write x with requests := q.requests.set k { t with await := await } } := by
  have hheld := h.held t (List.mem_of_getElem? hk)
  simp only [Undisturbed, hk] at hno
  cases hawait : t.await with
  | insert id codeHash expiresAt =>
    simp only [CodeRequest.resume, hawait, Option.map_eq_some_iff, Prod.mk.injEq] at hstep
    obtain ⟨codes, hins, rfl, rfl⟩ := hstep
    simp only [hawait] at hno
    refine h.insert hins rfl (fun r hr hsame => ?_) (fun e he => ?_) (fun r _ => ?_) (held_set h trivial)
    · exact hno r hr (Verification.isFor_iff.mpr ⟨hsame.1, hsame.2⟩)
    · obtain ⟨r, hr, rfl⟩ := List.mem_map.mp he
      obtain ⟨hr, hfor⟩ := Table.mem_select.mp hr
      exact ⟨r, hr, rfl, Verification.isFor_iff.mp hfor⟩
    · exact pending_le_set hk (fun r => by simp only [CodeRequest.mayCharge, hawait]) r
  | deliver id =>
    simp only [CodeRequest.resume, hawait, Option.some.injEq, Prod.mk.injEq] at hstep
    obtain ⟨rfl, rfl⟩ := hstep
    refine h.read hk ?_ fun r _ _ hcharged => ?_
    · cases ok <;> trivial
    · simp only [CodeRequest.mayCharge, hawait] at hcharged
      cases hcharged
  | undelivered id =>
    simp only [CodeRequest.resume, hawait, Option.some.injEq, Prod.mk.injEq] at hstep
    obtain ⟨rfl, rfl⟩ := hstep
    refine h.retire (fun r => .consume r _) (fun r => Verification.isActive_consume) (fun r => ?_)
      (fun r => attempts_le_consume t.purpose r) (held_set h trivial)
    exact pending_le_set hk (fun r => by simp only [CodeRequest.mayCharge, hawait]) r
  | isLocked code =>
    simp only [CodeRequest.resume, hawait, Option.some.injEq, Prod.mk.injEq] at hstep
    obtain ⟨rfl, rfl⟩ := hstep
    refine h.read hk ?_ fun r _ _ hcharged => ?_
    · unfold CodeRequest.Held
      split_ifs <;> trivial
    · simp only [CodeRequest.mayCharge, hawait] at hcharged
      cases hcharged
  | hasActiveCode codeHash =>
    simp only [CodeRequest.resume, hawait, Option.some.injEq, Prod.mk.injEq] at hstep
    obtain ⟨rfl, rfl⟩ := hstep
    refine h.read hk trivial fun r _ _ hcharged => ?_
    simp only [CodeRequest.mayCharge, hawait] at hcharged
    cases hcharged
  | verify codeHash hadActiveCode =>
    simp only [CodeRequest.resume, hawait] at hstep
    split at hstep
    · next verification _ =>
      simp only [Option.some.injEq, Prod.mk.injEq] at hstep
      obtain ⟨rfl, rfl⟩ := hstep
      refine h.read hk ?_ fun r _ _ hcharged => ?_
      · unfold CodeRequest.Held CodeAwait.notAccepted
        split_ifs <;> trivial
      · simp only [CodeRequest.mayCharge, hawait] at hcharged
        cases hcharged
    · next hnone =>
      simp only [Option.some.injEq, Prod.mk.injEq] at hstep
      obtain ⟨rfl, rfl⟩ := hstep
      simp only [hawait] at hno
      refine h.guess (hno hnone) (fun r _ => ?_) (held_set h (Nat.le_refl _))
      have hset := @countP_requests q k t { t with await := .findActive q.clock hadActiveCode } hk (·.mayCharge r)
      simp only [CodeRequest.mayCharge, hawait, Bool.false_eq_true, if_false, Nat.add_zero] at hset
      unfold pending CodeRequest.mayCharge
      cases hfor : r.isFor t.purpose t.email <;> simp only [hfor] at hset ⊢ <;> omega
  | findActive now hadActiveCode =>
    simp only [CodeRequest.Held, hawait] at hheld
    simp only [CodeRequest.resume, hawait] at hstep
    split at hstep
    · next verification hnewest =>
      simp only [Option.some.injEq, Prod.mk.injEq] at hstep
      obtain ⟨rfl, rfl⟩ := hstep
      have hfound := Table.mem_select.mp (List.mem_of_getLast? hnewest)
      simp only [Bool.and_eq_true] at hfound
      refine h.read hk (Verification.isActive_iff.mp hfound.2.2).1 fun r hr ha hcharged => ?_
      simp only [CodeRequest.mayCharge, hawait] at hcharged
      rw [h.eq_newest hheld hr hcharged ha, Option.some.injEq] at hnewest
      simp [CodeRequest.mayCharge, hnewest]
    · next hnone =>
      simp only [Option.some.injEq, Prod.mk.injEq] at hstep
      obtain ⟨rfl, rfl⟩ := hstep
      refine h.read hk ?_ fun r hr ha hcharged => ?_
      · unfold CodeRequest.Held CodeAwait.notAccepted
        split_ifs <;> trivial
      · simp only [CodeRequest.mayCharge, hawait] at hcharged
        rw [h.eq_newest hheld hr hcharged ha] at hnone
        cases hnone
  | recordFailed verification now hadActiveCode =>
    simp only [CodeRequest.resume, hawait, Option.some.injEq, Prod.mk.injEq] at hstep
    obtain ⟨rfl, rfl⟩ := hstep
    simp only [hawait] at hno
    refine h.recordFailed hk hawait hno ?_ rfl
    unfold CodeRequest.Held CodeAwait.notAccepted
    split_ifs <;> trivial
  | recordFailure outcome =>
    simp only [CodeRequest.resume, hawait, Option.some.injEq, Prod.mk.injEq] at hstep
    obtain ⟨rfl, rfl⟩ := hstep
    refine h.read hk ?_ fun r _ _ hcharged => ?_
    · cases ok <;> trivial
    · simp only [CodeRequest.mayCharge, hawait] at hcharged
      cases hcharged
  | invalidatePending =>
    simp only [CodeRequest.resume, hawait, Option.some.injEq, Prod.mk.injEq] at hstep
    obtain ⟨rfl, rfl⟩ := hstep
    refine h.retire (fun r => .use r _) (fun r => Verification.isActive_use) (fun r => ?_) (fun r => Nat.le_refl _)
      (held_set h trivial)
    exact pending_le_set hk (fun r => by simp only [CodeRequest.mayCharge, hawait]) r
  | clear id =>
    simp only [CodeRequest.resume, hawait, Option.some.injEq, Prod.mk.injEq] at hstep
    obtain ⟨rfl, rfl⟩ := hstep
    refine h.read hk ?_ fun r _ _ hcharged => ?_
    · cases t.purpose <;> trivial
    · simp only [CodeRequest.mayCharge, hawait] at hcharged
      cases hcharged
  | access id =>
    simp only [CodeRequest.resume, hawait, Option.some.injEq, Prod.mk.injEq] at hstep
    obtain ⟨rfl, rfl⟩ := hstep
    refine h.read hk ?_ fun r _ _ hcharged => ?_
    · cases ok <;> trivial
    · simp only [CodeRequest.mayCharge, hawait] at hcharged
      cases hcharged
  | consume id =>
    simp only [CodeRequest.resume, hawait] at hstep
    have hcharge : ∀ r, t.mayCharge r = false := fun r => by simp only [CodeRequest.mayCharge, hawait]
    split at hstep
    · next hany =>
      simp only [Option.some.injEq, Prod.mk.injEq] at hstep
      obtain ⟨rfl, rfl⟩ := hstep
      exact h.consume hk hcharge hany trivial
    · simp only [Option.some.injEq, Prod.mk.injEq] at hstep
      obtain ⟨rfl, rfl⟩ := hstep
      refine h.read hk trivial fun r _ _ hcharged => ?_
      rw [hcharge r] at hcharged
      cases hcharged
  | ended outcome =>
    simp only [CodeRequest.resume, hawait] at hstep
    cases hstep

theorem Sound.step (h : q.Sound) {a : CodeLabel} {q' : CodeState} (hno : q.Undisturbed (q.clock, a))
    (hstep : q.step hashToken q.clock a = some q') : q'.Sound := by
  cases a with
  | issue purpose email id code =>
    cases hstep
    refine h.retire (fun r => .use r _) (fun r => Verification.isActive_use) (fun r => ?_) (fun r => Nat.le_refl _)
      (@held_append q _ h trivial)
    exact (List.sublist_append_left q.requests _).countP_le
  | verify purpose email code =>
    cases hstep
    show Sound { q.write (q.codes, []) with requests := q.requests ++ [⟨purpose, email, .isLocked code⟩] }
    refine h.write id (List.map_id _).symm (fun r _ => .refl r) nofun nofun (fun r _ _ => ?_) (held_append h trivial)
    exact Nat.add_le_add_left (List.sublist_append_left q.requests _).countP_le _
  | resume k ok =>
    simp only [CodeState.step, Option.bind_eq_bind, Option.bind_eq_some_iff, Option.pure_def, Option.some.injEq] at hstep
    obtain ⟨t, hk, ⟨x, await⟩, hresume, rfl⟩ := hstep
    exact h.resume hk hno hresume
  | consumeRecoverySession id =>
    cases hstep
    show Sound { q.write (q.codes.updateWhere (·.hasSession id) Verification.endSession, []) with requests := q.requests }
    refine h.write (fun r => if r.hasSession id then r.endSession else r) rfl
      (fun r _ => @Verification.Ages.ite r Verification.endSession _ fun _ => ?_) nofun nofun (fun r _ ha => ?_) h.held
    · exact ⟨rfl, rfl, rfl, rfl, rfl, fun hused => hused⟩
    · split at ha
      · next hsession =>
        simp only [Verification.hasSession, Bool.and_eq_true] at hsession
        have hactive : r.isActive q.clock = true := ha
        rw [Verification.isActive_iff] at hactive
        simp [hactive.1] at hsession
      · next hsession =>
        rw [if_neg hsession]
        exact Nat.le_refl _

/-! ## Runs -/

/-- **Verification codes are single use, and their guesses are bounded.** -/
theorem codes_single_use (h : (verificationCodes hashToken).ReachableUnder Undisturbed q) :
    (∀ id, q.log.count (.accepted id) ≤ 1) ∧ q.log.Pairwise CodeEvent.After ∧
      ∀ r ∈ q.codes.rows, q.guesses r.id ≤ r.maxAttempts := by
  have hsound : q.Sound := by
    refine h.invariant Sound (fun s hinit => ?_) fun s a s' _ hs hno hstep => ?_
    · rw [show s = ⟨0, .empty, [], []⟩ from hinit]
      exact ⟨nofun, .nil, .nil, nofun, nofun, nofun, nofun⟩
    · simp only [verificationCodes] at hstep
      split at hstep
      · next hclock => exact (hs.tick hclock).step (a := a.2) hno hstep
      · cases hstep
  refine ⟨fun id => ?_, hsound.ordered, hsound.bounded⟩
  have hordered := hsound.ordered
  generalize q.log = log at hordered
  induction log with
  | nil => exact Nat.zero_le _
  | cons e log ih =>
    obtain ⟨hhead, htail⟩ := List.pairwise_cons.mp hordered
    have hrest := ih htail
    rw [List.count_cons]
    split
    · next heq =>
      have hnot : CodeEvent.accepted id ∉ log := fun hmem => (hhead _ hmem id (by simpa using heq)).1 rfl
      rw [List.count_eq_zero.mpr hnot]
    · exact hrest

/-! ## One code -/

instance (q : CodeState) (a : Time × CodeLabel) : Decidable (q.Undisturbed a) := by
  unfold Undisturbed
  split
  · split
    · exact inferInstanceAs (Decidable True)
    · split <;> infer_instance
  · exact inferInstanceAs (Decidable True)

def recoveryCode : List (Time × CodeLabel) :=
  [(0, .issue .recovery "ann" "code" "123456"), (0, .resume 0 true), (0, .resume 0 true)]

/-- The request of a number goes on for some statements, all answered by `true`. -/
def goesOn (k n : Nat) : List (Time × CodeLabel) := List.replicate n (1, .resume k true)

/-- A wrong guess, and then the right one. -/
theorem codes_single_use_recovery : ∃ q : CodeState, q.log = [.accepted "code", .guessed "code"] ∧
    ((∀ id, q.log.count (.accepted id) ≤ 1) ∧ q.log.Pairwise CodeEvent.After ∧
      ∀ r ∈ q.codes.rows, q.guesses r.id ≤ r.maxAttempts) := by
  have hrun : ((verificationCodes id).runUnder Undisturbed ⟨0, .empty, [], []⟩
      (recoveryCode ++ [(1, .verify .recovery "ann" "000000")] ++ goesOn 1 6 ++
        [(1, .verify .recovery "ann" "123456")] ++ goesOn 2 5)).map (·.log) = some [.accepted "code", .guessed "code"] := by
    decide +kernel
  obtain ⟨q, hq, hlog⟩ := Option.map_eq_some_iff.mp hrun
  exact ⟨q, hlog, codes_single_use (System.ReachableUnder.runUnder (.init rfl) hq)⟩

/-- A wrong guess is compared with the code before the right one is accepted, and written back
after it: the code is accepted twice. -/
theorem code_accepted_twice : ∃ q : CodeState, (verificationCodes id).Reachable q ∧ q.log.count (.accepted "code") = 2 := by
  have hrun : ((verificationCodes id).run ⟨0, .empty, [], []⟩
      (recoveryCode ++ [(1, .verify .recovery "ann" "000000")] ++ goesOn 1 4 ++
        [(1, .verify .recovery "ann" "123456")] ++ goesOn 2 5 ++ goesOn 1 1 ++
        [(1, .verify .recovery "ann" "123456")] ++ goesOn 3 5)).map (fun q => q.log.count (.accepted "code")) = some 2 := by
    decide +kernel
  obtain ⟨q, hq, hlog⟩ := Option.map_eq_some_iff.mp hrun
  exact ⟨q, System.Reachable.run (.init rfl) hq, hlog⟩

end CodeState

end Bittery
