/-
The two backends answer alike: a simulation between the row of a subject and the three keys that Redis keeps
for it, over calls that the configured limits admit and that no rounding of a clock comes between.
-/
import Bittery.Server.RateLimits

namespace Bittery

open Lib

/-! ## Every subject has keys of its own -/

def Scope.all : List Scope :=
  [.loginIp, .loginEmail, .signupIp, .signupEmail, .signupVerifyRequestEmail, .signupVerifyRequestIp, .signupVerify,
    .recoveryRequestEmail, .recoveryRequestIp, .recoveryVerify, .shareEmailVerify, .genericIp, .shareCreateDaily,
    .updateEmailUser, .changePasswordUser, .regenerateSecretKeyUser, .deleteAccountUser, .revokeSessionActor,
    .renameSessionActor]

theorem Scope.mem_all (scope : Scope) : scope ∈ all := by cases scope <;> decide

theorem Scope.text_inj {scope scope' : Scope} (h : scope.text = scope'.text) : scope = scope' := by
  have hall : ∀ scope ∈ all, ∀ scope' ∈ all, scope.text = scope'.text → scope = scope' := by decide +kernel
  exact hall scope scope.mem_all scope' scope'.mem_all h

theorem Scope.colon_notMem_text (scope : Scope) : ':' ∉ scope.text.toList := by
  have hall : ∀ scope ∈ all, ':' ∉ scope.text.toList := by decide +kernel
  exact hall scope scope.mem_all

namespace RedisRateLimiter

theorem toList_counterKey (subject : Scope × String) :
    (counterKey subject).toList = "rl:c:".toList ++ (subject.1.text.toList ++ ':' :: subject.2.toList) := by
  simp [counterKey, String.toList_append]

theorem toList_attemptsKey (subject : Scope × String) :
    (attemptsKey subject).toList = "rl:a:\x7b".toList ++ (subject.1.text.toList ++ ':' :: (subject.2.toList ++ ['}'])) := by
  simp [attemptsKey, String.toList_append]

theorem toList_lockKey (subject : Scope × String) :
    (lockKey subject).toList = "rl:l:\x7b".toList ++ (subject.1.text.toList ++ ':' :: (subject.2.toList ++ ['}'])) := by
  simp [lockKey, String.toList_append]

theorem subject_eq {subject subject' : Scope × String} {a b : List Char}
    (h : subject.1.text.toList ++ ':' :: a = subject'.1.text.toList ++ ':' :: b) (hkey : a = b → subject.2 = subject'.2) :
    subject = subject' := by
  obtain ⟨hscope, htail⟩ := Framing.append_cons_inj (Scope.colon_notMem_text _) (Scope.colon_notMem_text _) h
  exact Prod.ext (Scope.text_inj (String.toList_injective hscope)) (hkey htail)

theorem counterKey_inj {subject subject' : Scope × String} (h : counterKey subject = counterKey subject') :
    subject = subject' := by
  have h := congrArg String.toList h
  rw [toList_counterKey, toList_counterKey] at h
  exact subject_eq (List.append_cancel_left h) String.toList_injective

theorem attemptsKey_inj {subject subject' : Scope × String} (h : attemptsKey subject = attemptsKey subject') :
    subject = subject' := by
  have h := congrArg String.toList h
  rw [toList_attemptsKey, toList_attemptsKey] at h
  exact subject_eq (List.append_cancel_left h) fun heq => String.toList_injective (List.append_cancel_right heq)

theorem lockKey_inj {subject subject' : Scope × String} (h : lockKey subject = lockKey subject') :
    subject = subject' := by
  have h := congrArg String.toList h
  rw [toList_lockKey, toList_lockKey] at h
  exact subject_eq (List.append_cancel_left h) fun heq => String.toList_injective (List.append_cancel_right heq)

theorem counterKey_ne_attemptsKey (subject subject' : Scope × String) : counterKey subject ≠ attemptsKey subject' := fun h => by
  have h := congrArg (fun s => s.toList.take 4) h
  simp only [toList_counterKey, toList_attemptsKey] at h
  exact absurd h (by simp)

theorem counterKey_ne_lockKey (subject subject' : Scope × String) : counterKey subject ≠ lockKey subject' := fun h => by
  have h := congrArg (fun s => s.toList.take 4) h
  simp only [toList_counterKey, toList_lockKey] at h
  exact absurd h (by simp)

theorem attemptsKey_ne_lockKey (subject subject' : Scope × String) : attemptsKey subject ≠ lockKey subject' := fun h => by
  have h := congrArg (fun s => s.toList.take 4) h
  simp only [toList_attemptsKey, toList_lockKey] at h
  exact absurd h (by simp)

theorem live_of_not_isExpired {entry : Entry} {now : Nat} (h : entry.isExpired now = false) :
    live (some entry) now = some entry := by
  simp [live, h]

theorem live_of_isExpired {entry : Entry} {now : Nat} (h : entry.isExpired now = true) : live (some entry) now = none := by
  simp [live, h]

/-- What is gone stays gone. -/
theorem live_none_mono {cell : Option Entry} {now now' : Nat} (hle : now ≤ now') (h : live cell now = none) :
    live cell now' = none := by
  cases cell with
  | none => rfl
  | some entry =>
    have hexpired : entry.isExpired now = true := by simpa [live] using h
    refine live_of_isExpired ?_
    simp only [Entry.isExpired, Option.any_eq_true, decide_eq_true_eq] at hexpired ⊢
    obtain ⟨expiresAt, hexpires, hlt⟩ := hexpired
    exact ⟨expiresAt, hexpires, Nat.lt_of_lt_of_le hlt (Nat.div_le_div_right hle)⟩

theorem incr_of_live_none {cell : Option Entry} {now : Nat} (h : live cell now = none) :
    incr cell now = { value := 1, expiresAt := none } := by
  rw [incr, h]

theorem incr_of_not_isExpired {entry : Entry} {now : Nat} (h : entry.isExpired now = false) :
    incr (some entry) now = { entry with value := entry.value + 1 } := by
  rw [incr, live_of_not_isExpired h]

end RedisRateLimiter

open PostgresRateLimiter RedisRateLimiter

/-! ## The simulation -/

/-- A limit that the configuration admits, and that fits the column it is compared with. -/
structure WindowLimit.Admitted (limit : WindowLimit) : Prop where
  max_pos : 1 ≤ limit.max
  max_lt : limit.max < 2 ^ 31
  window_pos : 1 ≤ limit.window

/-- The windows agree: a count stops at the limit, its key goes on counting. -/
def WindowAgrees (limit : WindowLimit) (row : Option Row) (counter : Option Entry) : Prop :=
  match row.bind (·.windowStartAt) with
  | none => counter = none
  | some start => ∃ c, counter = some ⟨c, some (start / 1000 + limit.window * 1000)⟩ ∧ 1 ≤ c ∧
      ∀ r ∈ row, c ≤ limit.max ∧ r.count = c ∨ limit.max ≤ c ∧ r.count = limit.max

/-- The failures agree: Redis holds the lock, once it is set, in place of the attempts. -/
def FailuresAgree (now : Nat) (row : Option Row) (attempts lock : Option Entry) : Prop :=
  match row with
  | none => attempts = none ∧ live lock now = none
  | some r =>
    match r.lockedUntil with
    | none => live lock now = none ∧ r.attempts < 2 ^ 31 - 1 ∧
        (r.attempts = 0 ∧ attempts = none ∨ 0 < r.attempts ∧ ∃ expiresAt, attempts = some ⟨r.attempts, some expiresAt⟩)
    | some lockedUntil => attempts = none ∧ lock = some ⟨1, some (lockedUntil / 1000)⟩

structure AgreeAt (limit : WindowLimit) (now : Nat) (row : Option Row) (counter attempts lock : Option Entry) :
    Prop where
  window : WindowAgrees limit row counter
  failures : FailuresAgree now row attempts lock

def Agree (policy : Scope → WindowLimit) (now : Nat) (rows : Rows) (store : Store) : Prop :=
  ∀ subject, AgreeAt (policy subject.1) now (rows subject) (store (counterKey subject)) (store (attemptsKey subject))
    (store (lockKey subject))

/-- A call within the configured limits. -/
def RateLimitCall.Follows (policy : Scope → WindowLimit) : RateLimitCall → Prop
  | checkAndIncrement scope _ limit window => limit = (policy scope).max ∧ window = (policy scope).window
  | recordFailure _ _ maxAttempts lockDuration => maxAttempts < 2 ^ 31 ∧ 1 ≤ lockDuration
  | isLocked _ _ | clear _ _ => True

/-- The call is not in the very millisecond in which a lock has ended. -/
def PastLock (row : Option Row) (now : Nat) : Prop :=
  ∀ r ∈ row, ∀ lockedUntil ∈ r.lockedUntil, lockedUntil ≤ now → lockedUntil / 1000 < now / 1000

/-- A call that is not in the very millisecond in which a window or a lock has ended, nor a failure that is
recorded after the attempts before it are gone from Redis. -/
def RateLimitCall.Undisturbed (row : Option Row) (attempts : Option Entry) (now : Nat) : RateLimitCall → Prop
  | checkAndIncrement _ _ _ window => ∀ r ∈ row, ∀ start ∈ r.windowStartAt,
      start + window * 1000000 < now → (start + window * 1000000) / 1000 < now / 1000
  | recordFailure _ _ _ _ => PastLock row now ∧ ∀ entry ∈ attempts, entry.isExpired now = false
  | isLocked _ _ => PastLock row now
  | clear _ _ => True

theorem asI32_of_lt {n : Int} (hpos : 0 ≤ n) (hlt : n < 2 ^ 31) : asI32 n = n :=
  Int.bmod_eq_of_le (by omega) (by omega)

theorem failuresAgree_of_unlocked {now : Nat} {r : Row} {attempts lock : Option Entry} (h : r.lockedUntil = none) :
    FailuresAgree now (some r) attempts lock ↔ live lock now = none ∧ r.attempts < 2 ^ 31 - 1 ∧
      (r.attempts = 0 ∧ attempts = none ∨ 0 < r.attempts ∧ ∃ expiresAt, attempts = some ⟨r.attempts, some expiresAt⟩) := by
  simp only [FailuresAgree, h]

theorem failuresAgree_of_locked {now : Nat} {r : Row} {attempts lock : Option Entry} {lockedUntil : Nat}
    (h : r.lockedUntil = some lockedUntil) :
    FailuresAgree now (some r) attempts lock ↔ attempts = none ∧ lock = some ⟨1, some (lockedUntil / 1000)⟩ := by
  simp only [FailuresAgree, h]

theorem FailuresAgree.mono {now now' : Nat} {row : Option Row} {attempts lock : Option Entry} (hle : now ≤ now')
    (h : FailuresAgree now row attempts lock) : FailuresAgree now' row attempts lock := by
  cases row with
  | none => exact ⟨h.1, live_none_mono hle h.2⟩
  | some r =>
    cases hlocked : r.lockedUntil with
    | none =>
      rw [failuresAgree_of_unlocked hlocked] at h ⊢
      exact ⟨live_none_mono hle h.1, h.2⟩
    | some lockedUntil =>
      rw [failuresAgree_of_locked hlocked] at h ⊢
      exact h

/-- A row that is made for a subject without one holds no failures. -/
theorem FailuresAgree.of_seed {now : Nat} {row : Option Row} {attempts lock : Option Entry} {seed : Row}
    (h : FailuresAgree now row attempts lock) (hattempts : seed.attempts = 0) (hlocked : seed.lockedUntil = none) :
    FailuresAgree now (some (seeded row seed)) attempts lock := by
  cases row with
  | none =>
    exact (failuresAgree_of_unlocked hlocked).2 ⟨h.2, (show seed.attempts < 2 ^ 31 - 1 by omega), .inl ⟨hattempts, h.1⟩⟩
  | some r => exact h

theorem FailuresAgree.congr {now : Nat} {r r' : Row} {attempts lock : Option Entry}
    (h : FailuresAgree now (some r) attempts lock) (hattempts : r'.attempts = r.attempts)
    (hlocked : r'.lockedUntil = r.lockedUntil) : FailuresAgree now (some r') attempts lock := by
  simpa only [FailuresAgree, hattempts, hlocked] using h

theorem Agree.mono {policy : Scope → WindowLimit} {now now' : Nat} {rows : Rows} {store : Store} (hle : now ≤ now')
    (h : Agree policy now rows store) : Agree policy now' rows store :=
  fun subject => ⟨(h subject).window, (h subject).failures.mono hle⟩

/-! ### One subject -/

theorem isStale_of_lt {start now length : Nat} (h : start + length < now) : isStale (some start) (now - length) = true :=
  decide_eq_true (Nat.lt_sub_iff_add_lt.2 h)

theorem not_isStale_of_le {start now length : Nat} (h : ¬ start + length < now) :
    isStale (some start) (now - length) = false :=
  decide_eq_false fun hlt => h (Nat.lt_sub_iff_add_lt.1 hlt)

/-- Whether a check begins a window: there is no row, or its window has ended or never began. -/
def Begins (row : Option Row) (now : Nat) (window : Nat) : Prop :=
  ∀ r ∈ row, isStale r.windowStartAt (now - window * 1000000) = true

theorem checkAndIncrement_begins {row : Option Row} {now : Nat} {limit : WindowLimit} (hlimit : limit.Admitted)
    (h : Begins row now limit.window) :
    (PostgresRateLimiter.checkAndIncrement row now limit.max limit.window).2 = .allowed ∧
      (PostgresRateLimiter.checkAndIncrement row now limit.max limit.window).1.count = 1 ∧
      (PostgresRateLimiter.checkAndIncrement row now limit.max limit.window).1.windowStartAt = some now := by
  have hmax : asI32 limit.max = limit.max := asI32_of_lt (by have := hlimit.max_pos; omega) hlimit.max_lt
  have hpos := hlimit.max_pos
  cases row with
  | none =>
    have hfresh : isStale (some now) (now - limit.window * 1000000) = false :=
      not_isStale_of_le (Nat.not_lt.2 (Nat.le_add_right _ _))
    have hroom : (0 : Int) < limit.max := by omega
    simp [PostgresRateLimiter.checkAndIncrement, seeded, hfresh, hmax, hroom]
  | some r => simp [PostgresRateLimiter.checkAndIncrement, seeded, h r rfl]

theorem counterScript_begins {counter : Option Entry} {now : Nat} {limit : WindowLimit} (hlimit : limit.Admitted)
    (h : live counter now = none) :
    counterScript counter now limit.window limit.max =
      (some ⟨1, some (now / 1000 + limit.window * 1000)⟩, false) := by
  have hwindow := hlimit.window_pos
  have hmax := hlimit.max_pos
  simp [counterScript, incr_of_live_none h, expire, show ¬ limit.window = 0 by omega, hmax]

/-- What a check leaves of the failures. -/
theorem checkAndIncrement_failures (row : Option Row) (now : Nat) (limit : Int) (window : Nat) :
    let seed : Row := { count := 0, windowStartAt := some now, attempts := 0, lockedUntil := none }
    (PostgresRateLimiter.checkAndIncrement row now limit window).1.attempts = (seeded row seed).attempts ∧
      (PostgresRateLimiter.checkAndIncrement row now limit window).1.lockedUntil = (seeded row seed).lockedUntil := by
  unfold PostgresRateLimiter.checkAndIncrement
  simp only
  split <;> exact ⟨rfl, rfl⟩

/-- The window of a subject, checked on both sides. -/
theorem WindowAgrees.check {row : Option Row} {counter : Option Entry} {now : Nat} {limit : WindowLimit}
    (hlimit : limit.Admitted) (h : WindowAgrees limit row counter)
    (hpast : ∀ r ∈ row, ∀ start ∈ r.windowStartAt,
      start + limit.window * 1000000 < now → (start + limit.window * 1000000) / 1000 < now / 1000) :
    (PostgresRateLimiter.checkAndIncrement row now limit.max limit.window).2 =
        outcomeOf (counterScript counter now limit.window limit.max).2 ∧
      WindowAgrees limit (some (PostgresRateLimiter.checkAndIncrement row now limit.max limit.window).1)
        (counterScript counter now limit.window limit.max).1 := by
  have hbegins : Begins row now limit.window → live counter now = none →
      (PostgresRateLimiter.checkAndIncrement row now limit.max limit.window).2 =
          outcomeOf (counterScript counter now limit.window limit.max).2 ∧
        WindowAgrees limit (some (PostgresRateLimiter.checkAndIncrement row now limit.max limit.window).1)
          (counterScript counter now limit.window limit.max).1 := fun hrow hcounter => by
    obtain ⟨houtcome, hcount, hstart⟩ := checkAndIncrement_begins hlimit hrow
    rw [houtcome, counterScript_begins hlimit hcounter]
    refine ⟨rfl, ?_⟩
    simp only [WindowAgrees, Option.bind_some, hstart]
    refine ⟨1, rfl, Int.le_refl _, fun r hr => .inl ⟨hlimit.max_pos, ?_⟩⟩
    rw [← Option.some.inj hr, hcount]
  cases row with
  | none =>
    obtain rfl : counter = none := h
    exact hbegins (fun r hr => by cases hr) rfl
  | some r =>
    cases hstart : r.windowStartAt with
    | none =>
      obtain rfl : counter = none := by simpa [WindowAgrees, hstart] using h
      exact hbegins (fun r' hr => by obtain rfl := Option.some.inj hr; rw [hstart]; rfl) rfl
    | some start =>
      obtain ⟨c, rfl, hc, hcount⟩ : ∃ c, counter = some ⟨c, some (start / 1000 + limit.window * 1000)⟩ ∧ 1 ≤ c ∧
          ∀ r' ∈ some r, c ≤ limit.max ∧ r'.count = c ∨ limit.max ≤ c ∧ r'.count = limit.max := by
        simpa [WindowAgrees, hstart] using h
      have hcount := hcount r rfl
      by_cases hended : start + limit.window * 1000000 < now
      · -- the window has ended, and so has its key
        have hgone := hpast r rfl start hstart hended
        refine hbegins (fun r' hr => ?_) (live_of_isExpired ?_)
        · obtain rfl := Option.some.inj hr
          rw [hstart]
          exact isStale_of_lt hended
        · simp only [Entry.isExpired, Option.any_some, decide_eq_true_eq]
          omega
      · -- the window goes on
        have hstale : isStale (some start) (now - limit.window * 1000000) = false := not_isStale_of_le hended
        have halive : Entry.isExpired ⟨c, some (start / 1000 + limit.window * 1000)⟩ now = false := by
          simp only [Entry.isExpired, Option.any_some, decide_eq_false_iff_not]
          omega
        have hmax : asI32 limit.max = limit.max := asI32_of_lt (by have := hlimit.max_pos; omega) hlimit.max_lt
        have hscript : counterScript (some ⟨c, some (start / 1000 + limit.window * 1000)⟩) now limit.window limit.max =
            (some ⟨c + 1, some (start / 1000 + limit.window * 1000)⟩, decide (limit.max < c + 1)) := by
          simp only [counterScript, incr_of_not_isExpired halive]
          rw [if_neg (by omega)]
        have hcheck : PostgresRateLimiter.checkAndIncrement (some r) now limit.max limit.window =
            if r.count < limit.max then ({ r with count := r.count + 1 }, .allowed) else (r, .limited) := by
          simp [PostgresRateLimiter.checkAndIncrement, seeded, hstart, hstale, hmax]
        rw [hscript, hcheck]
        by_cases hroom : r.count < limit.max
        · rw [if_pos hroom]
          refine ⟨by rw [outcomeOf, if_neg (by simp only [decide_eq_true_eq]; omega)], ?_⟩
          simp only [WindowAgrees, Option.bind_some, hstart]
          refine ⟨c + 1, rfl, by omega, fun r' hr => ?_⟩
          rw [← Option.some.inj hr]
          simp only
          omega
        · rw [if_neg hroom]
          refine ⟨by rw [outcomeOf, if_pos (by simp only [decide_eq_true_eq]; omega)], ?_⟩
          simp only [WindowAgrees, Option.bind_some, hstart]
          refine ⟨c + 1, rfl, by omega, fun r' hr => ?_⟩
          rw [← Option.some.inj hr]
          omega

/-- A failure recorded while no lock is held. -/
theorem failureScript_of_unlocked {attempts lock : Option Entry} {now : Nat} {lockSecs : Nat} {a : Int}
    (hlock : live lock now = none) (hsecs : 1 ≤ lockSecs) (hpos : 0 ≤ a)
    (hattempts : a = 0 ∧ attempts = none ∨ 0 < a ∧ ∃ expiresAt, attempts = some ⟨a, some expiresAt⟩)
    (halive : ∀ entry ∈ attempts, entry.isExpired now = false) :
    ∃ expiresAt, ∀ max, failureScript attempts lock now max lockSecs ATTEMPTS_RETENTION =
      if max ≤ a + 1 then ((none, some ⟨1, some (now / 1000 + lockSecs * 1000)⟩), .ok true)
      else ((some ⟨a + 1, some expiresAt⟩, lock), .ok false) := by
  have hexists : keyExists lock now = false := by rw [keyExists, hlock]; rfl
  have hset : setEx 1 now lockSecs = .ok ⟨1, some (now / 1000 + lockSecs * 1000)⟩ := by
    simp [setEx, show ¬ lockSecs = 0 by omega]
  rcases hattempts with ⟨rfl, rfl⟩ | ⟨hpos, expiresAt, rfl⟩
  · refine ⟨now / 1000 + ATTEMPTS_RETENTION * 1000, fun max => ?_⟩
    have hexpire : expire ⟨1, none⟩ now ATTEMPTS_RETENTION = some ⟨1, some (now / 1000 + ATTEMPTS_RETENTION * 1000)⟩ := rfl
    simp only [failureScript, hexists, incr_of_live_none (show live none now = none from rfl), hexpire, hset,
      Int.zero_add]
    rfl
  · refine ⟨expiresAt, fun max => ?_⟩
    have hne : ¬ a + 1 = 1 := by omega
    simp only [failureScript, hexists, incr_of_not_isExpired (halive _ rfl), hset]
    simp only [hne, if_false]
    rfl

/-- The row that failures of a subject without one are recorded in. -/
def failureSeed : Row := { count := 0, windowStartAt := none, attempts := 0, lockedUntil := none }

theorem recordFailure_of_unlocked {row : Option Row} {now : Nat} {max : Int} {lockSecs : Nat} {a : Int}
    (hunlocked : isLockedAt now (seeded row failureSeed).lockedUntil = false)
    (hbase : (if (seeded row failureSeed).lockedUntil.any (· ≤ now) then 0 else (seeded row failureSeed).attempts) = a)
    (hpos : 0 ≤ a) (hlt : a < 2 ^ 31 - 1) :
    PostgresRateLimiter.recordFailure row now max lockSecs =
      if max ≤ a + 1 then
        ({ seeded row failureSeed with attempts := a + 1, lockedUntil := some (now + lockSecs * 1000000) }, .limited)
      else ({ seeded row failureSeed with attempts := a + 1, lockedUntil := none }, .allowed) := by
  have hcast : asI32 (a + 1) = a + 1 := asI32_of_lt (by omega) (by omega)
  unfold PostgresRateLimiter.recordFailure
  change (if isLockedAt now (seeded row failureSeed).lockedUntil = true then _ else _) = _
  rw [if_neg (by rw [hunlocked]; decide)]
  dsimp only
  rw [show seeded row { count := 0, windowStartAt := none, attempts := 0, lockedUntil := none } =
    seeded row failureSeed from rfl, hbase, hcast]
  split <;> rfl

/-- A failure recorded on both sides while no lock is held: `a` others came before it. -/
theorem failuresAgree_of_recorded {row : Option Row} {attempts lock : Option Entry} {now : Nat} {max : Int} {lockSecs : Nat}
    {a : Int} (hmax : max < 2 ^ 31) (hsecs : 1 ≤ lockSecs)
    (hunlocked : isLockedAt now (seeded row failureSeed).lockedUntil = false)
    (hbase : (if (seeded row failureSeed).lockedUntil.any (· ≤ now) then 0 else (seeded row failureSeed).attempts) = a)
    (hlt : a < 2 ^ 31 - 1) (hlock : live lock now = none)
    (hattempts : a = 0 ∧ attempts = none ∨ 0 < a ∧ ∃ expiresAt, attempts = some ⟨a, some expiresAt⟩)
    (halive : ∀ entry ∈ attempts, entry.isExpired now = false) :
    ∃ limited, (failureScript attempts lock now max lockSecs ATTEMPTS_RETENTION).2 = .ok limited ∧
      (PostgresRateLimiter.recordFailure row now max lockSecs).2 = outcomeOf limited ∧
      FailuresAgree now (some (PostgresRateLimiter.recordFailure row now max lockSecs).1)
        (failureScript attempts lock now max lockSecs ATTEMPTS_RETENTION).1.1
        (failureScript attempts lock now max lockSecs ATTEMPTS_RETENTION).1.2 := by
  have hpos : 0 ≤ a := by omega
  obtain ⟨expiresAt, hscript⟩ := failureScript_of_unlocked hlock hsecs hpos hattempts halive
  rw [hscript max, recordFailure_of_unlocked hunlocked hbase hpos hlt]
  by_cases hreached : max ≤ a + 1
  · -- the lock is set
    rw [if_pos hreached, if_pos hreached]
    have hmillis : now / 1000 + lockSecs * 1000 = (now + lockSecs * 1000000) / 1000 := by omega
    exact ⟨true, rfl, rfl, (failuresAgree_of_locked rfl).2 ⟨rfl, by rw [hmillis]⟩⟩
  · rw [if_neg hreached, if_neg hreached]
    refine ⟨false, rfl, rfl, (failuresAgree_of_unlocked rfl).2 ⟨hlock, ?_, .inr ⟨?_, expiresAt, rfl⟩⟩⟩
    · simp only
      omega
    · simp only
      omega

/-- The failures of a subject, one more recorded on both sides. -/
theorem FailuresAgree.record {row : Option Row} {attempts lock : Option Entry} {now : Nat} {max : Int} {lockSecs : Nat}
    (h : FailuresAgree now row attempts lock) (hmax : max < 2 ^ 31) (hsecs : 1 ≤ lockSecs) (hpast : PastLock row now)
    (halive : ∀ entry ∈ attempts, entry.isExpired now = false) :
    ∃ limited, (failureScript attempts lock now max lockSecs ATTEMPTS_RETENTION).2 = .ok limited ∧
      (PostgresRateLimiter.recordFailure row now max lockSecs).2 = outcomeOf limited ∧
      FailuresAgree now (some (PostgresRateLimiter.recordFailure row now max lockSecs).1)
        (failureScript attempts lock now max lockSecs ATTEMPTS_RETENTION).1.1
        (failureScript attempts lock now max lockSecs ATTEMPTS_RETENTION).1.2 := by
  have hseeded : FailuresAgree now (some (seeded row failureSeed)) attempts lock := h.of_seed rfl rfl
  cases hlocked : (seeded row failureSeed).lockedUntil with
  | none =>
    obtain ⟨hlock, hlt, hattempts⟩ := (failuresAgree_of_unlocked hlocked).1 hseeded
    exact failuresAgree_of_recorded hmax hsecs (by rw [hlocked]; rfl) (by rw [hlocked]; rfl) hlt hlock hattempts halive
  | some lockedUntil =>
    obtain ⟨rfl, rfl⟩ := (failuresAgree_of_locked hlocked).1 hseeded
    by_cases hheld : now < lockedUntil
    · -- the lock is held, and nothing is recorded
      have hexists : keyExists (some ⟨1, some (lockedUntil / 1000)⟩) now = true := by
        have halive : Entry.isExpired ⟨1, some (lockedUntil / 1000)⟩ now = false := by
          simp only [Entry.isExpired, Option.any_some, decide_eq_false_iff_not]
          omega
        rw [keyExists, live_of_not_isExpired halive]
        rfl
      have hrecord : PostgresRateLimiter.recordFailure row now max lockSecs = (seeded row failureSeed, .limited) := by
        have hisLocked : isLockedAt now (seeded row failureSeed).lockedUntil = true := by
          rw [hlocked]
          simpa [isLockedAt] using hheld
        unfold PostgresRateLimiter.recordFailure
        exact if_pos hisLocked
      rw [hrecord, failureScript, hexists]
      exact ⟨true, rfl, rfl, hseeded⟩
    · -- the lock has ended, on both sides
      have hrow : row = some (seeded row failureSeed) := by
        cases row with
        | none => cases hlocked
        | some r => rfl
      have hgone := hpast _ hrow lockedUntil hlocked (Nat.le_of_not_lt hheld)
      have hlock : live (some ⟨1, some (lockedUntil / 1000)⟩) now = none := by
        refine live_of_isExpired ?_
        simpa [Entry.isExpired] using hgone
      refine failuresAgree_of_recorded (a := 0) hmax hsecs ?_ ?_ (by decide) hlock (.inl ⟨rfl, rfl⟩) halive
      · rw [hlocked]
        simpa [isLockedAt] using hheld
      · rw [hlocked]
        simp only [Option.any_some]
        rw [if_pos (decide_eq_true (Nat.le_of_not_lt hheld))]

theorem FailuresAgree.isLocked {row : Option Row} {attempts lock : Option Entry} {now : Nat}
    (h : FailuresAgree now row attempts lock) (hpast : PastLock row now) :
    PostgresRateLimiter.isLocked row now = outcomeOf (keyExists lock now) := by
  cases row with
  | none => rw [keyExists, h.2]; rfl
  | some r =>
    cases hlocked : r.lockedUntil with
    | none =>
      rw [keyExists, ((failuresAgree_of_unlocked hlocked).1 h).1]
      simp [PostgresRateLimiter.isLocked, isLockedAt, hlocked, outcomeOf]
    | some lockedUntil =>
      obtain ⟨-, rfl⟩ := (failuresAgree_of_locked hlocked).1 h
      by_cases hheld : now < lockedUntil
      · have halive : Entry.isExpired ⟨1, some (lockedUntil / 1000)⟩ now = false := by
          simp only [Entry.isExpired, Option.any_some, decide_eq_false_iff_not]
          omega
        simp [PostgresRateLimiter.isLocked, isLockedAt, hlocked, hheld, keyExists, live_of_not_isExpired halive, outcomeOf]
      · have hgone := hpast r rfl lockedUntil hlocked (Nat.le_of_not_lt hheld)
        have hlock : live (some ⟨1, some (lockedUntil / 1000)⟩) now = none := by
          refine live_of_isExpired ?_
          simpa [Entry.isExpired] using hgone
        simp [PostgresRateLimiter.isLocked, isLockedAt, hlocked, hheld, keyExists, hlock, outcomeOf]

theorem FailuresAgree.clear (now : Nat) (row : Option Row) :
    FailuresAgree now (PostgresRateLimiter.clear row) none none := by
  cases row with
  | none => exact ⟨rfl, rfl⟩
  | some r => exact (failuresAgree_of_unlocked rfl).2 ⟨rfl, by simp only; omega, .inl ⟨rfl, rfl⟩⟩

/-- What a recorded failure leaves of the window. -/
theorem WindowAgrees.record {limit : WindowLimit} {row : Option Row} {counter : Option Entry} {now : Nat}
    (h : WindowAgrees limit row counter) (max : Int) (lockSecs : Nat) :
    WindowAgrees limit (some (PostgresRateLimiter.recordFailure row now max lockSecs).1) counter := by
  have hkept : (PostgresRateLimiter.recordFailure row now max lockSecs).1.count = (seeded row failureSeed).count ∧
      (PostgresRateLimiter.recordFailure row now max lockSecs).1.windowStartAt = (seeded row failureSeed).windowStartAt := by
    unfold PostgresRateLimiter.recordFailure
    dsimp only
    split <;> exact ⟨rfl, rfl⟩
  simp only [WindowAgrees, Option.bind_some, hkept.2]
  cases row with
  | none => exact h
  | some r =>
    cases hstart : r.windowStartAt with
    | none => simpa [WindowAgrees, seeded, hstart] using h
    | some start =>
      obtain ⟨c, hcounter, hc, hcount⟩ : ∃ c, counter = some ⟨c, some (start / 1000 + limit.window * 1000)⟩ ∧ 1 ≤ c ∧
          ∀ r' ∈ some r, c ≤ limit.max ∧ r'.count = c ∨ limit.max ≤ c ∧ r'.count = limit.max := by
        simpa [WindowAgrees, hstart] using h
      simp only [seeded, Option.getD_some, hstart]
      refine ⟨c, hcounter, hc, fun r' hr => ?_⟩
      rw [← Option.some.inj hr, hkept.1]
      exact hcount r rfl

theorem WindowAgrees.clear {limit : WindowLimit} {row : Option Row} {counter : Option Entry}
    (h : WindowAgrees limit row counter) : WindowAgrees limit (PostgresRateLimiter.clear row) counter := by
  cases row with
  | none => exact h
  | some r => simpa [WindowAgrees, PostgresRateLimiter.clear] using h

/-! ### All subjects -/

section

variable {policy : Scope → WindowLimit} {now : Nat} {rows : Rows} {store : Store}

/-- What is written for one subject leaves the others in agreement. -/
theorem Agree.update (h : Agree policy now rows store) {subject : Scope × String} {row : Option Row} {store' : Store}
    (hothers : ∀ key, key ≠ counterKey subject → key ≠ attemptsKey subject → key ≠ lockKey subject → store' key = store key)
    (hsubject : AgreeAt (policy subject.1) now row (store' (counterKey subject)) (store' (attemptsKey subject))
      (store' (lockKey subject))) :
    Agree policy now (Function.update rows subject row) store' := by
  intro subject'
  by_cases heq : subject' = subject
  · subst heq
    rwa [Function.update_self]
  · rw [Function.update_of_ne heq,
      hothers _ (fun hkey => heq (counterKey_inj hkey)) (counterKey_ne_attemptsKey _ _) (counterKey_ne_lockKey _ _),
      hothers _ (fun hkey => counterKey_ne_attemptsKey _ _ hkey.symm) (fun hkey => heq (attemptsKey_inj hkey))
        (attemptsKey_ne_lockKey _ _),
      hothers _ (fun hkey => counterKey_ne_lockKey _ _ hkey.symm) (fun hkey => attemptsKey_ne_lockKey _ _ hkey.symm)
        (fun hkey => heq (lockKey_inj hkey))]
    exact h subject'

theorem Agree.update_counter (h : Agree policy now rows store) {subject : Scope × String} {row : Option Row}
    {counter : Option Entry}
    (hsubject : AgreeAt (policy subject.1) now row counter (store (attemptsKey subject)) (store (lockKey subject))) :
    Agree policy now (Function.update rows subject row) (Function.update store (counterKey subject) counter) := by
  refine h.update (fun key hne _ _ => Function.update_of_ne hne _ _) ?_
  rwa [Function.update_self, Function.update_of_ne (counterKey_ne_attemptsKey _ _).symm,
    Function.update_of_ne (counterKey_ne_lockKey _ _).symm]

theorem Agree.update_failures (h : Agree policy now rows store) {subject : Scope × String} {row : Option Row}
    {attempts lock : Option Entry}
    (hsubject : AgreeAt (policy subject.1) now row (store (counterKey subject)) attempts lock) :
    Agree policy now (Function.update rows subject row)
      (Function.update (Function.update store (attemptsKey subject) attempts) (lockKey subject) lock) := by
  refine h.update (fun key _ hne hne' => ?_) ?_
  · rw [Function.update_of_ne hne', Function.update_of_ne hne]
  · rwa [Function.update_self, Function.update_of_ne (attemptsKey_ne_lockKey _ _), Function.update_self,
      Function.update_of_ne (counterKey_ne_lockKey _ _), Function.update_of_ne (counterKey_ne_attemptsKey _ _)]

/-- One call: the answers are the same, and the agreement is kept. -/
theorem Agree.call (h : Agree policy now rows store) (hpolicy : ∀ scope, (policy scope).Admitted) {call : RateLimitCall}
    (hfollows : call.Follows policy)
    (hundisturbed : call.Undisturbed (rows call.subject) (store (attemptsKey call.subject)) now) :
    (PostgresRateLimiter.call rows now call).2 = (RedisRateLimiter.call store now call).2 ∧
      Agree policy now (PostgresRateLimiter.call rows now call).1 (RedisRateLimiter.call store now call).1 := by
  cases call with
  | checkAndIncrement scope key limit window =>
    obtain ⟨rfl, rfl⟩ := hfollows
    have hat := h (scope, key)
    obtain ⟨houtcome, hwindow⟩ := hat.window.check (hpolicy scope) hundisturbed
    obtain ⟨hattempts, hlocked⟩ := checkAndIncrement_failures (rows (scope, key)) now (policy scope).max (policy scope).window
    exact ⟨congrArg RateLimitAnswer.outcome houtcome,
      h.update_counter ⟨hwindow, (hat.failures.of_seed rfl rfl).congr hattempts hlocked⟩⟩
  | recordFailure scope key maxAttempts lockDuration =>
    have hat := h (scope, key)
    obtain ⟨limited, hlimited, houtcome, hfailures⟩ :=
      hat.failures.record hfollows.1 hfollows.2 hundisturbed.1 hundisturbed.2
    refine ⟨?_, h.update_failures ⟨hat.window.record _ _, hfailures⟩⟩
    simp only [PostgresRateLimiter.call, RedisRateLimiter.call, RateLimitCall.subject, hlimited, houtcome]
  | isLocked scope key =>
    exact ⟨congrArg RateLimitAnswer.outcome ((h (scope, key)).failures.isLocked hundisturbed), h⟩
  | clear scope key =>
    have hat := h (scope, key)
    exact ⟨rfl, h.update_failures ⟨hat.window.clear, FailuresAgree.clear _ _⟩⟩

end

/-! ## Runs -/

/-- Calls that are not made before the time given, each not before the one it follows. -/
def Chronological (now : Nat) : List (Nat × RateLimitCall) → Prop
  | [] => True
  | (now', _) :: calls => now ≤ now' ∧ Chronological now' calls

/-- No call of the run is disturbed, on the states that the calls before it leave. -/
def UndisturbedRun (rows : Rows) (store : Store) : List (Nat × RateLimitCall) → Prop
  | [] => True
  | (now, c) :: calls =>
    c.Undisturbed (rows c.subject) (store (attemptsKey c.subject)) now ∧
      UndisturbedRun (PostgresRateLimiter.call rows now c).1 (RedisRateLimiter.call store now c).1 calls

theorem Agree.answers {policy : Scope → WindowLimit} (hpolicy : ∀ scope, (policy scope).Admitted)
    {calls : List (Nat × RateLimitCall)} {now : Nat} {rows : Rows} {store : Store} (h : Agree policy now rows store)
    (hchronological : Chronological now calls) (hfollows : ∀ call ∈ calls, call.2.Follows policy)
    (hundisturbed : UndisturbedRun rows store calls) :
    answers PostgresRateLimiter.call rows calls = answers RedisRateLimiter.call store calls := by
  induction calls generalizing now rows store with
  | nil => rfl
  | cons head calls ih =>
    obtain ⟨now', c⟩ := head
    rw [List.forall_mem_cons] at hfollows
    obtain ⟨hanswer, hagree⟩ := (h.mono hchronological.1).call hpolicy hfollows.1 hundisturbed.1
    rw [Bittery.answers, Bittery.answers, hanswer, ih hagree hchronological.2 hfollows.2 hundisturbed.2]

theorem Agree.empty (policy : Scope → WindowLimit) (now : Nat) : Agree policy now (fun _ => none) (fun _ => none) :=
  fun _ => ⟨rfl, rfl, rfl⟩

/-- **The backends answer alike** to every run of calls within the configured limits, whatever their order and their
times, in which no call falls into the rest of the millisecond in which a window or a lock of its subject has
ended and no failure is recorded after the attempts before it are gone from Redis. -/
theorem backends_agree {policy : Scope → WindowLimit} (hpolicy : ∀ scope, (policy scope).Admitted)
    {calls : List (Nat × RateLimitCall)} (hchronological : Chronological 0 calls)
    (hfollows : ∀ call ∈ calls, call.2.Follows policy)
    (hundisturbed : UndisturbedRun (fun _ => none) (fun _ => none) calls) :
    answers PostgresRateLimiter.call (fun _ => none) calls = answers RedisRateLimiter.call (fun _ => none) calls :=
  (Agree.empty policy 0).answers hpolicy hchronological hfollows hundisturbed

/-- A request that is over the limit, and a failure that sets a lock. -/
theorem backends_agree_example :
    let calls : List (Nat × RateLimitCall) :=
      [(0, .checkAndIncrement .loginIp "a" 1 900), (5, .checkAndIncrement .loginIp "a" 1 900),
        (5, .recordFailure .recoveryVerify "a" 1 60)]
    answers PostgresRateLimiter.call (fun _ => none) calls = answers RedisRateLimiter.call (fun _ => none) calls := by
  have hpolicy : ∀ scope : Scope, ((fun _ => ⟨1, 900⟩ : Scope → WindowLimit) scope).Admitted := fun _ =>
    (⟨by decide, by decide, by decide⟩ : WindowLimit.Admitted ⟨1, 900⟩)
  refine backends_agree hpolicy ⟨by decide, by decide, by decide, trivial⟩ (by simp [RateLimitCall.Follows])
    ⟨fun r hr => (by cases hr), fun r hr start hstart hended => ?_, ⟨fun r hr => (by cases hr), fun e he => ?_⟩, trivial⟩
  · obtain rfl := Option.some.inj hr
    obtain rfl : 0 = start := Option.some.inj hstart
    exact absurd hended (by decide)
  · simp only [RedisRateLimiter.call, RateLimitCall.subject,
      Function.update_of_ne (counterKey_ne_attemptsKey _ _).symm] at he
    cases he

/-- Failures more than a day apart add up in a row, and not in Redis. -/
theorem backends_disagree :
    let calls : List (Nat × RateLimitCall) :=
      [(0, .recordFailure .recoveryVerify "a" 2 900), (24 * 60 * 60 * 1000000 + 1000, .recordFailure .recoveryVerify "a" 2 900)]
    Chronological 0 calls ∧
      answers PostgresRateLimiter.call (fun _ => none) calls = [.outcome .allowed, .outcome .limited] ∧
      answers RedisRateLimiter.call (fun _ => none) calls = [.outcome .allowed, .outcome .allowed] := by
  refine ⟨⟨by decide, by decide, trivial⟩, ?_, ?_⟩
  · simp only [answers, PostgresRateLimiter.call, RateLimitCall.subject, Function.update_self]
    decide
  · simp only [answers, RedisRateLimiter.call, RateLimitCall.subject, Function.update_self,
      Function.update_of_ne (attemptsKey_ne_lockKey _ _)]
    decide

end Bittery
