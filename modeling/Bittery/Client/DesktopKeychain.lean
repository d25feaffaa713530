/-
The desktop's secrets: the one keychain entry that holds all of them and the cache before it, from
`src-tauri/src/keychain.rs`.

Every command runs under the lock of the cache. What the operating system answers to a command is a parameter of it,
and so is the reader and writer of JSON.
-/
import Bittery.Lib.Runs
import Mathlib.Data.Countable.Basic
import Mathlib.Logic.Equiv.List
import Mathlib.Data.Finmap

namespace Bittery.DesktopKeychain

open Lib

/-- The key-value pairs. -/
abbrev Vault := Finmap fun _ : String => String

structure Json where
  toString : Vault → String
  fromStr : String → Except String Vault

/-- What was written is read back. -/
def Json.Lawful (J : Json) : Prop := ∀ data, J.fromStr (J.toString data) = .ok data

structure Keychain where
  /-- The password under `bittery_vault`. -/
  entry : Option String
  /-- `VAULT_CACHE` -/
  cache : Option Vault

/-- The errors of the keychain, should the command read it or write to it. -/
structure Os where
  reading : Option String
  writing : Option String

variable (J : Json)

def readVaultEntry (os : Os) (s : Keychain) : Except String Vault :=
  match os.reading, s.entry with
  | some error, _ => .error ("Failed to read vault from keychain: " ++ error)
  | none, none => .ok ∅
  | none, some json => (J.fromStr json).mapError fun error => "Failed to deserialize vault from keychain: " ++ error

/-- The data of the cache, which is filled first. -/
def loadVault (os : Os) (s : Keychain) : Except String Vault × Keychain :=
  match s.cache with
  | some data => (.ok data, s)
  | none =>
    match readVaultEntry J os s with
    | .error error => (.error error, s)
    | .ok data => (.ok data, { s with cache := some data })

def saveVault (os : Os) (data : Vault) (s : Keychain) : Except String Unit × Keychain :=
  match os.writing with
  | some error => (.error ("Failed to store vault in keychain: " ++ error), s)
  | none => (.ok (), { s with entry := some (J.toString data) })

inductive Reply where
  | done
  | value (value : Option String)
  | removed (removed : Bool)
deriving DecidableEq, Repr

/-- The cache is changed in place, before the entry is written. -/
def setValue (key value : String) (os : Os) (s : Keychain) : Except String Reply × Keychain :=
  match loadVault J os s with
  | (.error error, s) => (.error error, s)
  | (.ok data, s) =>
    let data := data.insert key value
    let (saved, s) := saveVault J os data { s with cache := some data }
    (saved.map fun _ => .done, s)

def getValue (key : String) (os : Os) (s : Keychain) : Except String Reply × Keychain :=
  let (loaded, s) := loadVault J os s
  (loaded.map fun data => .value (data.lookup key), s)

def deleteValue (key : String) (os : Os) (s : Keychain) : Except String Reply × Keychain :=
  match loadVault J os s with
  | (.error error, s) => (.error error, s)
  | (.ok data, s) =>
    let removed := (data.lookup key).isSome
    let data := data.erase key
    let s := { s with cache := some data }
    if removed then
      let (saved, s) := saveVault J os data s
      (saved.map fun _ => .removed true, s)
    else (.ok (.removed false), s)

inductive Command where
  | set (key value : String)
  | get (key : String)
  | delete (key : String)
deriving DecidableEq, Repr

def perform (os : Os) (s : Keychain) : Command → Except String Reply × Keychain
  | .set key value => setValue J key value os s
  | .get key => getValue J key os s
  | .delete key => deleteValue J key os s

/-- The state after a command. -/
def next (s : Keychain) (a : Command × Os) : Keychain := (perform J a.2 s a.1).2

/-! ## A map of secrets -/

namespace Command

def reply (data : Vault) : Command → Reply
  | .set _ _ => .done
  | .get key => .value (data.lookup key)
  | .delete key => .removed (data.lookup key).isSome

def effect (data : Vault) : Command → Vault
  | .set key value => data.insert key value
  | .get _ => data
  | .delete key => data.erase key

end Command

/-- What the entry holds. -/
def durable (s : Keychain) : Option Vault :=
  match s.entry with
  | none => some ∅
  | some json => (J.fromStr json).toOption

/-- What the commands work on. -/
def contents (s : Keychain) : Option Vault :=
  match s.cache with
  | some data => some data
  | none => durable J s

/-- A keychain that works. -/
def working : Os := ⟨none, none⟩

/-- The replies to commands for which the keychain works. -/
def replies (s : Keychain) : List Command → List (Except String Reply)
  | [] => []
  | command :: commands => (perform J working s command).1 :: replies (next J s (command, working)) commands

/-- The state after them. -/
def later (s : Keychain) : List Command → Keychain
  | [] => s
  | command :: commands => later (next J s (command, working)) commands

/-- No later command tells the two states apart, neither by what it returns nor by what it persists. -/
def Unnoticed (s s' : Keychain) : Prop :=
  ∀ commands, replies J s' commands = replies J s commands ∧
    durable J (later J s' commands) = durable J (later J s commands)

/-- A command that is refused goes unnoticed, one that succeeds is durable, and the cache agrees with the entry. -/
structure Faithful (s : Keychain) (a : Command × Os) : Prop where
  refused : ∀ error, (perform J a.2 s a.1).1 = .error error → Unnoticed J s (next J s a)
  accepted : ∀ reply, (perform J a.2 s a.1).1 = .ok reply →
    ∃ data, durable J s = some data ∧ reply = a.1.reply data ∧ durable J (next J s a) = some (a.1.effect data)
  agrees : ∀ data, (next J s a).cache = some data → durable J (next J s a) = some data

/-- The keychain refuses to write a map that the command has changed. -/
def Spoils (s : Keychain) (a : Command × Os) : Prop :=
  a.2.writing ≠ none ∧ (s.cache ≠ none ∨ a.2.reading = none) ∧ ∃ data ∈ contents J s, a.1.effect data ≠ data

namespace Command

/-- Commands that write the entry. -/
def writes (data : Vault) : Command → Bool
  | .set _ _ => true
  | .get _ => false
  | .delete key => (data.lookup key).isSome

theorem effect_of_not_writes {data : Vault} {command : Command} (h : command.writes data = false) :
    command.effect data = data := by
  cases command with
  | set key value => cases h
  | get key => rfl
  | delete key =>
    simp only [writes, Option.isSome_eq_false_iff, Option.isNone_iff_eq_none] at h
    refine Finmap.ext_lookup fun other => ?_
    rcases eq_or_ne other key with rfl | hne
    · rw [effect, Finmap.lookup_erase, h]
    · exact Finmap.lookup_erase_ne hne

end Command

section Steps

variable {J} {s s' : Keychain} {os : Os}

theorem contents_of_cache {data : Vault} (h : s.cache = some data) : contents J s = some data := by
  rw [contents, h]

theorem contents_cached {data : Vault} : contents J { s with cache := some data } = some data := rfl

/-- The data come from the cache, or from an entry that is read. -/
theorem loadVault_cases (J : Json) (os : Os) (s : Keychain) :
    (∃ error, loadVault J os s = (.error error, s) ∧ s.cache = none ∧ (os.reading ≠ none ∨ contents J s = none)) ∨
      ∃ data, contents J s = some data ∧ loadVault J os s = (.ok data, { s with cache := some data }) ∧
        (s.cache ≠ none ∨ os.reading = none) := by
  cases hcache : s.cache with
  | some data =>
    refine Or.inr ⟨data, contents_of_cache hcache, ?_, Or.inl (by simp)⟩
    simp only [loadVault, hcache]
    rw [← hcache]
  | none =>
    have hcontents : contents J s = durable J s := by rw [contents, hcache]
    rw [hcontents, loadVault, hcache]
    cases hreading : os.reading with
    | some error =>
      exact Or.inl ⟨"Failed to read vault from keychain: " ++ error, by simp only [readVaultEntry, hreading], rfl,
        Or.inl (by simp)⟩
    | none =>
      cases hentry : s.entry with
      | none => exact Or.inr ⟨∅, by rw [durable, hentry], by simp only [readVaultEntry, hreading, hentry], Or.inr rfl⟩
      | some json =>
        cases hjson : J.fromStr json with
        | error error =>
          exact Or.inl ⟨"Failed to deserialize vault from keychain: " ++ error,
            by simp only [readVaultEntry, hreading, hentry, hjson, Except.mapError], rfl, Or.inr (by simp only [durable, hentry, hjson, Except.toOption])⟩
        | ok data =>
          exact Or.inr ⟨data, by simp only [durable, hentry, hjson, Except.toOption],
            by simp only [readVaultEntry, hreading, hentry, hjson, Except.mapError], Or.inr rfl⟩

/-- What a command can do: fail for want of the data, fail to write what it has changed, or succeed. -/
theorem perform_cases (J : Json) (os : Os) (s : Keychain) (command : Command) :
    (∃ error, perform J os s command = (.error error, s) ∧ s.cache = none ∧
        (os.reading ≠ none ∨ contents J s = none)) ∨
      ∃ data, contents J s = some data ∧ (s.cache ≠ none ∨ os.reading = none) ∧
        ((∃ error, command.writes data = true ∧ os.writing ≠ none ∧
            perform J os s command = (.error error, { s with cache := some (command.effect data) })) ∨
          (command.writes data = true ∧ os.writing = none ∧
            perform J os s command = (.ok (command.reply data),
              ⟨some (J.toString (command.effect data)), some (command.effect data)⟩)) ∨
          (command.writes data = false ∧
            perform J os s command = (.ok (command.reply data), { s with cache := some data }))) := by
  rcases loadVault_cases J os s with ⟨error, hload, hcache, hwhy⟩ | ⟨data, hcontents, hload, hread⟩
  · refine Or.inl ⟨error, ?_, hcache, hwhy⟩
    cases command <;> simp only [perform, setValue, getValue, deleteValue, hload, Except.map]
  · refine Or.inr ⟨data, hcontents, hread, ?_⟩
    cases command with
    | get key => exact Or.inr (Or.inr ⟨rfl, by simp only [perform, getValue, hload, Except.map, Command.reply]⟩)
    | set key value =>
      cases hwriting : os.writing with
      | some error =>
        exact Or.inl ⟨"Failed to store vault in keychain: " ++ error, rfl, by simp,
          by simp only [perform, setValue, hload, saveVault, hwriting, Except.map, Command.effect]⟩
      | none =>
        exact Or.inr (Or.inl ⟨rfl, rfl, by simp only [perform, setValue, hload, saveVault, hwriting, Except.map,
          Command.effect, Command.reply]⟩)
    | delete key =>
      cases hlookup : (data.lookup key).isSome with
      | false =>
        have hsame : data.erase key = data := Command.effect_of_not_writes (show Command.writes data (.delete key) = false from hlookup)
        exact Or.inr (Or.inr ⟨hlookup, by simp [perform, deleteValue, hload, hlookup, Command.reply, hsame]⟩)
      | true =>
        cases hwriting : os.writing with
        | some error =>
          exact Or.inl ⟨"Failed to store vault in keychain: " ++ error, hlookup, by simp,
            by simp only [perform, deleteValue, hload, hlookup, saveVault, hwriting, Except.map, Command.effect, if_true]⟩
        | none =>
          exact Or.inr (Or.inl ⟨hlookup, rfl, by simp only [perform, deleteValue, hload, hlookup, saveVault, hwriting,
            Except.map, Command.effect, Command.reply, if_true]⟩)

/-- Commands for which the keychain works do to the map what they say. -/
theorem perform_working {data : Vault} (h : contents J s = some data) (command : Command) :
    (perform J working s command).1 = .ok (command.reply data) ∧
      contents J (next J s (command, working)) = some (command.effect data) ∧
      (next J s (command, working)).entry =
        if command.writes data then some (J.toString (command.effect data)) else s.entry := by
  rcases perform_cases J working s command with ⟨_, _, _, hwhy⟩ | ⟨data', hcontents, _, hdone⟩
  · exact absurd h (by simp [hwhy.resolve_left (by simp [working])])
  · obtain rfl : data' = data := Option.some.inj (hcontents.symm.trans h)
    rcases hdone with ⟨_, _, hwriting, _⟩ | ⟨hwrites, _, hperform⟩ | ⟨hwrites, hperform⟩
    · exact absurd rfl hwriting
    · simp only [next, hperform, hwrites, if_true]
      exact ⟨trivial, rfl, trivial⟩
    · simp only [next, hperform, hwrites, Bool.false_eq_true, if_false]
      exact ⟨trivial, by rw [contents_cached, Command.effect_of_not_writes hwrites], trivial⟩

theorem eq_of_contents_none (h : contents J s = none) (h' : contents J s' = none) (hentry : s'.entry = s.entry) :
    s' = s := by
  have hnone : ∀ {u : Keychain}, contents J u = none → u.cache = none := by
    intro u hu
    cases hcache : u.cache with
    | none => rfl
    | some data => exact absurd (hu.symm.trans (contents_of_cache hcache)) (by simp)
  cases s
  cases s'
  simp only [Keychain.mk.injEq]
  exact ⟨hentry, (hnone h').trans (hnone h).symm⟩

theorem unnoticed_of (hentry : s'.entry = s.entry) (hcontents : contents J s' = contents J s) : Unnoticed J s s' := by
  intro commands
  induction commands generalizing s s' with
  | nil => exact ⟨rfl, by rw [later, later, durable, durable, hentry]⟩
  | cons command commands ih =>
    cases h : contents J s with
    | none =>
      rw [eq_of_contents_none h (hcontents.trans h) hentry]
      exact ⟨rfl, rfl⟩
    | some data =>
      obtain ⟨hreply, hnext, hwritten⟩ := perform_working h command
      obtain ⟨hreply', hnext', hwritten'⟩ := perform_working (hcontents.trans h) command
      obtain ⟨hreplies, hdurable⟩ :=
        ih (hwritten'.trans (hentry ▸ hwritten.symm)) (hnext'.trans hnext.symm)
      exact ⟨by rw [replies, replies, hreply, hreply', hreplies], hdurable⟩

/-- A change of the map is noticed when the key is read. -/
theorem Unnoticed.contents_eq {data data' : Vault} (h : Unnoticed J s s') (hs : contents J s = some data)
    (hs' : contents J s' = some data') : data' = data := by
  refine Finmap.ext_lookup fun key => ?_
  have hreplies := (h [.get key]).1
  simp only [replies, (perform_working hs _).1, (perform_working hs' _).1, Command.reply, List.cons.injEq,
    Except.ok.injEq, Reply.value.injEq, and_true] at hreplies
  exact hreplies

theorem not_spoils_of_faithful {a : Command × Os} (h : Faithful J s a) : ¬ Spoils J s a := by
  rintro ⟨hwriting, hread, data, hdata, hchanges⟩
  rcases perform_cases J a.2 s a.1 with ⟨_, _, hcache, hwhy⟩ | ⟨data', hcontents, _, hdone⟩
  · rcases hwhy with hreading | hnone
    · exact hread.elim (fun hne => hne hcache) hreading
    · exact absurd hdata (by simp [hnone])
  · obtain rfl : data' = data := Option.some.inj (hcontents.symm.trans hdata)
    rcases hdone with ⟨error, _, _, hperform⟩ | ⟨_, hwriting', _⟩ | ⟨hwrites, _⟩
    · have hnext : contents J (next J s a) = some (a.1.effect data') := by
        rw [next, hperform]
        exact contents_cached
      exact hchanges ((h.refused error (by rw [hperform])).contents_eq hcontents hnext)
    · exact hwriting hwriting'
    · exact hchanges (Command.effect_of_not_writes hwrites)

/-- The cached map is what the entry holds. -/
def Agrees (J : Json) (s : Keychain) : Prop := ∀ data, s.cache = some data → durable J s = some data

theorem Agrees.contents (h : Agrees J s) : contents J s = durable J s := by
  cases hcache : s.cache with
  | none => rw [DesktopKeychain.contents, hcache]
  | some data => rw [contents_of_cache hcache, h data hcache]

theorem Agrees.step (hJ : J.Lawful) (h : Agrees J s) {a : Command × Os} (hspoils : ¬ Spoils J s a) :
    Faithful J s a ∧ Agrees J (next J s a) := by
  suffices hstep : (∀ error, (perform J a.2 s a.1).1 = .error error → Unnoticed J s (next J s a)) ∧
      (∀ reply, (perform J a.2 s a.1).1 = .ok reply → ∃ data, durable J s = some data ∧ reply = a.1.reply data ∧
        durable J (next J s a) = some (a.1.effect data)) ∧ Agrees J (next J s a) from
    ⟨⟨hstep.1, hstep.2.1, hstep.2.2⟩, hstep.2.2⟩
  rcases perform_cases J a.2 s a.1 with ⟨error, hperform, _, _⟩ | ⟨data, hcontents, hread, hdone⟩
  · simp only [next, hperform]
    exact ⟨fun _ _ => unnoticed_of rfl rfl, fun _ hreply => (nomatch hreply), h⟩
  · have hdurable : durable J s = some data := h.contents.symm.trans hcontents
    rcases hdone with ⟨error, _, hwriting, hperform⟩ | ⟨_, _, hperform⟩ | ⟨hwrites, hperform⟩
    · -- The write fails: the map was not to be changed.
      have hidle : a.1.effect data = data := by
        by_contra hchanges
        exact hspoils ⟨hwriting, hread, data, hcontents, hchanges⟩
      simp only [next, hperform, hidle]
      refine ⟨fun _ _ => unnoticed_of rfl (contents_cached.trans hcontents.symm),
        fun _ hreply => (nomatch hreply), fun data' hdata' => ?_⟩
      rw [← Option.some.inj hdata']
      exact hdurable
    · have hwritten : durable J ⟨some (J.toString (a.1.effect data)), some (a.1.effect data)⟩ =
          some (a.1.effect data) := by
        simp only [durable, hJ (a.1.effect data), Except.toOption]
      simp only [next, hperform]
      refine ⟨fun _ herror => (nomatch herror),
        fun reply hreply => ⟨data, hdurable, (Except.ok.inj hreply).symm, hwritten⟩, fun data' hdata' => ?_⟩
      rw [← Option.some.inj hdata']
      exact hwritten
    · simp only [next, hperform]
      refine ⟨fun _ herror => (nomatch herror),
        fun reply hreply => ⟨data, hdurable, (Except.ok.inj hreply).symm, ?_⟩, fun data' hdata' => ?_⟩
      · rw [Command.effect_of_not_writes hwrites]
        exact hdurable
      · rw [← Option.some.inj hdata']
        exact hdurable

end Steps

/-- **The cache and the entry agree as long as no change of the map fails to be written.** In every run, from
whatever the entry holds: each command is faithful if and only if no write fails that was to change the map. -/
theorem keychain_faithful_iff (hJ : J.Lawful) (entry : Option String) (commands : List (Command × Os)) :
    Along (next J) (Faithful J) ⟨entry, none⟩ commands ↔
      Along (next J) (fun s a => ¬ Spoils J s a) ⟨entry, none⟩ commands :=
  ⟨Along.imp fun _ _ h => not_spoils_of_faithful h,
    Along.of_invariant (Agrees J) (fun _ _ hI hC => hI.step hJ hC) fun data hdata => by cases hdata⟩

/-! ## A keychain that is locked for a while -/

instance : Countable Vault :=
  have : Countable Char := Function.Injective.countable (f := Char.toNat) fun _ _ h => Char.toNat_inj.1 h
  have : Countable String := Function.Injective.countable (f := String.toList) fun _ _ h => String.toList_inj.1 h
  have : Countable (Multiset (Sigma fun _ : String => String)) :=
    inferInstanceAs (Countable (Quotient (List.isSetoid _)))
  Function.Injective.countable (f := Finmap.entries) fun _ _ h => Finmap.ext h

def exampleVault : Vault := Finmap.singleton "key" "secret"

/-- JSON for the maps of the example. -/
noncomputable def exampleText (data : Vault) : String :=
  if data = ∅ then "\x7b\x7d"
  else if data = exampleVault then "\x7b\"key\":\"secret\"\x7d"
  else String.ofList (List.replicate ((exists_injective_nat Vault).choose data) ' ')

theorem exampleText_injective : Function.Injective exampleText := by
  have hspaces : ∀ n (text : String), '\x7b' ∈ text.toList → String.ofList (List.replicate n ' ') ≠ text := by
    intro n text hmem heq
    rw [← heq, String.toList_ofList] at hmem
    exact absurd (List.eq_of_mem_replicate hmem) (by decide)
  intro data data' h
  unfold exampleText at h
  split_ifs at h with h₁ h₂ h₃ h₄ h₅ h₆
  · exact h₁.trans h₂.symm
  · exact absurd h (by decide)
  · exact absurd h.symm (hspaces _ _ (by decide))
  · exact absurd h (by decide)
  · exact h₄.trans h₆.symm
  · exact absurd h.symm (hspaces _ _ (by decide))
  · exact absurd h (hspaces _ _ (by decide))
  · exact absurd h (hspaces _ _ (by decide))
  · refine (exists_injective_nat Vault).choose_spec ?_
    have hlength := congrArg (fun text => text.toList.length) h
    simpa only [String.toList_ofList, List.length_replicate] using hlength

open Classical in
noncomputable def exampleJson : Json where
  toString := exampleText
  fromStr json := if h : ∃ data, exampleText data = json then .ok h.choose else .error "expected value"

theorem exampleJson_lawful : exampleJson.Lawful := by
  intro data
  have h : ∃ data', exampleText data' = exampleText data := ⟨data, rfl⟩
  simp only [exampleJson, dif_pos h]
  exact congrArg Except.ok (exampleText_injective h.choose_spec)

/-- What is there already is written again, in vain. -/
theorem keychain_faithful_rewritten :
    Along (next exampleJson) (Faithful exampleJson) ⟨none, none⟩
      [(.set "key" "secret", working), (.set "key" "secret", ⟨none, some "locked"⟩), (.get "key", working)] := by
  refine (keychain_faithful_iff exampleJson exampleJson_lawful none _).2 ⟨fun h => h.1 rfl, ?_, fun h => h.1 rfl, trivial⟩
  rintro ⟨_, _, data, hdata, hchanges⟩
  obtain rfl : exampleVault = data := by
    have hcontents : contents exampleJson (next exampleJson ⟨none, none⟩ (.set "key" "secret", working)) =
        some (Finmap.insert "key" "secret" ∅) := rfl
    exact Option.some.inj (hcontents.symm.trans hdata)
  exact hchanges (Finmap.insert_singleton_eq)

/-- What could not be written is returned nevertheless. -/
theorem refused_value_returned :
    let refused : Command × Os := (.set "key" "secret", ⟨none, some "locked"⟩)
    (perform exampleJson refused.2 ⟨none, none⟩ refused.1).1 = .error "Failed to store vault in keychain: locked" ∧
      ¬ Along (next exampleJson) (Faithful exampleJson) ⟨none, none⟩ [refused] := by
  refine ⟨rfl, fun h => ?_⟩
  have hreplies := ((h.1.refused _ rfl) [.get "key"]).1
  cases hreplies

end Bittery.DesktopKeychain
