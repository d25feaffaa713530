/-
The secrets of the mobile app: values in the secure store of the platform, in chunks where they are long, from
`storage/src/adapters/react-native.ts`.

A call is the list of the writes it makes, of which a process that stops makes only the first ones. Everything is
about one key, and no other key ends like that of a chunk. The store itself refuses nothing.
-/
import Bittery.Lib.Base64
import Bittery.Lib.Ecma
import Bittery.Lib.Runs
import Mathlib.Data.List.Induction
import Mathlib.Logic.Function.Basic
import Mathlib.Order.Defs.LinearOrder

namespace Bittery.ChunkedSecrets

open Lib

/-- The items of `expo-secure-store`. -/
abbrev SecureStore := String → Option String

def CHUNK_THRESHOLD_BYTES : Nat := 1800

def CHUNK_PAYLOAD_BYTES : Nat := 1350

def CHUNK_MANIFEST_PREFIX : String := "__bittery_chunked_secret_v1__:"

def chunkKey (key : String) (index : Nat) : String := key ++ ".c" ++ index.repr

def manifestFor (count : Nat) : String := CHUNK_MANIFEST_PREFIX ++ count.repr

/-- How many chunks a stored value points at. -/
def chunkCountOf : Option String → Nat
  | none => 0
  | some stored =>
    if CHUNK_MANIFEST_PREFIX.toList.isPrefixOf stored.toList then
      ((Ecma.parseInt (stored.toList.drop CHUNK_MANIFEST_PREFIX.toList.length)).getD 0).toNat
    else 0

/-- The payloads of the chunks. -/
def slices (bytes : List UInt8) : List (List UInt8) :=
  (List.range ((bytes.length + (CHUNK_PAYLOAD_BYTES - 1)) / CHUNK_PAYLOAD_BYTES)).map fun i =>
    (bytes.drop (CHUNK_PAYLOAD_BYTES * i)).take CHUNK_PAYLOAD_BYTES

def arrayBufferToBase64 (bytes : List UInt8) : String := String.ofList (Base64.encode bytes)

def splitIntoChunks (bytes : List UInt8) : List String := (slices bytes).map arrayBufferToBase64

def joinChunks (parts : List String) : Option String :=
  (parts.mapM fun part => Base64.decode part.toList).map fun decoded => String.ofList (Ecma.textDecode decoded.flatten)

def secretGet (store : SecureStore) (key : String) : Option String :=
  let count := chunkCountOf (store key)
  if count = 0 then store key
  else ((List.range count).mapM fun index => store (chunkKey key index)).bind joinChunks

inductive Write where
  | setItem (key value : String)
  | deleteItem (key : String)
deriving DecidableEq, Repr

def Write.apply (store : SecureStore) : Write → SecureStore
  | .setItem key value => Function.update store key (some value)
  | .deleteItem key => Function.update store key none

def perform (store : SecureStore) (writes : List Write) : SecureStore := writes.foldl Write.apply store

def textEncode (value : String) : List UInt8 := Utf8.encode value.toList

/-- The chunks of a value. -/
def chunksOf (value : String) : List String := splitIntoChunks (textEncode value)

/-- The chunks are written in order. -/
def setParts (key : String) (parts : List String) : List Write :=
  parts.zipIdx.map fun (part, index) => .setItem (chunkKey key index) part

/-- The chunks of a previous, larger value. -/
def sweep (key : String) (nextCount previousCount : Nat) : List Write :=
  (List.range' nextCount (previousCount - nextCount)).map fun index => .deleteItem (chunkKey key index)

def secretSet (store : SecureStore) (key value : String) : List Write :=
  let previousCount := chunkCountOf (store key)
  if (textEncode value).length ≤ CHUNK_THRESHOLD_BYTES then .setItem key value :: sweep key 0 previousCount
  else
    let parts := chunksOf value
    setParts key parts ++ .setItem key (manifestFor parts.length) :: sweep key parts.length previousCount

def secretDelete (store : SecureStore) (key : String) : List Write :=
  (List.range (chunkCountOf (store key))).map (fun index => Write.deleteItem (chunkKey key index)) ++ [.deleteItem key]

/-- A call, and after how many writes the process stops, if it does. -/
inductive Call where
  | set (value : String) (stop : Option Nat)
  | delete (stop : Option Nat)
deriving DecidableEq, Repr

/-- The writes that are made. -/
def upTo (stop : Option Nat) (writes : List Write) : List Write :=
  match stop with
  | none => writes
  | some count => writes.take count

variable (key : String)

def next (store : SecureStore) : Call → SecureStore
  | .set value stop => perform store (upTo stop (secretSet store key value))
  | .delete stop => perform store (upTo stop (secretDelete store key))

/-- What a call leaves: an interrupted set the old value, the new one or none, a set that completes the new one, and a
delete that completes nothing at all. -/
def Atomic (store : SecureStore) (call : Call) : Prop :=
  match call with
  | .set value stop =>
    (secretGet (next key store call) key = secretGet store key ∨ secretGet (next key store call) key = some value ∨
      secretGet (next key store call) key = none) ∧
    (stop = none → secretGet (next key store call) key = some value)
  | .delete stop => stop = none →
      secretGet (next key store call) key = none ∧ ∀ index, next key store call (chunkKey key index) = none

/-! ## When calls are atomic -/

/-- A value is not taken for a manifest, nor loses a byte order mark. -/
def Plain (value : String) : Prop :=
  ((textEncode value).length ≤ CHUNK_THRESHOLD_BYTES → chunkCountOf (some value) = 0) ∧
    (CHUNK_THRESHOLD_BYTES < (textEncode value).length → value.toList.head? ≠ some Ecma.BOM)

/-- The first `count` chunks of a value come between those of the stored one: all of the stored ones can be read,
some of them are others now, and they are not just the chunks of the new value. -/
structure Mixes (store : SecureStore) (value : String) (count : Nat) : Prop where
  long : CHUNK_THRESHOLD_BYTES < (textEncode value).length
  unfinished : count ≤ (chunksOf value).length
  readable : ∀ index, count ≤ index → index < chunkCountOf (store key) → store (chunkKey key index) ≠ none
  changed : ∃ index, index < count ∧ index < chunkCountOf (store key) ∧
    store (chunkKey key index) ≠ (chunksOf value)[index]?
  differs : ¬ (chunkCountOf (store key) = (chunksOf value).length ∧
    ∀ index, count ≤ index → index < (chunksOf value).length → store (chunkKey key index) = (chunksOf value)[index]?)

/-- A chunk that the stored value does not point at. -/
def Stray (store : SecureStore) : Prop :=
  ∃ index, chunkCountOf (store key) ≤ index ∧ store (chunkKey key index) ≠ none

/-- The value is plain, the process does not stop where chunks of two values mix, and nothing is deleted while a
stray chunk is there. -/
def Sound (store : SecureStore) : Call → Prop
  | .set value stop => Plain value ∧ ∀ count ∈ stop, ¬ Mixes key store value count
  | .delete stop => stop = none → ¬ Stray key store

/-! ## Chunks -/

theorem length_slices (bytes : List UInt8) :
    (slices bytes).length = (bytes.length + (CHUNK_PAYLOAD_BYTES - 1)) / CHUNK_PAYLOAD_BYTES := by
  simp [slices]

theorem flatten_slices (bytes : List UInt8) : (slices bytes).flatten = bytes := by
  have htake : ∀ n, ((List.range n).map fun i =>
      (bytes.drop (CHUNK_PAYLOAD_BYTES * i)).take CHUNK_PAYLOAD_BYTES).flatten = bytes.take (CHUNK_PAYLOAD_BYTES * n) := by
    intro n
    induction n with
    | zero => simp
    | succ n ih =>
      rw [List.range_succ, List.map_append, List.flatten_append, ih, Nat.mul_succ, List.take_add]
      simp
  rw [slices, htake]
  refine List.take_of_length_le ?_
  simp only [CHUNK_PAYLOAD_BYTES]
  omega

theorem joinChunks_map (pieces : List (List UInt8)) :
    joinChunks (pieces.map arrayBufferToBase64) = some (String.ofList (Ecma.textDecode pieces.flatten)) := by
  have hdecode : (pieces.map arrayBufferToBase64).mapM (fun part => Base64.decode part.toList) = some pieces := by
    induction pieces with
    | nil => rfl
    | cons piece pieces ih =>
      rw [List.map_cons, List.mapM_cons, ih, arrayBufferToBase64, String.toList_ofList, Base64.decode_encode]
      rfl
  rw [joinChunks, hdecode]
  rfl

/-- The chunks of a value are joined to the value. -/
theorem joinChunks_chunksOf {value : String} (h : value.toList.head? ≠ some Ecma.BOM) :
    joinChunks (chunksOf value) = some value := by
  rw [chunksOf, splitIntoChunks, joinChunks_map, flatten_slices, textEncode, Ecma.textDecode_encode h, String.ofList_toList]

theorem chunksOf_ne_nil {value : String} (h : CHUNK_THRESHOLD_BYTES < (textEncode value).length) :
    (chunksOf value).length ≠ 0 := by
  rw [chunksOf, splitIntoChunks, List.length_map, length_slices]
  simp only [CHUNK_THRESHOLD_BYTES, CHUNK_PAYLOAD_BYTES] at h ⊢
  omega

theorem chunkCountOf_manifestFor (count : Nat) : chunkCountOf (some (manifestFor count)) = count := by
  have hlist : (manifestFor count).toList = CHUNK_MANIFEST_PREFIX.toList ++ count.repr.toList := String.toList_append
  simp only [chunkCountOf, hlist, List.isPrefixOf_iff_prefix, List.prefix_append, if_true, List.drop_left,
    Ecma.parseInt_repr, Option.getD_some, Int.toNat_natCast]

theorem chunkKey_ne (key : String) (index : Nat) : chunkKey key index ≠ key := by
  intro h
  have hlength := congrArg String.length h
  simp only [chunkKey, String.length_append] at hlength
  have : (".c" : String).length = 2 := rfl
  omega

theorem chunkKey_inj {key : String} {i j : Nat} (h : chunkKey key i = chunkKey key j) : i = j := by
  have hlist := congrArg String.toList h
  simp only [chunkKey, String.toList_append, List.append_cancel_left_eq] at hlist
  have hrepr : Ecma.parseInt i.repr.toList = Ecma.parseInt j.repr.toList := by rw [hlist]
  rw [Ecma.parseInt_repr, Ecma.parseInt_repr] at hrepr
  exact Int.ofNat_inj.1 (Option.some.inj hrepr)

/-! ## Reading -/

section Calls

variable {key} {store store' : SecureStore} {value : String} {stop : Option Nat}

theorem mapM_range {f : Nat → Option String} {parts : List String} (h : ∀ index < parts.length, f index = parts[index]?) :
    (List.range parts.length).mapM f = some parts := by
  induction parts using List.reverseRecOn with
  | nil => rfl
  | append_singleton parts part ih =>
    have hlast : f parts.length = some part := by
      rw [h parts.length (by simp), List.getElem?_append_right (Nat.le_refl _), Nat.sub_self]
      rfl
    have hrest : (List.range parts.length).mapM f = some parts := ih fun index hindex => by
      rw [h index (by rw [List.length_append]; omega), List.getElem?_append_left hindex]
    rw [List.length_append, List.length_singleton, List.range_succ, List.mapM_append, hrest, List.mapM_cons,
      List.mapM_nil, hlast]
    rfl

/-- What is read of a stored value whose chunks are there. -/
theorem secretGet_of_parts {parts : List String} (hparts : parts.length ≠ 0)
    (hcount : chunkCountOf (store key) = parts.length)
    (h : ∀ index < parts.length, store (chunkKey key index) = parts[index]?) : secretGet store key = joinChunks parts := by
  simp only [secretGet, hcount, hparts, if_false, mapM_range h, Option.bind_some]

theorem secretGet_of_plain (h : chunkCountOf (store key) = 0) : secretGet store key = store key := by
  simp only [secretGet, h, if_true]

theorem mapM_eq_none {f : Nat → Option String} {l : List Nat} {index : Nat} (hmem : index ∈ l) (h : f index = none) :
    l.mapM f = none := by
  induction l with
  | nil => cases hmem
  | cons first l ih =>
    rw [List.mapM_cons]
    rcases List.mem_cons.1 hmem with rfl | hmem
    · rw [h]
      rfl
    · cases f first with
      | none => rfl
      | some part =>
        rw [ih hmem]
        rfl

theorem secretGet_of_missing {index : Nat} (hindex : index < chunkCountOf (store key))
    (h : store (chunkKey key index) = none) : secretGet store key = none := by
  have hcount : chunkCountOf (store key) ≠ 0 := by omega
  have hread : ((List.range (chunkCountOf (store key))).mapM fun index => store (chunkKey key index)) = none :=
    mapM_eq_none (List.mem_range.2 hindex) h
  simp only [secretGet, hcount, if_false, hread, Option.bind_none]

theorem mapM_congr {f g : Nat → Option String} {l : List Nat} (h : ∀ index ∈ l, f index = g index) :
    l.mapM f = l.mapM g := by
  induction l with
  | nil => rfl
  | cons first l ih =>
    rw [List.mapM_cons, List.mapM_cons, h first List.mem_cons_self, ih fun index hindex => h index (List.mem_cons_of_mem _ hindex)]

/-- Only the stored value and the chunks that it points at are read. -/
theorem secretGet_congr (hmain : store' key = store key)
    (h : ∀ index < chunkCountOf (store key), store' (chunkKey key index) = store (chunkKey key index)) :
    secretGet store' key = secretGet store key := by
  simp only [secretGet, hmain, mapM_congr fun index hindex => h index (List.mem_range.1 hindex)]

/-! ## Writing -/

theorem perform_append (store : SecureStore) (writes writes' : List Write) :
    perform store (writes ++ writes') = perform (perform store writes) writes' := List.foldl_append

theorem length_setParts (key : String) (parts : List String) : (setParts key parts).length = parts.length := by
  simp [setParts]

theorem take_setParts (key : String) (parts : List String) (count : Nat) :
    (setParts key parts).take count = setParts key (parts.take count) := by
  refine List.ext_getElem? fun i => ?_
  simp only [setParts, List.getElem?_take, List.getElem?_map, List.getElem?_zipIdx]
  split <;> rfl

/-- The first chunks of a value are written. -/
theorem perform_parts (store : SecureStore) (key : String) (parts : List String) :
    perform store (setParts key parts) key = store key ∧ ∀ index, perform store (setParts key parts) (chunkKey key index) =
      if index < parts.length then parts[index]? else store (chunkKey key index) := by
  induction parts using List.reverseRecOn with
  | nil => exact ⟨rfl, fun index => rfl⟩
  | append_singleton parts part ih =>
    have hlast : setParts key (parts ++ [part]) = setParts key parts ++ [.setItem (chunkKey key parts.length) part] := by
      simp [setParts, List.zipIdx_append]
    rw [hlast, perform_append]
    refine ⟨?_, fun index => ?_⟩
    · exact (Function.update_of_ne (chunkKey_ne key _).symm _ _).trans ih.1
    · change Function.update _ _ _ _ = _
      rcases lt_trichotomy index parts.length with hlt | rfl | hgt
      · rw [Function.update_of_ne (fun h => hlt.ne (chunkKey_inj h)), ih.2, if_pos hlt,
          if_pos (by rw [List.length_append]; omega), List.getElem?_append_left hlt]
      · rw [Function.update_self, if_pos (by simp), List.getElem?_append_right (Nat.le_refl _), Nat.sub_self]
        rfl
      · rw [Function.update_of_ne (fun h => hgt.ne' (chunkKey_inj h)), ih.2, if_neg (by omega),
          if_neg (by rw [List.length_append, List.length_singleton]; omega)]

/-- Chunks are deleted, and nothing else. -/
theorem perform_deletes (store : SecureStore) (key : String) (indices : List Nat) :
    perform store (indices.map fun index => Write.deleteItem (chunkKey key index)) key = store key ∧
      ∀ index, perform store (indices.map fun index => Write.deleteItem (chunkKey key index)) (chunkKey key index) =
        if index ∈ indices then none else store (chunkKey key index) := by
  induction indices using List.reverseRecOn with
  | nil => exact ⟨rfl, fun index => by simp [perform]⟩
  | append_singleton indices last ih =>
    rw [List.map_append, perform_append]
    refine ⟨(Function.update_of_ne (chunkKey_ne key _).symm _ _).trans ih.1, fun index => ?_⟩
    change Function.update _ _ _ _ = _
    rcases eq_or_ne index last with rfl | hne
    · rw [Function.update_self, if_pos (by simp)]
    · rw [Function.update_of_ne (fun h => hne (chunkKey_inj h)), ih.2]
      simp [hne]

/-! ## One call -/

/-- The chunks of a value have been written up to some point, and the stored value not. -/
theorem secretGet_between {parts : List String} (count : Nat) (hmain : store' key = store key)
    (hchunks : ∀ index, store' (chunkKey key index) = if index < count then parts[index]? else store (chunkKey key index))
    (hmixes : ¬ ((∀ index, count ≤ index → index < chunkCountOf (store key) →
        store (chunkKey key index) ≠ none) ∧
      (∃ index, index < count ∧ index < chunkCountOf (store key) ∧ store (chunkKey key index) ≠ parts[index]?) ∧
      ¬ (chunkCountOf (store key) = parts.length ∧
        ∀ index, count ≤ index → index < parts.length → store (chunkKey key index) = parts[index]?))) :
    secretGet store' key = secretGet store key ∨ secretGet store' key = joinChunks parts ∨
      secretGet store' key = none := by
  by_cases hreadable : ∀ index, count ≤ index → index < chunkCountOf (store key) → store (chunkKey key index) ≠ none
  · by_cases hchanged : ∃ index, index < count ∧ index < chunkCountOf (store key) ∧ store (chunkKey key index) ≠ parts[index]?
    · -- Some of the chunks are new: then all of them are those of the new value.
      obtain ⟨hcount, hrest⟩ : chunkCountOf (store key) = parts.length ∧
          ∀ index, count ≤ index → index < parts.length → store (chunkKey key index) = parts[index]? := by
        by_contra hdiffers
        exact hmixes ⟨hreadable, hchanged, hdiffers⟩
      obtain ⟨changed, -, hlt, -⟩ := hchanged
      refine Or.inr (Or.inl (secretGet_of_parts (by omega) (hmain ▸ hcount) fun index hindex => ?_))
      rw [hchunks]
      split
      · rfl
      · next hge => exact hrest index (Nat.le_of_not_lt hge) hindex
    · refine Or.inl (secretGet_congr hmain fun index hindex => ?_)
      rw [hchunks]
      split
      · next hlt =>
        by_contra hne
        exact hchanged ⟨index, hlt, hindex, fun heq => hne heq.symm⟩
      · rfl
  · simp only [not_forall, not_not] at hreadable
    obtain ⟨index, hge, hlt, hnone⟩ := hreadable
    have hmissing : store' (chunkKey key index) = none := by rw [hchunks, if_neg (Nat.not_lt.2 hge), hnone]
    exact Or.inr (Or.inr (secretGet_of_missing (hmain ▸ hlt) hmissing))

/-- The first of some writes and those after it. -/
theorem take_map_deletes (indices : List Nat) (count : Nat) :
    (indices.map fun index => Write.deleteItem (chunkKey key index)).take count =
      (indices.take count).map fun index => Write.deleteItem (chunkKey key index) := List.map_take.symm

theorem sweep_take (first previous count : Nat) : ∃ indices : List Nat, (∀ index ∈ indices, first ≤ index) ∧
    (sweep key first previous).take count = indices.map fun index => Write.deleteItem (chunkKey key index) := by
  refine ⟨(List.range' first (previous - first)).take count, fun index hindex => ?_, take_map_deletes _ _⟩
  exact (List.mem_range'_1.1 (List.mem_of_mem_take hindex)).1

theorem upTo_eq (stop : Option Nat) (writes : List Write) : ∃ count, upTo stop writes = writes.take count ∧
    (stop = none → count = writes.length) ∧ ∀ count' ∈ stop, count = count' := by
  cases stop with
  | none => exact ⟨writes.length, (List.take_length).symm, fun _ => rfl, fun _ h => by cases h⟩
  | some count => exact ⟨count, rfl, (fun h => by cases h), fun _ h => Option.some.inj h⟩

/-- A short value has been written, and chunks of the one before are deleted. -/
theorem secretGet_short (h : chunkCountOf (some value) = 0) (indices : List Nat) :
    secretGet (perform (Write.apply store (.setItem key value))
      (indices.map fun index => Write.deleteItem (chunkKey key index))) key = some value := by
  obtain ⟨hmain, -⟩ := perform_deletes (Write.apply store (.setItem key value)) key indices
  have hself : Write.apply store (.setItem key value) key = some value := Function.update_self ..
  rw [secretGet_of_plain (by rw [hmain, hself, h]), hmain, hself]

/-- The chunks of a long value and its manifest have been written, and later chunks are deleted. -/
theorem secretGet_long (hchunks : ∀ index < (chunksOf value).length, store (chunkKey key index) = (chunksOf value)[index]?)
    (hlong : CHUNK_THRESHOLD_BYTES < (textEncode value).length) (hbom : value.toList.head? ≠ some Ecma.BOM)
    {indices : List Nat} (hindices : ∀ index ∈ indices, (chunksOf value).length ≤ index) :
    secretGet (perform (Write.apply store (.setItem key (manifestFor (chunksOf value).length)))
      (indices.map fun index => Write.deleteItem (chunkKey key index))) key = some value := by
  obtain ⟨hmain, hrest⟩ :=
    perform_deletes (Write.apply store (.setItem key (manifestFor (chunksOf value).length))) key indices
  have hself : Write.apply store (.setItem key (manifestFor (chunksOf value).length)) key =
      some (manifestFor (chunksOf value).length) := Function.update_self ..
  refine (secretGet_of_parts (chunksOf_ne_nil hlong) ?_ fun index hindex => ?_).trans (joinChunks_chunksOf hbom)
  · rw [hmain, hself, chunkCountOf_manifestFor]
  · rw [hrest, if_neg fun hmem => Nat.not_lt.2 (hindices index hmem) hindex]
    exact (Function.update_of_ne (chunkKey_ne key index) _ _).trans (hchunks index hindex)

theorem atomic_set (h : Sound key store (.set value stop)) : Atomic key store (.set value stop) := by
  obtain ⟨⟨hshort, hlong⟩, hstop⟩ := h
  obtain ⟨count, hwrites, hcomplete, hcount⟩ := upTo_eq stop (secretSet store key value)
  simp only [Atomic, next, hwrites]
  by_cases hthreshold : (textEncode value).length ≤ CHUNK_THRESHOLD_BYTES
  · have hset : secretSet store key value = .setItem key value :: sweep key 0 (chunkCountOf (store key)) := by
      simp only [secretSet, hthreshold, if_true]
    rw [hset] at hcomplete ⊢
    cases count with
    | zero =>
      exact ⟨Or.inl rfl, fun hnone => absurd (hcomplete hnone) (by simp)⟩
    | succ count =>
      obtain ⟨indices, -, hsweep⟩ := @sweep_take key 0 (chunkCountOf (store key)) count
      have hget : secretGet (perform store ((Write.setItem key value :: sweep key 0 (chunkCountOf (store key))).take
          (count + 1))) key = some value := by
        rw [List.take_succ_cons, hsweep]
        exact secretGet_short (hshort hthreshold) indices
      exact ⟨Or.inr (Or.inl hget), fun _ => hget⟩
  · have hgt := Nat.lt_of_not_le hthreshold
    have hset : secretSet store key value = setParts key (chunksOf value) ++
        .setItem key (manifestFor (chunksOf value).length) ::
          sweep key (chunksOf value).length (chunkCountOf (store key)) := by
      simp only [secretSet, hthreshold, if_false]
    rw [hset] at hcomplete ⊢
    rcases Nat.lt_or_ge (chunksOf value).length count with hlt | hge
    · -- The manifest is written.
      obtain ⟨rest, rfl⟩ : ∃ rest, count = (chunksOf value).length + (rest + 1) :=
        ⟨count - (chunksOf value).length - 1, by omega⟩
      obtain ⟨indices, hindices, hsweep⟩ := @sweep_take key (chunksOf value).length (chunkCountOf (store key)) rest
      obtain ⟨-, hchunks⟩ := perform_parts store key (chunksOf value)
      have hget : secretGet (perform store ((setParts key (chunksOf value) ++
          Write.setItem key (manifestFor (chunksOf value).length) ::
            sweep key (chunksOf value).length (chunkCountOf (store key))).take ((chunksOf value).length + (rest + 1)))) key =
          some value := by
        rw [List.take_append, List.take_of_length_le (by rw [length_setParts]; omega), length_setParts,
          Nat.add_sub_cancel_left, List.take_succ_cons, hsweep, perform_append]
        refine secretGet_long (fun index hindex => ?_) hgt (hlong hgt) hindices
        rw [hchunks, if_pos hindex]
      exact ⟨Or.inr (Or.inl hget), fun _ => hget⟩
    · -- Some of the chunks are written.
      have htake : (setParts key (chunksOf value) ++ Write.setItem key (manifestFor (chunksOf value).length) ::
            sweep key (chunksOf value).length (chunkCountOf (store key))).take count =
          setParts key ((chunksOf value).take count) := by
        rw [List.take_append_of_le_length (by rw [length_setParts]; exact hge), take_setParts]
      obtain ⟨hmain, hchunks⟩ := perform_parts store key ((chunksOf value).take count)
      rw [htake]
      refine ⟨?_, fun hnone => ?_⟩
      · rw [← joinChunks_chunksOf (hlong hgt)]
        refine secretGet_between count hmain (fun index => ?_) fun ⟨hreadable, hchanged, hdiffers⟩ => ?_
        · rw [hchunks, List.length_take, Nat.min_eq_left hge]
          split
          · next hlt => rw [List.getElem?_take_of_lt hlt]
          · rfl
        · cases stop with
          | none =>
            have hall := hcomplete rfl
            rw [List.length_append, length_setParts, List.length_cons] at hall
            omega
          | some count' =>
            obtain rfl := hcount count' rfl
            exact hstop count rfl ⟨hgt, hge, hreadable, hchanged, hdiffers⟩
      · have hall := hcomplete hnone
        rw [List.length_append, length_setParts, List.length_cons] at hall
        omega

/-- What a delete that completes leaves of a key. -/
theorem next_delete (store : SecureStore) (key : String) :
    next key store (.delete none) key = none ∧ ∀ index, next key store (.delete none) (chunkKey key index) =
      if index < chunkCountOf (store key) then none else store (chunkKey key index) := by
  obtain ⟨-, hchunks⟩ := perform_deletes store key (List.range (chunkCountOf (store key)))
  simp only [next, upTo, secretDelete, perform_append]
  refine ⟨Function.update_self .., fun index => ?_⟩
  refine (Function.update_of_ne (chunkKey_ne key index) _ _).trans ((hchunks index).trans ?_)
  simp only [List.mem_range]

theorem atomic_delete (h : Sound key store (.delete stop)) : Atomic key store (.delete stop) := by
  rintro rfl
  obtain ⟨hmain, hchunks⟩ := next_delete store key
  refine ⟨?_, fun index => ?_⟩
  · rw [secretGet_of_plain (by rw [hmain]; rfl), hmain]
  · rw [hchunks]
    split
    · rfl
    · next hge =>
      by_contra hsome
      exact h rfl ⟨index, Nat.le_of_not_lt hge, hsome⟩

/-- **A delete that completes removes everything if and only if no stray chunk is there.** -/
theorem atomic_delete_iff : Atomic key store (.delete none) ↔ ¬ Stray key store := by
  refine ⟨fun h ⟨index, hge, hsome⟩ => ?_, fun h => atomic_delete fun _ => h⟩
  have hnone := (h rfl).2 index
  rw [(next_delete store key).2, if_neg (Nat.not_lt.2 hge)] at hnone
  exact hsome hnone

theorem atomic_of_sound {call : Call} (h : Sound key store call) : Atomic key store call := by
  cases call with
  | set value stop => exact atomic_set h
  | delete stop => exact atomic_delete h

/-! ## Calls that complete -/

/-- What a set of a long value leaves under the keys that it points at. -/
theorem next_set_long (store : SecureStore) (key : String) (hlong : CHUNK_THRESHOLD_BYTES < (textEncode value).length) :
    next key store (.set value none) key = some (manifestFor (chunksOf value).length) ∧
      ∀ index < (chunksOf value).length, next key store (.set value none) (chunkKey key index) = (chunksOf value)[index]? := by
  obtain ⟨hmain, hrest⟩ := perform_deletes (Write.apply (perform store (setParts key (chunksOf value)))
    (.setItem key (manifestFor (chunksOf value).length))) key
      (List.range' (chunksOf value).length (chunkCountOf (store key) - (chunksOf value).length))
  obtain ⟨-, hparts⟩ := perform_parts store key (chunksOf value)
  simp only [next, upTo, secretSet, if_neg (Nat.not_le.2 hlong), perform_append]
  refine ⟨hmain.trans (Function.update_self ..), fun index hindex => (hrest index).trans ?_⟩
  rw [if_neg fun hmem => Nat.not_lt.2 (List.mem_range'_1.1 hmem).1 hindex]
  refine (Function.update_of_ne (chunkKey_ne key index) _ _).trans ?_
  rw [hparts, if_pos hindex]

/-- A set that completes leaves the chunks of its value only. -/
theorem not_stray_set (h : ¬ Stray key store) (value : String) : ¬ Stray key (next key store (.set value none)) := by
  have hnone : ∀ index, chunkCountOf (store key) ≤ index → store (chunkKey key index) = none := by
    intro index hge
    by_contra hsome
    exact h ⟨index, hge, hsome⟩
  have hswept : ∀ (first : Nat) (s : SecureStore), (∀ index, first ≤ index → s (chunkKey key index) = store (chunkKey key index)) →
      ∀ index, first ≤ index → perform s (sweep key first (chunkCountOf (store key))) (chunkKey key index) = none := by
    intro first s hs index hge
    rw [sweep, (perform_deletes s key _).2]
    split
    · rfl
    · next hmem =>
      rw [hs index hge]
      refine hnone index ?_
      by_contra hlt
      exact hmem (List.mem_range'_1.2 ⟨hge, by omega⟩)
  by_cases hthreshold : (textEncode value).length ≤ CHUNK_THRESHOLD_BYTES
  · simp only [next, upTo, secretSet, hthreshold, if_true]
    rintro ⟨index, -, hsome⟩
    refine hsome (hswept 0 _ (fun index _ => ?_) index (Nat.zero_le _))
    exact Function.update_of_ne (chunkKey_ne key index) _ _
  · obtain ⟨hmain, -⟩ := next_set_long store key (Nat.lt_of_not_le hthreshold)
    obtain ⟨-, hparts⟩ := perform_parts store key (chunksOf value)
    rintro ⟨index, hge, hsome⟩
    rw [hmain, chunkCountOf_manifestFor] at hge
    simp only [next, upTo, secretSet, hthreshold, if_false, perform_append] at hsome
    refine hsome (hswept (chunksOf value).length _ (fun index hindex => ?_) index hge)
    refine (Function.update_of_ne (chunkKey_ne key index) _ _).trans ?_
    rw [hparts, if_neg (Nat.not_lt.2 hindex)]

theorem not_stray_delete (h : ¬ Stray key store) : ¬ Stray key (next key store (.delete none)) :=
  fun ⟨index, _, hsome⟩ => hsome ((atomic_delete_iff.2 h rfl).2 index)

/-- The call completes, and a value that is set is plain. -/
def Completes : Call → Prop
  | .set value stop => stop = none ∧ Plain value
  | .delete stop => stop = none

end Calls

/-- **Secrets are atomic as long as chunks of two values never mix and no stray chunk is there when one is deleted.**
Every call of a run is atomic when each of its calls is sound, which all of them are when the store starts out empty,
every call completes and every value is plain. -/
theorem secrets_atomic (key : String) :
    (∀ (store : SecureStore) (calls : List Call), Along (next key) (Sound key) store calls →
      Along (next key) (Atomic key) store calls) ∧
    ∀ calls : List Call, Along (next key) (fun _ => Completes) (fun _ => none) calls →
      Along (next key) (Sound key) (fun _ => none) calls := by
  refine ⟨fun store calls h => h.imp fun _ _ => atomic_of_sound, fun calls h => ?_⟩
  refine h.of_invariant (fun store => ¬ Stray key store) (fun store call hstray hcall => ?_) fun ⟨_, _, hsome⟩ => hsome rfl
  cases call with
  | set value stop =>
    obtain ⟨rfl, hplain⟩ := hcall
    exact ⟨⟨hplain, fun _ h => by cases h⟩, not_stray_set hstray value⟩
  | delete stop =>
    obtain rfl := hcall
    exact ⟨fun _ => hstray, not_stray_delete hstray⟩

/-! ## Two values of two chunks each -/

def longText (c : Char) : String := String.ofList (List.replicate 1801 c)

theorem encode_replicate {c : Char} {byte : UInt8} (h : String.utf8EncodeChar c = [byte]) (n : Nat) :
    Utf8.encode (List.replicate n c) = List.replicate n byte := by
  induction n with
  | zero => rfl
  | succ n ih => rw [List.replicate_succ, List.replicate_succ, ← ih, Utf8.encode, List.flatMap_cons, h]; rfl

theorem textEncode_longText {c : Char} {byte : UInt8} (h : String.utf8EncodeChar c = [byte]) :
    textEncode (longText c) = List.replicate 1801 byte := by
  rw [textEncode, longText, String.toList_ofList, encode_replicate h]

theorem slices_replicate (n : Nat) (byte : UInt8) : slices (List.replicate n byte) =
    (List.range ((n + (CHUNK_PAYLOAD_BYTES - 1)) / CHUNK_PAYLOAD_BYTES)).map fun i =>
      List.replicate (min CHUNK_PAYLOAD_BYTES (n - CHUNK_PAYLOAD_BYTES * i)) byte := by
  simp only [slices, List.length_replicate, List.drop_replicate, List.take_replicate]

theorem chunksOf_longText {c : Char} {byte : UInt8} (h : String.utf8EncodeChar c = [byte]) :
    chunksOf (longText c) = [List.replicate 1350 byte, List.replicate 451 byte].map arrayBufferToBase64 := by
  rw [chunksOf, splitIntoChunks, textEncode_longText h, slices_replicate]
  rfl

theorem length_chunksOf_longText {c : Char} {byte : UInt8} (h : String.utf8EncodeChar c = [byte]) :
    (chunksOf (longText c)).length = 2 := by
  rw [chunksOf_longText h, List.length_map]
  rfl

theorem plain_longText {c : Char} {byte : UInt8} (h : String.utf8EncodeChar c = [byte]) (hbom : c ≠ Ecma.BOM) :
    Plain (longText c) := by
  refine ⟨fun hshort => ?_, fun _ => ?_⟩
  · rw [textEncode_longText h, List.length_replicate] at hshort
    exact absurd hshort (by decide)
  · rw [longText, String.toList_ofList, List.head?_replicate]
    simpa using hbom

theorem utf8_a : String.utf8EncodeChar 'a' = [97] := by decide

theorem utf8_b : String.utf8EncodeChar 'b' = [98] := by decide

/-- One value is replaced by the other, and this one is deleted. -/
theorem secrets_atomic_replaced :
    Along (next "key") (Atomic "key") (fun _ => none)
      [.set (longText 'a') none, .set (longText 'b') none, .delete none] :=
  (secrets_atomic "key").1 _ _ ((secrets_atomic "key").2 _
    ⟨⟨rfl, plain_longText utf8_a (by decide)⟩, ⟨rfl, plain_longText utf8_b (by decide)⟩, rfl, trivial⟩)

/-- The process stops after the first chunk of the second value: what is read is the first chunk of this one and the
last of the other. -/
theorem chunks_of_two_values :
    let store := next "key" (fun _ => none) (.set (longText 'a') none)
    secretGet (next "key" store (.set (longText 'b') (some 1))) "key" =
        some (String.ofList (List.replicate 1350 'b' ++ List.replicate 451 'a')) ∧
      ¬ Atomic "key" store (.set (longText 'b') (some 1)) := by
  intro store
  have hlong : ∀ {c : Char} {byte : UInt8}, String.utf8EncodeChar c = [byte] →
      ¬ (textEncode (longText c)).length ≤ CHUNK_THRESHOLD_BYTES := fun h => by
    rw [textEncode_longText h, List.length_replicate]
    decide
  have hold := chunksOf_longText utf8_a
  have hnew := chunksOf_longText utf8_b
  have hstored := next_set_long (fun _ => none) "key" (Nat.lt_of_not_le (hlong utf8_a))
  rw [length_chunksOf_longText utf8_a] at hstored
  obtain ⟨hmain, hchunks⟩ : store "key" = some (manifestFor 2) ∧
    ∀ index < 2, store (chunkKey "key" index) = (chunksOf (longText 'a'))[index]? := hstored
  have hget : secretGet (next "key" store (.set (longText 'b') (some 1))) "key" =
      some (String.ofList (List.replicate 1350 'b' ++ List.replicate 451 'a')) := by
    have hnext : next "key" store (.set (longText 'b') (some 1)) =
        perform store (setParts "key" [arrayBufferToBase64 (List.replicate 1350 98)]) := by
      simp only [next, upTo, secretSet, if_neg (hlong utf8_b)]
      rw [List.take_append_of_le_length (by rw [length_setParts, length_chunksOf_longText utf8_b]; decide),
        take_setParts, hnew]
      rfl
    obtain ⟨hmain', hchunks'⟩ := perform_parts store "key" [arrayBufferToBase64 (List.replicate 1350 98)]
    rw [hnext, @secretGet_of_parts "key" _ ([List.replicate 1350 98, List.replicate 451 97].map arrayBufferToBase64)
      (by simp only [List.map_cons, List.length_cons, List.map_nil]; decide) (by rw [hmain', hmain, chunkCountOf_manifestFor]; rfl),
      joinChunks_map]
    · have hbytes : [List.replicate 1350 98, List.replicate 451 97].flatten =
          Utf8.encode (List.replicate 1350 'b' ++ List.replicate 451 'a') := by
        rw [Utf8.encode, List.flatMap_append, ← Utf8.encode, ← Utf8.encode, encode_replicate utf8_b,
          encode_replicate utf8_a, List.flatten_cons, List.flatten_cons, List.flatten_nil, List.append_nil]
      rw [hbytes, Ecma.textDecode_encode]
      rw [List.head?_append, List.head?_replicate]
      decide
    · intro index hindex
      rw [hchunks']
      obtain rfl | rfl : index = 0 ∨ index = 1 := Nat.le_one_iff_eq_zero_or_eq_one.1 (Nat.lt_succ_iff.1 hindex)
      · rfl
      · rw [if_neg (by decide), hchunks 1 (by decide), hold]
        simp only [List.map_cons, List.map_nil, List.getElem?_cons_succ, List.getElem?_cons_zero]
  have hbefore : secretGet store "key" = some (longText 'a') := by
    have hlength := length_chunksOf_longText utf8_a
    rw [secretGet_of_parts (by rw [hlength]; decide) (by rw [hmain, hlength, chunkCountOf_manifestFor])
      fun index hindex => hchunks index (hlength ▸ hindex)]
    exact joinChunks_chunksOf ((plain_longText utf8_a (by decide)).2 (Nat.lt_of_not_le (hlong utf8_a)))
  refine ⟨hget, fun h => ?_⟩
  have hmem : ∀ {c : Char}, String.ofList (List.replicate 1350 'b' ++ List.replicate 451 'a') = longText c →
      'b' = c ∧ 'a' = c := by
    intro c hc
    have hlist := congrArg String.toList hc
    rw [longText, String.toList_ofList, String.toList_ofList] at hlist
    have hall : ∀ d ∈ List.replicate 1350 'b' ++ List.replicate 451 'a', d = c :=
      fun d hd => List.eq_of_mem_replicate (hlist ▸ hd)
    exact ⟨hall 'b' (List.mem_append_left _ (List.mem_replicate.2 ⟨by decide, rfl⟩)),
      hall 'a' (List.mem_append_right _ (List.mem_replicate.2 ⟨by decide, rfl⟩))⟩
  rcases h.1 with hsame | hvalue | hnone
  · exact absurd (hmem (Option.some.inj (hget.symm.trans (hsame.trans hbefore)))).1 (by decide)
  · exact absurd (hmem (Option.some.inj (hget.symm.trans hvalue))).2 (by decide)
  · exact Option.some_ne_none _ (hget.symm.trans hnone)

end Bittery.ChunkedSecrets
