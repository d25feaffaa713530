/-
The site of a host, and what matching hosts have to do with it.

A host is left alone by each step of `normalizeHost`. Nobody owns a public suffix, so the site of any other
host is its shortest ending that is not one, and `registrableDomain` computes it.
-/
import Bittery.Client.Hostnames

namespace Bittery.Hostnames

open Lib.Labels

variable {P : UrlPlatform} {host : Text}

/-! ## Hosts are normalized -/

/-- A character that no step of `normalizeHost` changes or stops at, but for brackets, colons and dots. -/
def Plain (c : Char) : Prop :=
  (32 < c.toNat ∧ c.toNat < 128) ∧ c.isUpper = false ∧ c ≠ '/' ∧ c ≠ '?' ∧ c ≠ '#' ∧ c ≠ '@'

instance (c : Char) : Decidable (Plain c) := inferInstanceAs (Decidable (_ ∧ _))

theorem Plain.not_isSpace {c : Char} (h : Plain c) : isSpace c = false := by
  have := h.1
  simp only [isSpace, Bool.or_eq_false_iff, Bool.and_eq_false_imp, decide_eq_true_eq, decide_eq_false_iff_not]
  omega

theorem plain_of_isHostChar {c : Char} (h : isHostChar c) : Plain c ∧ c ≠ ':' ∧ c ≠ '[' ∧ c ≠ ']' := by
  simp only [isHostChar, Bool.and_eq_true, decide_eq_true_eq, Bool.not_eq_true'] at h
  obtain ⟨⟨⟨hfrom, hto⟩, hupper⟩, hforbidden⟩ := h
  have hne : ∀ d ∈ "#/:<>?@[\\]^|%".toList, c ≠ d := fun d hd heq => by
    rw [heq, List.contains_iff_mem.2 hd] at hforbidden
    exact absurd hforbidden (by decide)
  have hfrom' : '!'.toNat ≤ c.toNat := hfrom
  have hto' : c.toNat ≤ '~'.toNat := hto
  refine ⟨⟨⟨lt_of_lt_of_le (by decide) hfrom', lt_of_le_of_lt hto' (by decide)⟩, hupper, ?_⟩, ?_⟩
  · exact ⟨hne _ (by decide), hne _ (by decide), hne _ (by decide), hne _ (by decide)⟩
  · exact ⟨hne _ (by decide), hne _ (by decide), hne _ (by decide)⟩

theorem plain_of_address {c : Char} (h : c ∈ "0123456789abcdef:".toList) : Plain c ∧ c ≠ ']' ∧ c ≠ '.' := by
  have hall : ("0123456789abcdef:".toList.all fun c => decide (Plain c ∧ c ≠ ']' ∧ c ≠ '.')) = true := by
    decide +kernel
  exact of_decide_eq_true (List.all_eq_true.1 hall c h)

/-- Inside the text of a host every character is plain. -/
theorem IsHostText.plain (h : IsHostText host) : ∀ c ∈ host, Plain c := by
  rcases h with h | ⟨address, haddress, rfl⟩
  · exact fun c hc => (plain_of_isHostChar (List.all_eq_true.1 h c hc)).1
  · intro c hc
    simp only [List.mem_cons, List.mem_append, List.not_mem_nil, or_false] at hc
    rcases hc with rfl | hc | rfl
    · decide
    · exact (plain_of_address (haddress c hc)).1
    · decide

theorem trim_of_forall {p : Char → Bool} (h : ∀ c ∈ host, p c = false) : trim p host = host := by
  have hdrop : host.dropWhile p = host :=
    List.dropWhile_eq_self_iff.2 fun hlt => by simpa using h _ (List.getElem_mem hlt)
  rw [trim, hdrop]
  exact List.rdropWhile_eq_self_iff.2 fun hne => by simpa using h _ (List.getLast_mem hne)

theorem dropScheme_of_plain (h : ∀ c ∈ host, Plain c) : dropScheme host = host := by
  unfold dropScheme
  cases host with
  | nil => rfl
  | cons first rest =>
    refine if_neg fun hscheme => ?_
    simp only [Bool.and_eq_true, List.isPrefixOf_iff_prefix] at hscheme
    have hslash : '/' ∈ rest.dropWhile _ := hscheme.2.subset (by decide)
    exact (h '/' (List.mem_cons_of_mem _ (List.dropWhile_suffix _ |>.subset hslash))).2.2.1 rfl

theorem authority_of_plain (h : ∀ c ∈ host, Plain c) : authority host = host := by
  have hpath : host.takeWhile (fun c => !(c = '/' || c = '?' || c = '#')) = host := by
    rw [List.takeWhile_eq_self_iff]
    intro c hc
    obtain ⟨-, -, hslash, hquery, hfragment, -⟩ := h c hc
    simp [hslash, hquery, hfragment]
  rw [authority, hpath, List.rtakeWhile_eq_self_iff]
  exact fun c hc => by simpa using (h c hc).2.2.2.2.2

theorem dropPort_of_text (h : IsHostText host) (isDigit : Char → Bool) : dropPort isDigit host = host := by
  rcases h with h | ⟨address, haddress, rfl⟩
  · have hplain := fun c hc => plain_of_isHostChar (List.all_eq_true.1 h c hc)
    have hbracket : host.head? ≠ some '[' := fun hhead => (hplain '[' (List.mem_of_head? hhead)).2.2.1 rfl
    have hcolon : ':' ∉ host := fun hmem => (hplain ':' hmem).2.1 rfl
    simp [dropPort, hbracket, hcolon]
  · have htake : ('[' :: (address ++ [']'])).takeWhile (· ≠ ']') = '[' :: address := by
      rw [List.takeWhile_cons_of_pos (by decide), List.takeWhile_append_of_pos]
      · simp
      · exact fun c hc => by simpa using (plain_of_address (haddress c hc)).2.1
    simp only [dropPort, List.head?_cons, if_true, List.mem_cons, List.mem_append, or_true, true_or]
    rw [htake, List.cons_append]

/-- A text without an empty label does not start with a dot. -/
theorem dropWhile_of_labels (h : [] ∉ host.splitOn '.') : host.dropWhile (fun c => decide (c = '.')) = host := by
  rw [List.dropWhile_eq_self_iff]
  intro hlt hdot
  cases host with
  | nil => exact absurd hlt (lt_irrefl _)
  | cons first rest =>
    have hfirst : first = '.' := by simpa using hdot
    refine h ?_
    rw [hfirst, List.splitOn_cons_eq_if_modifyHead, if_pos (by simp)]
    exact List.mem_cons_self

/-- Nor does it end with one. -/
theorem rdropWhile_of_labels (h : [] ∉ host.splitOn '.') : host.rdropWhile (fun c => decide (c = '.')) = host := by
  rw [List.rdropWhile_eq_self_iff]
  intro hne hdot
  have hlast : host.getLast hne = '.' := by simpa using hdot
  refine h ?_
  rw [← List.dropLast_append_getLast hne, hlast, List.splitOn_append_cons_self]
  exact List.mem_append_right _ (by simp)

theorem ne_nil_of_labels (h : [] ∉ host.splitOn '.') : host ≠ [] := fun hnil => h (by simp [hnil])

theorem trimDots_of_labels (h : [] ∉ host.splitOn '.') : trimDots host = host := by
  rw [trimDots, trim, dropWhile_of_labels h, rdropWhile_of_labels h]

theorem trimDots_of_root (h : [] ∉ host.splitOn '.') : trimDots (host ++ ['.']) = host := by
  have hdrop : (host ++ ['.']).dropWhile (fun c => decide (c = '.')) = host ++ ['.'] := by
    rw [List.dropWhile_append, dropWhile_of_labels h, if_neg (by simpa using ne_nil_of_labels h)]
  rw [trimDots, trim, hdrop, List.rdropWhile_concat_pos _ _ _ (by simp), rdropWhile_of_labels h]

/-- Of a parsed host `normalizeHost` takes the boundary dots and parses it again. -/
theorem normalizeHost_of_text (hP : P.Lawful) (h : IsHostText host) (hne : host ≠ []) :
    normalizeHost P host = (P.hostname (https (trimDots host))).getD (trimDots host) := by
  have hplain := h.plain
  have hlower : P.toLowerCase host = host := hP.lowercase fun c hc => ⟨(hplain c hc).1.2, (hplain c hc).2.1⟩
  rw [normalizeHost, if_neg hne, trim_of_forall fun c hc => (hplain c hc).not_isSpace, hlower,
    dropScheme_of_plain hplain, authority_of_plain hplain, dropPort_of_text h]

theorem isWebUrl_https (host : Text) : IsWebUrl (https host) := Or.inr (List.prefix_append _ _)

theorem IsHost.text (hP : P.Lawful) (h : IsHost P host) : IsHostText host := hP.text (isWebUrl_https host) h.accepted

/-- **A host is its own normal form.** -/
theorem IsHost.normalizeHost (hP : P.Lawful) (h : IsHost P host) : normalizeHost P host = host := by
  rw [normalizeHost_of_text hP (h.text hP) (ne_nil_of_labels h.labels), trimDots_of_labels h.labels, h.accepted]
  rfl

/-- A normal form is a parsed host, or the parser refuses it. -/
theorem accepted_normalizeHost (hP : P.Lawful) (value : Text) :
    Accepted P (normalizeHost P value) ∨ P.hostname (https (normalizeHost P value)) = none := by
  rw [Hostnames.normalizeHost]
  split_ifs
  · exact Or.inr hP.empty
  · generalize trimDots _ = reduced
    simp only
    cases hread : P.hostname (https reduced) with
    | none => exact Or.inr (by simp only [Option.getD_none, hread])
    | some parsed => exact Or.inl (hP.stable (isWebUrl_https reduced) hread)

/-! ## The site of a host -/

/-- Nobody owns a single label or an entry of the table. -/
def Public (labels : List Text) : Prop :=
  labels.length ≤ 1 ∨ labels ∈ MULTI_LABEL_PUBLIC_SUFFIXES.map (List.splitOn '.')

theorem length_of_mem_suffixes :
    ∀ labels ∈ MULTI_LABEL_PUBLIC_SUFFIXES.map (List.splitOn '.'), labels.length = 2 := by
  decide +kernel

theorem closedUpwards_public : ClosedUpwards Public := by
  intro name ending hname hending
  rcases hname with hlength | hmem
  · exact Or.inl (hending.length_le.trans hlength)
  · have hlength := length_of_mem_suffixes name hmem
    by_cases hle : ending.length ≤ 1
    · exact Or.inl hle
    · have heq : ending = name := hending.eq_of_length (by have := hending.length_le; omega)
      exact Or.inr (heq ▸ hmem)

theorem mem_suffixes_iff :
    host.splitOn '.' ∈ MULTI_LABEL_PUBLIC_SUFFIXES.map (List.splitOn '.') ↔ host ∈ MULTI_LABEL_PUBLIC_SUFFIXES :=
  List.mem_map_of_injective (splitOn_injective '.')

theorem length_splitOn_le_one : (host.splitOn '.').length ≤ 1 ↔ '.' ∉ host := by
  constructor
  · intro hle hmem
    obtain ⟨lead, rest, rfl⟩ := List.append_of_mem hmem
    rw [List.splitOn_append_cons_self, List.length_append] at hle
    have := List.length_pos_of_ne_nil (List.splitOn_ne_nil '.' lead)
    have := List.length_pos_of_ne_nil (List.splitOn_ne_nil '.' rest)
    omega
  · intro hmem
    rw [List.splitOn_eq_singleton hmem]
    exact le_rfl

theorem isPublicSuffix_iff : isPublicSuffix host ↔ Public (host.splitOn '.') := by
  simp only [isPublicSuffix, Public, Bool.or_eq_true, Bool.not_eq_true', List.contains_iff_mem, mem_suffixes_iff,
    length_splitOn_le_one]
  simp

/-- Taking the largest of the values that pass a test. -/
theorem foldl_max_spec (test : Nat → Bool) (value : Nat → Nat) (start : Nat) :
    ∀ indices : List Nat,
      let largest := indices.foldl (fun n i => if test i then max n (value i) else n) start
      start ≤ largest ∧ (∀ i ∈ indices, test i → value i ≤ largest) ∧
        (largest = start ∨ ∃ i ∈ indices, test i ∧ value i = largest)
  | [] => ⟨le_rfl, by simp, Or.inl rfl⟩
  | i :: indices => by
    obtain ⟨hstart, hall, hsome⟩ := foldl_max_spec test value (if test i then max start (value i) else start) indices
    have hfirst : start ≤ if test i then max start (value i) else start := by split <;> omega
    refine ⟨hfirst.trans hstart, fun j hj htest => ?_, ?_⟩
    · rcases List.mem_cons.1 hj with rfl | hj
      · refine le_trans ?_ hstart
        rw [if_pos htest]
        exact Nat.le_max_right _ _
      · exact hall j hj htest
    · rcases hsome with heq | ⟨j, hj, htest, heq⟩
      · by_cases htest : test i
        · rw [if_pos htest] at heq
          rcases Nat.le_total (value i) start with hle | hle
          · rw [Nat.max_eq_left hle] at heq
            exact Or.inl (by simpa only [List.foldl_cons, if_pos htest, Nat.max_eq_left hle] using heq)
          · rw [Nat.max_eq_right hle] at heq
            refine Or.inr ⟨i, List.mem_cons_self, htest, ?_⟩
            simpa only [List.foldl_cons, if_pos htest, Nat.max_eq_right hle] using heq.symm
        · rw [if_neg htest] at heq
          exact Or.inl (by simp only [List.foldl_cons, if_neg htest, heq])
      · exact Or.inr ⟨j, List.mem_cons_of_mem _ hj, htest, heq⟩

/-- The loop of `registrableDomain`: the longest proper ending in the table, of one label at least. -/
theorem suffixLabels_spec (host : Text) :
    let labels := host.splitOn '.'
    let n := suffixLabels labels
    1 ≤ n ∧ (∀ index, 1 ≤ index → index < labels.length → Public (labels.drop index) → labels.length - index ≤ n) ∧
      (n = 1 ∨ n < labels.length ∧ Public (labels.drop (labels.length - n))) := by
  intro labels n
  have hcandidate : ∀ index < labels.length,
      MULTI_LABEL_PUBLIC_SUFFIXES.contains (['.'].intercalate (labels.drop index)) ↔
        labels.drop index ∈ MULTI_LABEL_PUBLIC_SUFFIXES.map (List.splitOn '.') := fun index hindex => by
    rw [List.contains_iff_mem, ← mem_suffixes_iff, splitOn_intercalate_drop host hindex]
  obtain ⟨hone, hall, hsome⟩ := foldl_max_spec
    (fun index => MULTI_LABEL_PUBLIC_SUFFIXES.contains (['.'].intercalate (labels.drop index)))
    (fun index => labels.length - index) 1 (List.range' 1 (labels.length - 1))
  refine ⟨hone, fun index hfrom hto hpublic => ?_, ?_⟩
  · rcases hpublic with hlength | hmem
    · rw [List.length_drop] at hlength
      exact hlength.trans hone
    · exact hall index (by rw [List.mem_range'_1]; omega) ((hcandidate index hto).2 hmem)
  · rcases hsome with heq | ⟨index, hindex, htest, heq⟩
    · exact Or.inl heq
    · rw [List.mem_range'_1] at hindex
      have hto : index < labels.length := by omega
      have hn : n = labels.length - index := heq.symm
      refine Or.inr ⟨by omega, ?_⟩
      rw [hn, Nat.sub_sub_self hto.le]
      exact Or.inr ((hcandidate index hto).1 htest)

/-- A host whose labels `registrableDomain` looks at. -/
structure IsDomain (host : Text) : Prop where
  ipv4 : isIpv4 host = false
  bracket : host.head? ≠ some '['

/-- **The registrable domain is the site.** -/
theorem isSite_registrableOf (h : IsDomain host) (hpublic : isPublicSuffix host = false) :
    IsSite Public (host.splitOn '.') ((registrableOf host).splitOn '.') := by
  have hpublic' : ¬ Public (host.splitOn '.') := fun hp => by simp [isPublicSuffix_iff.2 hp] at hpublic
  have hne : host ≠ [] := fun hnil => hpublic' (Or.inl (by simp [hnil]))
  obtain ⟨hone, hall, hsome⟩ := suffixLabels_spec host
  have hlength : 1 < (host.splitOn '.').length := by
    by_contra hle
    exact hpublic' (Or.inl (by omega))
  have hlt : suffixLabels (host.splitOn '.') < (host.splitOn '.').length := by
    rcases hsome with heq | hsome
    · omega
    · exact hsome.1
  rw [registrableOf, if_neg (by simp [hne, h.ipv4, h.bracket]), if_neg (by omega), Nat.sub_sub,
    splitOn_intercalate_drop host (by omega)]
  refine isSite_drop closedUpwards_public hlt ?_ fun hp => ?_
  · rcases hsome with heq | hsome
    · exact Or.inl (by rw [heq, List.length_drop]; omega)
    · exact hsome.2
  · rcases Nat.eq_zero_or_pos ((host.splitOn '.').length - (suffixLabels (host.splitOn '.') + 1)) with hzero | hpos
    · rw [hzero, List.drop_zero] at hp
      exact hpublic' hp
    · have := hall _ hpos (by omega) hp
      omega

theorem registrableOf_of_not_isDomain (h : ¬ IsDomain host) : registrableOf host = host := by
  rw [registrableOf, if_pos]
  by_contra hnot
  simp only [not_or, Bool.not_eq_true] at hnot
  exact h ⟨hnot.2.1, hnot.2.2⟩

/-- A host of two labels at most stays whole. -/
theorem registrableOf_of_isPublicSuffix (h : isPublicSuffix host) : registrableOf host = host := by
  have hlength : (host.splitOn '.').length ≤ 2 := by
    rcases isPublicSuffix_iff.1 h with hle | hmem
    · omega
    · exact (length_of_mem_suffixes _ hmem).le
  have hone := (suffixLabels_spec host).1
  unfold registrableOf
  split
  · rfl
  · simp only
    split
    · rfl
    · rw [show (host.splitOn '.').length - suffixLabels (host.splitOn '.') - 1 = 0 by omega, List.drop_zero,
        List.intercalate_splitOn]

theorem isPublicSuffix_registrableOf (host : Text) : isPublicSuffix (registrableOf host) = isPublicSuffix host := by
  by_cases hdomain : IsDomain host
  · cases hpublic : isPublicSuffix host with
    | true => rw [registrableOf_of_isPublicSuffix hpublic, hpublic]
    | false =>
      have hnot := (isSite_registrableOf hdomain hpublic).2.1
      rw [← isPublicSuffix_iff] at hnot
      simpa using hnot
  · rw [registrableOf_of_not_isDomain hdomain]

/-- The registrable domain is the host or above it. -/
theorem registrableOf_above (host : Text) : registrableOf host = host ∨ Above '.' (registrableOf host) host := by
  by_cases hdomain : IsDomain host
  · cases hpublic : isPublicSuffix host with
    | true => exact Or.inl (registrableOf_of_isPublicSuffix hpublic)
    | false =>
      by_cases heq : registrableOf host = host
      · exact Or.inl heq
      · exact Or.inr (above_iff.2 ⟨(isSite_registrableOf hdomain hpublic).1, heq⟩)
  · exact Or.inl (registrableOf_of_not_isDomain hdomain)

/-! ## Hosts above hosts -/

theorem length_of_isIpv4 (h : isIpv4 host) : (host.splitOn '.').length = 4 := by
  simp only [isIpv4, Bool.and_eq_true, decide_eq_true_eq] at h
  exact h.1

/-- An IPv4 address ends in a number. -/
theorem exists_number_of_isIpv4 (h : isIpv4 host) :
    ∃ lead label, host = lead ++ '.' :: label ∧ label ≠ [] ∧ label.all Char.isDigit := by
  have hlength := length_of_isIpv4 h
  have hjoin : ['.'].intercalate (host.splitOn '.') = host := List.intercalate_splitOn '.'
  simp only [isIpv4, Bool.and_eq_true, List.all_eq_true] at h
  match hsplit : host.splitOn '.' with
  | [a, b, c, d] =>
    obtain ⟨⟨hone, -⟩, hdigits⟩ := h.2 d (by simp [hsplit])
    rw [hsplit] at hjoin
    refine ⟨['.'].intercalate [a, b, c], d, ?_, ?_, List.all_eq_true.2 hdigits⟩
    · rw [← hjoin, show [a, b, c, d] = [a, b, c] ++ [d] from rfl,
        intercalate_append_cons _ _ _ (List.cons_ne_nil _ _), List.intercalate_singleton]
    · rintro rfl
      simp at hone
  | [] | [_] | [_, _] | [_, _, _] | _ :: _ :: _ :: _ :: _ :: _ => simp [hsplit] at hlength

theorem Above.length_splitOn_lt {upper lower : Text} (h : Above '.' upper lower) :
    (upper.splitOn '.').length < (lower.splitOn '.').length := by
  obtain ⟨lead, rfl⟩ := h
  rw [List.splitOn_append_cons_self, List.length_append]
  have := List.length_pos_of_ne_nil (List.splitOn_ne_nil '.' lead)
  omega

theorem Above.labels {upper lower : Text} (h : Above '.' upper lower) (hlower : [] ∉ lower.splitOn '.') :
    [] ∉ upper.splitOn '.' := fun hmem => hlower ((above_iff.1 h).1.subset hmem)

/-- No host is above an IPv4 address. -/
theorem isIpv4_of_above (hP : P.Lawful) {upper lower : Text} (h : Above '.' upper lower) (hupper : Accepted P upper)
    (hlower : Accepted P lower) : isIpv4 lower = false := by
  by_contra hip
  rw [Bool.not_eq_false] at hip
  obtain ⟨address, hread, haddress⟩ := hP.ipv4Tail h hip hlower
  rw [hupper] at hread
  obtain rfl := Option.some.inj hread
  have := Above.length_splitOn_lt h
  rw [length_of_isIpv4 haddress, length_of_isIpv4 hip] at this
  omega

theorem bracket_of_dot (h : IsHostText host) (hdot : '.' ∈ host) : ∀ c ∈ host, c ≠ '[' := by
  rcases h with h | ⟨address, haddress, rfl⟩
  · exact fun c hc => (plain_of_isHostChar (List.all_eq_true.1 h c hc)).2.2.1
  · simp only [List.mem_cons, List.mem_append, List.not_mem_nil, or_false] at hdot
    rcases hdot with hdot | hdot | hdot
    · exact absurd hdot (by decide)
    · exact absurd rfl (plain_of_address (haddress _ hdot)).2.2
    · exact absurd hdot (by decide)

/-- Hosts of which one is above the other are domains. -/
theorem isDomain_of_above (hP : P.Lawful) {upper lower : Text} (h : Above '.' upper lower) (hupper : IsHost P upper)
    (hlower : IsHost P lower) : IsDomain upper ∧ IsDomain lower := by
  have hdot : '.' ∈ lower := h.subset List.mem_cons_self
  have hbracket := bracket_of_dot (hlower.text hP) hdot
  have hlowerIp := isIpv4_of_above hP h hupper.accepted hlower.accepted
  refine ⟨⟨?_, fun hhead => ?_⟩, hlowerIp, fun hhead => hbracket _ (List.mem_of_head? hhead) rfl⟩
  · by_contra hip
    rw [Bool.not_eq_false] at hip
    obtain ⟨lead, label, rfl, hne, hdigits⟩ := exists_number_of_isIpv4 hip
    obtain ⟨first, rfl⟩ := h
    have hlower' := hP.numeric hlower.accepted (show _ = (first ++ '.' :: lead) ++ '.' :: label by simp) hne hdigits
    rw [hlowerIp] at hlower'
    exact absurd hlower' Bool.false_ne_true
  · exact hbracket '[' (h.subset (List.mem_cons_of_mem _ (List.mem_of_head? hhead))) rfl

/-- **A host has the registrable domain of every host above it that somebody can own.** -/
theorem registrableOf_of_above (hP : P.Lawful) {upper lower : Text} (h : Above '.' upper lower) (hupper : IsHost P upper)
    (hlower : IsHost P lower) (hpublic : isPublicSuffix upper = false) : registrableOf lower = registrableOf upper := by
  obtain ⟨hdomain, hdomain'⟩ := isDomain_of_above hP h hupper hlower
  have hsuffix := (above_iff.1 h).1
  have hpublic' : isPublicSuffix lower = false := by
    by_contra hlower
    rw [Bool.not_eq_false, isPublicSuffix_iff] at hlower
    simp [isPublicSuffix_iff.2 (closedUpwards_public _ _ hlower hsuffix)] at hpublic
  have hsite := (isSite_registrableOf hdomain hpublic).of_suffix hsuffix
  exact splitOn_injective '.' ((isSite_registrableOf hdomain' hpublic').unique hsite)

theorem IsHost.registrableOf (hP : P.Lawful) (h : IsHost P host) : IsHost P (registrableOf host) := by
  rcases registrableOf_above host with heq | habove
  · rwa [heq]
  · have hdomain : IsDomain host := by
      by_contra hnot
      exact habove.ne (registrableOf_of_not_isDomain hnot)
    have hlabels := Above.labels habove h.labels
    exact ⟨hP.parent habove hlabels hdomain.ipv4 h.accepted, hlabels⟩

theorem registrableOf_registrableOf (hP : P.Lawful) (h : IsHost P host) :
    Hostnames.registrableOf (Hostnames.registrableOf host) = Hostnames.registrableOf host := by
  cases hpublic : isPublicSuffix host with
  | true => rw [registrableOf_of_isPublicSuffix hpublic, registrableOf_of_isPublicSuffix hpublic]
  | false =>
    rcases registrableOf_above host with heq | habove
    · rw [heq, heq]
    · refine (registrableOf_of_above hP habove (h.registrableOf hP) h ?_).symm
      rw [isPublicSuffix_registrableOf, hpublic]

/-! ## Matching -/

/-- The cases of `hostnameMatches`. -/
theorem hostnameMatches_cases (P : UrlPlatform) (a b : Text) :
    hostnameMatches P a b ↔
      let item := normalizeHost P a
      let target := normalizeHost P b
      (item ≠ [] ∧ target ≠ []) ∧
        (item = target ∨ (Above '.' target item ∧ isPublicSuffix target = false) ∨
          (Above '.' item target ∧ isPublicSuffix item = false) ∨
          (isPublicSuffix item = false ∧ isPublicSuffix target = false) ∧
            registrableDomain P item = registrableDomain P target) := by
  simp only [hostnameMatches]
  split_ifs with hempty heq htarget hitem hpublic
  · simp only [false_iff]
    tauto
  · simp only [true_iff]
    tauto
  · simp only [Bool.not_eq_true'] at htarget
    tauto
  · simp only [Bool.not_eq_true'] at hitem
    tauto
  · simp only [Bool.not_eq_true'] at htarget hitem
    simp only [false_iff]
    rintro ⟨-, heq' | htarget' | hitem' | ⟨⟨hitem', htarget'⟩, -⟩⟩
    · exact heq heq'
    · exact htarget htarget'
    · exact hitem hitem'
    · simp [hitem', htarget'] at hpublic
  · simp only [Bool.not_eq_true'] at htarget hitem
    simp only [not_or, Bool.not_eq_true] at hpublic hempty
    rw [decide_eq_true_iff]
    tauto

theorem hostnameMatches_comm (P : UrlPlatform) (a b : Text) : hostnameMatches P a b = hostnameMatches P b a := by
  have hswap : ∀ a b, hostnameMatches P a b → hostnameMatches P b a := fun a b h => by
    rw [hostnameMatches_cases] at h ⊢
    obtain ⟨⟨hitem, htarget⟩, heq | habove | habove | ⟨⟨hpublic, hpublic'⟩, hsame⟩⟩ := h
    · exact ⟨⟨htarget, hitem⟩, Or.inl heq.symm⟩
    · exact ⟨⟨htarget, hitem⟩, Or.inr (Or.inr (Or.inl habove))⟩
    · exact ⟨⟨htarget, hitem⟩, Or.inr (Or.inl habove)⟩
    · exact ⟨⟨htarget, hitem⟩, Or.inr (Or.inr (Or.inr ⟨⟨hpublic', hpublic⟩, hsame.symm⟩))⟩
  exact Bool.eq_iff_iff.2 ⟨hswap a b, hswap b a⟩

theorem registrableDomain_of_isHost (hP : P.Lawful) (h : IsHost P host) :
    registrableDomain P host = Hostnames.registrableOf host := by
  rw [registrableDomain, h.normalizeHost hP]

/-- The text is read as a host. -/
def ReadsHost (P : UrlPlatform) (value : Text) : Prop := IsHost P (normalizeHost P value)

/-- Hosts that nobody owns have a registrable domain of their own. -/
theorem eq_of_registrableOf_eq {a b : Text} (hpublic : isPublicSuffix a) (h : registrableOf a = registrableOf b) :
    a = b := by
  have hb : isPublicSuffix b := by rw [← isPublicSuffix_registrableOf, ← h, isPublicSuffix_registrableOf, hpublic]
  rwa [registrableOf_of_isPublicSuffix hpublic, registrableOf_of_isPublicSuffix hb] at h

/-- **Hosts match if and only if they have the same registrable domain.** -/
theorem hostnameMatches_iff (hP : P.Lawful) {a b : Text} (ha : ReadsHost P a) (hb : ReadsHost P b) :
    hostnameMatches P a b ↔ registrableDomain P a = registrableDomain P b := by
  have hne : ¬ (normalizeHost P a = [] ∨ normalizeHost P b = []) := not_or.2
    ⟨ne_nil_of_labels ha.labels, ne_nil_of_labels hb.labels⟩
  have ha' : IsHost P (normalizeHost P a) := ha
  have hb' : IsHost P (normalizeHost P b) := hb
  simp only [hostnameMatches, if_neg hne, registrableDomain, ha'.normalizeHost hP, hb'.normalizeHost hP]
  generalize normalizeHost P a = item at ha' hne
  generalize normalizeHost P b = target at hb' hne
  split_ifs with heq htarget hitem hpublic
  · simp [heq]
  · simp only [Bool.not_eq_true'] at htarget
    simp [registrableOf_of_above hP htarget.1 hb' ha' htarget.2]
  · simp only [Bool.not_eq_true'] at hitem
    simp [registrableOf_of_above hP hitem.1 ha' hb' hitem.2]
  · refine iff_of_false not_false fun hsame => ?_
    rcases hpublic with hpublic | hpublic
    · exact heq (eq_of_registrableOf_eq hpublic hsame)
    · exact heq (eq_of_registrableOf_eq hpublic hsame.symm).symm
  · exact decide_eq_true_iff

/-- The keys are the host and its registrable domain. -/
theorem mem_domainLookupKeys (hP : P.Lawful) {value key : Text} (h : ReadsHost P value) :
    key ∈ domainLookupKeys P value ↔ key = normalizeHost P value ∨ key = registrableDomain P value := by
  simp only [domainLookupKeys, if_neg (ne_nil_of_labels h.labels), registrableDomain_of_isHost hP h]
  rw [registrableDomain]
  split <;> simp_all

/-- **Hosts have a lookup key in common if and only if they have the same registrable domain.** -/
theorem exists_common_key_iff (hP : P.Lawful) {a b : Text} (ha : ReadsHost P a) (hb : ReadsHost P b) :
    (∃ key, key ∈ domainLookupKeys P a ∧ key ∈ domainLookupKeys P b) ↔
      registrableDomain P a = registrableDomain P b := by
  constructor
  · rintro ⟨key, hkey, hkey'⟩
    have hof : ∀ {value}, ReadsHost P value → key ∈ domainLookupKeys P value →
        Hostnames.registrableOf key = registrableDomain P value := fun {value} h hmem => by
      rcases (mem_domainLookupKeys hP h).1 hmem with rfl | rfl
      · rfl
      · exact registrableOf_registrableOf hP h
    rw [← hof ha hkey, hof hb hkey']
  · intro hsame
    exact ⟨registrableDomain P a, (mem_domainLookupKeys hP ha).2 (Or.inr rfl),
      (mem_domainLookupKeys hP hb).2 (Or.inr hsame)⟩

/-! ## A platform -/

/-- A domain of ASCII letters, digits and hyphens that does not end in a number. -/
def isPlainDomain (host : Text) : Bool :=
  host.all "abcdefghijklmnopqrstuvwxyz0123456789-.".toList.contains && !(host.splitOn '.').contains [] &&
    !((host.splitOn '.').getLast?.any fun label => label.all Char.isDigit)

/-- A platform that reads nothing but plain domains and maps only ASCII. -/
def plainPlatform : UrlPlatform where
  toLowerCase := fun value => value.map Char.toLower
  hostname := fun url =>
    let host := if "https://".toList.isPrefixOf url then url.drop 8 else url.drop 7
    if isPlainDomain host then some host else none

theorem accepted_plainPlatform_iff : Accepted plainPlatform host ↔ isPlainDomain host := by
  have hprefix : "https://".toList.isPrefixOf (https host) = true :=
    List.isPrefixOf_iff_prefix.2 (List.prefix_append _ _)
  have hdrop : (https host).drop 8 = host := rfl
  simp only [Accepted, plainPlatform, hprefix, hdrop, if_true]
  simp

theorem isPlainDomain_iff : isPlainDomain host ↔
    (∀ c ∈ host, c ∈ "abcdefghijklmnopqrstuvwxyz0123456789-.".toList) ∧ [] ∉ host.splitOn '.' ∧
      ∀ label, (host.splitOn '.').getLast? = some label → label.all Char.isDigit = false := by
  simp only [isPlainDomain, Bool.and_eq_true, List.all_eq_true, List.contains_iff_mem, Bool.not_eq_true',
    Option.any_eq_false, and_assoc]
  simp

/-- Nothing above a plain domain ends in a number. -/
theorem isPlainDomain_of_above {upper lower : Text} (h : Above '.' upper lower) (hlower : isPlainDomain lower) :
    isPlainDomain upper := by
  obtain ⟨hchars, hlabels, hlast⟩ := isPlainDomain_iff.1 hlower
  refine isPlainDomain_iff.2 ⟨fun c hc => hchars c ?_, Above.labels h hlabels, fun label hlabel => hlast label ?_⟩
  · exact h.subset (List.mem_cons_of_mem _ hc)
  · obtain ⟨lead, hlead⟩ := (above_iff.1 h).1
    rw [← hlead, List.getLast?_append, hlabel]
    rfl

theorem isPlainDomain_of_number {lead label : Text} (hdigits : label.all Char.isDigit) :
    isPlainDomain (lead ++ '.' :: label) = false := by
  by_contra hplain
  rw [Bool.not_eq_false] at hplain
  have hdot : '.' ∉ label := fun hmem => absurd (List.all_eq_true.1 hdigits _ hmem) (by decide)
  have hlast : ((lead ++ '.' :: label).splitOn '.').getLast? = some label := by
    rw [List.splitOn_append_cons_self, List.splitOn_eq_singleton hdot, List.getLast?_concat]
  simp [(isPlainDomain_iff.1 hplain).2.2 label hlast] at hdigits

theorem isPlainDomain_of_hostname {url : Text} (h : plainPlatform.hostname url = some host) : isPlainDomain host := by
  simp only [plainPlatform] at h
  split_ifs at h with hprefix hplain hplain
  · exact Option.some.inj h ▸ hplain
  · exact Option.some.inj h ▸ hplain

theorem plainPlatform_lawful : plainPlatform.Lawful where
  lowercase := fun {value} h => by
    refine (List.map_congr_left fun c hc => ?_).trans (List.map_id value)
    have hupper := (h c hc).2
    exact dif_neg (of_decide_eq_false hupper)
  empty := by decide
  text := fun {url host} _ h => by
    have hchars : "abcdefghijklmnopqrstuvwxyz0123456789-.".toList.all isHostChar = true := by decide +kernel
    refine Or.inl (List.all_eq_true.2 fun c hc => List.all_eq_true.1 hchars c ?_)
    exact (isPlainDomain_iff.1 (isPlainDomain_of_hostname h)).1 c hc
  stable := fun _ h => accepted_plainPlatform_iff.2 (isPlainDomain_of_hostname h)
  root := fun {host} _ h => by
    refine absurd ?_ (isPlainDomain_iff.1 (accepted_plainPlatform_iff.1 h)).2.1
    rw [List.splitOn_append_cons_self]
    exact List.mem_append_right _ (by simp)
  parent := fun habove _ _ h =>
    accepted_plainPlatform_iff.2 (isPlainDomain_of_above habove (accepted_plainPlatform_iff.1 h))
  ipv4Tail := fun {upper lower} _ hip h => by
    obtain ⟨lead, label, rfl, -, hdigits⟩ := exists_number_of_isIpv4 hip
    rw [accepted_plainPlatform_iff, isPlainDomain_of_number hdigits] at h
    exact absurd h Bool.false_ne_true
  numeric := fun {host lead label} h heq _ hdigits => by
    rw [accepted_plainPlatform_iff, heq, isPlainDomain_of_number hdigits] at h
    exact absurd h Bool.false_ne_true

theorem isHost_plainPlatform (h : isPlainDomain host) : IsHost plainPlatform host :=
  ⟨accepted_plainPlatform_iff.2 h, (isPlainDomain_iff.1 h).2.1⟩

end Bittery.Hostnames
