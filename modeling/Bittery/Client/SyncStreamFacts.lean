/-
The two readers of the sync stream against the server that writes it: whatever the chunks are that its bytes come in,
each event is dispatched once and in order, and a heartbeat is not.
-/
import Bittery.Client.SyncStream

namespace Bittery.SyncStream

open Lib SyncEvents

/-! ## Frames -/

/-- A separator that is two line feeds, and nothing else where there is no carriage return. -/
structure Plain (separator : Text → Option Nat) : Prop where
  other {c : Char} (rest : Text) : c ≠ '\n' → c ≠ '\r' → separator (c :: rest) = none
  one : separator ['\n'] = none
  single {c : Char} (rest : Text) : c ≠ '\n' → c ≠ '\r' → separator ('\n' :: c :: rest) = none
  double (rest : Text) : separator ('\n' :: '\n' :: rest) = some 2

theorem plain_blankLine : Plain blankLine where
  other rest hn hr := by
    unfold blankLine
    split <;> simp_all
  one := rfl
  single rest hn hr := by
    unfold blankLine
    split <;> simp_all
  double rest := by simp [blankLine]

theorem plain_twoNewlines : Plain twoNewlines where
  other rest hn hr := by
    unfold twoNewlines
    split <;> simp_all
  one := rfl
  single rest hn hr := by
    unfold twoNewlines
    split <;> simp_all
  double rest := rfl

/-- No carriage return, and after each line feed something on the next line. -/
structure Clean (frame : Text) : Prop where
  noReturn : '\r' ∉ frame
  lines {before after : Text} : frame = before ++ '\n' :: after → ∃ c rest, after = c :: rest ∧ c ≠ '\n'

theorem clean_of_line {line : Text} (hn : '\n' ∉ line) (hr : '\r' ∉ line) : Clean line where
  noReturn := hr
  lines h := absurd (h ▸ List.mem_append_right _ List.mem_cons_self) hn

theorem clean_of_two {first second : Text} (hfirst : '\n' ∉ first ∧ '\r' ∉ first)
    (hsecond : '\n' ∉ second ∧ '\r' ∉ second) (hne : second ≠ []) : Clean (first ++ '\n' :: second) where
  noReturn := by
    simp only [List.mem_append, List.mem_cons, not_or]
    exact ⟨hfirst.2, by decide, hsecond.2⟩
  lines {before after} h := by
    have hafter : after = second := by
      rcases List.append_eq_append_iff.1 h with ⟨between, -, hrest⟩ | ⟨between, hbetween, hrest⟩
      · cases between with
        | nil => exact (List.cons.inj hrest).2.symm
        | cons c between => exact absurd ((List.cons.inj hrest).2 ▸ List.mem_append_right _ List.mem_cons_self) hsecond.1
      · cases between with
        | nil => exact (List.cons.inj hrest).2
        | cons c between =>
          rw [hbetween, ← (List.cons.inj hrest).1] at hfirst
          exact absurd (List.mem_append_right _ List.mem_cons_self) hfirst.1
    obtain ⟨c, rest, rfl⟩ := List.exists_cons_of_ne_nil hne
    exact ⟨c, rest, hafter, fun heq => hsecond.1 (heq ▸ List.mem_cons_self)⟩

theorem framed_of_clean {separator : Text → Option Nat} (hplain : Plain separator) {frame : Text} (h : Clean frame) :
    Split.Framed separator ['\n', '\n'] frame where
  found rest := hplain.double rest
  inside {tail} rest htail hne := by
    obtain ⟨before, hframe⟩ := htail
    obtain ⟨c, tail, rfl⟩ := List.exists_cons_of_ne_nil hne
    have hmem {d : Char} (hd : d ∈ c :: tail) : d ≠ '\r' := fun heq =>
      h.noReturn (heq ▸ hframe ▸ List.mem_append_right _ hd)
    by_cases hc : c = '\n'
    · subst c
      obtain ⟨d, tail, rfl, hd⟩ := h.lines hframe.symm
      exact hplain.single _ hd (hmem (List.mem_cons_of_mem _ List.mem_cons_self))
    · exact hplain.other _ hc (hmem List.mem_cons_self)
  early {text} hprefix hshort tail htail hne := by
    obtain ⟨later, htext⟩ := hprefix
    obtain ⟨before, rfl⟩ := htail
    obtain ⟨c, tail, rfl⟩ := List.exists_cons_of_ne_nil hne
    have hmem {d : Char} (hd : d ∈ c :: tail) : d ≠ '\r' := fun heq => by
      have hin : d ∈ frame ++ ['\n', '\n'] := htext ▸ List.mem_append_left _ (List.mem_append_right _ hd)
      rcases List.mem_append.1 hin with hin | hin
      · exact h.noReturn (heq ▸ hin)
      · rw [heq] at hin
        exact absurd hin (by decide)
    by_cases hc : c = '\n'
    · subst c
      cases tail with
      | nil => exact hplain.one
      | cons d tail =>
        refine hplain.single _ (fun heq => ?_) (hmem (List.mem_cons_of_mem _ List.mem_cons_self))
        -- the second of two line feeds is the end of the frame's separator, and that has not come
        subst d
        have hlater : later ≠ [] := by
          rintro rfl
          rw [List.append_nil] at htext
          rw [htext] at hshort
          omega
        obtain ⟨later, x, rfl⟩ := (List.eq_nil_or_concat later).resolve_left hlater
        have hcut : before ++ '\n' :: ('\n' :: (tail ++ later)) = frame ++ ['\n'] := by
          have hends : (before ++ '\n' :: ('\n' :: (tail ++ later))) ++ [x] = (frame ++ ['\n']) ++ ['\n'] := by
            simpa using htext
          exact (List.append_inj' hends rfl).1
        obtain ⟨after, y, hafter⟩ := (List.eq_nil_or_concat ('\n' :: (tail ++ later))).resolve_left
          (List.cons_ne_nil _ _)
        have hframe : frame = before ++ '\n' :: after := by
          rw [hafter, List.concat_eq_append, ← List.cons_append, ← List.append_assoc] at hcut
          exact (List.append_inj' hcut rfl).1.symm
        obtain ⟨c, rest, rfl, hc⟩ := h.lines hframe
        rw [List.concat_eq_append, List.cons_append] at hafter
        exact hc (List.cons.inj hafter).1.symm
    · exact hplain.other _ hc (hmem List.mem_cons_self)

/-! ## Lines -/

/-- A line end that is a line feed, and nothing else where there is no carriage return. -/
structure Feeds (separator : Text → Option Nat) : Prop where
  other {c : Char} (rest : Text) : c ≠ '\n' → c ≠ '\r' → separator (c :: rest) = none
  feed (rest : Text) : separator ('\n' :: rest) = some 1

theorem feeds_lineEnd : Feeds lineEnd where
  other rest hn hr := by
    unfold lineEnd
    split <;> simp_all
  feed rest := by simp [lineEnd]

theorem feeds_newline : Feeds newline where
  other rest hn hr := by
    unfold newline
    split <;> simp_all
  feed rest := rfl

/-- A text on one line. -/
def OneLine (line : Text) : Prop := '\n' ∉ line ∧ '\r' ∉ line

instance (line : Text) : Decidable (OneLine line) := inferInstanceAs (Decidable ('\n' ∉ line ∧ '\r' ∉ line))

theorem OneLine.append {line line' : Text} (h : OneLine line) (h' : OneLine line') : OneLine (line ++ line') :=
  ⟨fun hmem => (List.mem_append.1 hmem).elim h.1 h'.1, fun hmem => (List.mem_append.1 hmem).elim h.2 h'.2⟩

theorem Feeds.none {separator : Text → Option Nat} (h : Feeds separator) {line : Text} (hline : OneLine line)
    {tail : Text} (htail : tail <:+ line) (hne : tail ≠ []) (rest : Text) : separator (tail ++ rest) = none := by
  obtain ⟨c, tail, rfl⟩ := List.exists_cons_of_ne_nil hne
  have hmem : c ∈ line := htail.subset List.mem_cons_self
  exact h.other _ (fun heq => hline.1 (heq ▸ hmem)) (fun heq => hline.2 (heq ▸ hmem))

theorem split_line {separator : Text → Option Nat} (h : Feeds separator) {line : Text} (hline : OneLine line) :
    Split.split separator line = [line] := by
  rw [Split.split, Split.go_none fun tail htail hne => ?_, List.nil_append]
  have hnone := h.none hline htail hne []
  rwa [List.append_nil] at hnone

theorem split_lines {separator : Text → Option Nat} (h : Feeds separator) {first second : Text}
    (hfirst : OneLine first) (hsecond : OneLine second) :
    Split.split separator (first ++ '\n' :: second) = [first, second] := by
  have hgo := Split.go_append (List.cons_ne_nil '\n' []) (fun tail htail hne => h.none hfirst htail hne _)
    (h.feed second) []
  rw [List.singleton_append, List.nil_append] at hgo
  rw [Split.split, hgo, split_line h hsecond]

/-! ## What is sent -/

/-- What `JSON.parse` and the server's serializer have in common for a payload: it is an object on one line. -/
structure Faithful (toJson : Payload → Text) (parseJson : Text → Option Json) (payload : Payload) : Prop where
  parse : parseJson (toJson payload) = some (.object payload)
  oneLine : OneLine (toJson payload)
  braces : ∃ inner, toJson payload = '{' :: (inner ++ ['}'])

theorem oneLine_text {s : String} (h : (text s).all fun c => c ≠ '\n' ∧ c ≠ '\r') : OneLine (text s) := by
  rw [List.all_eq_true] at h
  exact ⟨fun hmem => by simpa using h _ hmem, fun hmem => by simpa using h _ hmem⟩

theorem mem_toString_int {n : Int} {c : Char} (h : c ∈ (toString n).toList) : c = '-' ∨ c.isDigit = true := by
  have hnat {m : Nat} (hm : c ∈ (Nat.repr m).toList) : c.isDigit = true := by
    rw [Nat.toList_repr] at hm
    exact Nat.isDigit_of_mem_toDigits (by decide) (by decide) hm
  cases n with
  | ofNat m => exact Or.inr (hnat h)
  | negSucc m =>
    have hneg : (toString (Int.negSucc m)).toList = '-' :: (Nat.repr (m + 1)).toList := String.toList_append
    rw [hneg] at h
    exact (List.mem_cons.1 h).imp_right hnat

theorem not_isSpace_of_mem_toString {n : Int} {c : Char} (h : c ∈ (toString n).toList) : Ecma.isSpace c = false := by
  rcases mem_toString_int h with rfl | hdigit
  · decide
  · exact Ecma.not_isSpace_of_isDigit hdigit

theorem oneLine_toString (n : Int) : OneLine (toString n).toList :=
  ⟨fun h => absurd (not_isSpace_of_mem_toString h) (by decide), fun h => absurd (not_isSpace_of_mem_toString h) (by decide)⟩

theorem toString_int_ne_nil (n : Int) : (toString n).toList ≠ [] := by
  cases n with
  | ofNat m =>
    rw [show (toString (Int.ofNat m)).toList = Nat.toDigits 10 m from Nat.toList_repr]
    exact Nat.toDigits_ne_nil
  | negSucc m =>
    rw [show (toString (Int.negSucc m)).toList = '-' :: (Nat.repr (m + 1)).toList from String.toList_append]
    exact List.cons_ne_nil _ _

/-- The text of an event without the blank line after it. -/
def eventText (toJson : Payload → Text) (event : SseEvent) : Text :=
  (text "event: " ++ event.name) ++ '\n' :: (text "data: " ++ toJson event.payload)

def heartbeatText (timestamp : Int) : Text := text ": heartbeat " ++ (toString timestamp).toList

/-- The text of a frame: what is written without the blank line at its end. -/
def frameText (toJson : Payload → Text) (s : Sent) : Text := (s.wire toJson).dropLast.dropLast

variable {toJson : Payload → Text} {parseJson : Text → Option Json}

theorem sseJsonEvent_eq (event : SseEvent) : sseJsonEvent toJson event = eventText toJson event ++ ['\n'] ++ ['\n'] := by
  have hevent : text "event: " = text "event" ++ text ": " := rfl
  have hdata : text "data: " = text "data" ++ text ": " := rfl
  simp only [sseJsonEvent, eventText, field, hevent, hdata, List.append_assoc, List.cons_append, List.nil_append]

theorem sseHeartbeatEvent_eq (timestamp : Int) :
    sseHeartbeatEvent timestamp = heartbeatText timestamp ++ ['\n'] ++ ['\n'] := rfl

theorem wire_of_event {s : Sent} {event : SseEvent} (h : s.event = some event) :
    s.wire toJson = eventText toJson event ++ ['\n'] ++ ['\n'] := by
  rw [← sseJsonEvent_eq]
  cases s <;> cases h <;> rfl

theorem frameText_of_event {s : Sent} {event : SseEvent} (h : s.event = some event) :
    frameText toJson s = eventText toJson event := by
  rw [frameText, wire_of_event h, List.dropLast_concat, List.dropLast_concat]

theorem frameText_heartbeat (timestamp : Int) : frameText toJson (.heartbeat timestamp) = heartbeatText timestamp := by
  rw [frameText, Sent.wire, sseHeartbeatEvent_eq, List.dropLast_concat, List.dropLast_concat]

theorem event_or_heartbeat (s : Sent) : (∃ event, s.event = some event) ∨ ∃ timestamp, s = .heartbeat timestamp := by
  cases s with
  | heartbeat timestamp => exact Or.inr ⟨timestamp, rfl⟩
  | _ => exact Or.inl ⟨_, rfl⟩

theorem wire_eq (s : Sent) : s.wire toJson = frameText toJson s ++ ['\n', '\n'] := by
  rcases event_or_heartbeat s with ⟨event, h⟩ | ⟨timestamp, rfl⟩
  · rw [frameText_of_event h, wire_of_event h, List.append_assoc]
    rfl
  · rw [frameText_heartbeat, Sent.wire, sseHeartbeatEvent_eq, List.append_assoc]
    rfl

theorem oneLine_name {s : Sent} {event : SseEvent} (h : s.event = some event) : OneLine event.name := by
  cases s <;> cases h <;> exact oneLine_text (by decide)

theorem oneLine_heartbeat (timestamp : Int) : OneLine (heartbeatText timestamp) :=
  (oneLine_text (by decide)).append (oneLine_toString timestamp)

/-! ## One frame -/

section Frame

variable {event : SseEvent}

theorem oneLine_event (hname : OneLine event.name) : OneLine (text "event: " ++ event.name) :=
  (oneLine_text (by decide)).append hname

theorem oneLine_data (h : Faithful toJson parseJson event.payload) :
    OneLine (text "data: " ++ toJson event.payload) := (oneLine_text (by decide)).append h.oneLine

theorem clean_eventText (h : Faithful toJson parseJson event.payload) (hname : OneLine event.name) :
    Clean (eventText toJson event) :=
  clean_of_two (oneLine_event hname) (oneLine_data h) (List.cons_ne_nil _ _)

theorem clean_heartbeatText (timestamp : Int) : Clean (heartbeatText timestamp) :=
  clean_of_line (oneLine_heartbeat timestamp).1 (oneLine_heartbeat timestamp).2

theorem trim_of_ends {a z : Char} {inner : Text} (ha : Ecma.isSpace a = false) (hz : Ecma.isSpace z = false) :
    Ecma.trim (a :: (inner ++ [z])) = a :: (inner ++ [z]) :=
  Ecma.trim_eq_self ha (by simpa using hz)

theorem trim_eventText (h : Faithful toJson parseJson event.payload) :
    Ecma.trim (eventText toJson event) = eventText toJson event := by
  obtain ⟨inner, hinner⟩ := h.braces
  have htext : eventText toJson event =
      'e' :: ((text "vent: " ++ event.name ++ '\n' :: (text "data: " ++ '{' :: inner)) ++ ['}']) := by
    rw [eventText, hinner, show text "event: " = 'e' :: text "vent: " from rfl]
    simp only [List.append_assoc, List.cons_append]
  rw [htext]
  exact trim_of_ends (by decide) (by decide)

theorem trim_heartbeatText (timestamp : Int) : Ecma.trim (heartbeatText timestamp) = heartbeatText timestamp := by
  obtain ⟨digits, last, hdigits⟩ := (List.eq_nil_or_concat _).resolve_left (toString_int_ne_nil timestamp)
  have htext : heartbeatText timestamp = ':' :: ((text " heartbeat " ++ digits) ++ [last]) := by
    rw [heartbeatText, hdigits, show text ": heartbeat " = ':' :: text " heartbeat " from rfl]
    simp only [List.concat_eq_append, List.append_assoc, List.cons_append]
  rw [htext]
  refine trim_of_ends (by decide) (@not_isSpace_of_mem_toString timestamp _ ?_)
  rw [hdigits]
  simp

/-- An event is dispatched by its name and payload. -/
theorem processEvent_eventText (h : Faithful toJson parseJson event.payload) (hname : OneLine event.name) (now : Int) :
    processEvent parseJson now (eventText toJson event) = dispatch now event.name event.payload := by
  obtain ⟨inner, hinner⟩ := h.braces
  have hread : readLines [] [] [text "event: " ++ event.name, text "data: " ++ toJson event.payload] =
      some (event.name, [toJson event.payload]) := by
    have hstart : Ecma.trimStart (' ' :: toJson event.payload) = toJson event.payload := by
      rw [hinner]
      rfl
    exact congrArg (fun data => some (event.name, [data])) hstart
  have hne : toJson event.payload ≠ [] := hinner ▸ List.cons_ne_nil _ _
  rw [processEvent, trim_eventText h, eventText, split_lines feeds_lineEnd (oneLine_event hname) (oneLine_data h),
    hread]
  dsimp only
  rw [show ['\n'].intercalate [toJson event.payload] = toJson event.payload by simp, if_neg hne, h.parse]
  rfl

theorem processEvent_heartbeatText (timestamp now : Int) :
    processEvent parseJson now (heartbeatText timestamp) = none := by
  rw [processEvent, trim_heartbeatText, split_line feeds_lineEnd (oneLine_heartbeat timestamp)]
  rfl

theorem parseSseFrame_eventText (h : Faithful toJson parseJson event.payload) (hname : OneLine event.name) :
    parseSseFrame parseJson (eventText toJson event) = some ⟨event.name, .object event.payload⟩ := by
  obtain ⟨inner, hinner⟩ := h.braces
  have hread : readFields [] [] [text "event: " ++ event.name, text "data: " ++ toJson event.payload] =
      (event.name, toJson event.payload) := rfl
  have hne : toJson event.payload ≠ [] := hinner ▸ List.cons_ne_nil _ _
  rw [parseSseFrame, trim_eventText h, eventText, split_lines feeds_newline (oneLine_event hname) (oneLine_data h),
    hread]
  dsimp only
  rw [if_neg hne, h.parse]

theorem parseSseFrame_heartbeatText (timestamp : Int) : parseSseFrame parseJson (heartbeatText timestamp) = none := by
  rw [parseSseFrame, trim_heartbeatText, split_line feeds_newline (oneLine_heartbeat timestamp)]
  rfl

end Frame

/-! ## The stream -/

/-- What the shared manager dispatches of what is sent. -/
def dispatched : Sent → Option Dispatched
  | .connected _ _ _ => some .connected
  | .limitExceeded _ _ _ => some .limitExceeded
  | .sessionRevoked sessionId reason timestamp => some (.sessionRevoked [] sessionId timestamp reason)
  | .sync _ => some .syncPing
  | .heartbeat _ => none

/-- A text, unless it is empty. -/
def nonempty (s : Text) : Option Text := if s = [] then none else some s

/-- What the extension does about what is sent. -/
def handled : Sent → Option Handled
  | .sync _ => some .catchUp
  | .sessionRevoked sessionId reason _ => some (.sessionRevoked (nonempty sessionId) (reason.bind nonempty))
  | _ => none

/-- The frame of an event. -/
def frameOf (event : SseEvent) : SseFrame := ⟨event.name, .object event.payload⟩

theorem dispatch_event {s : Sent} {event : SseEvent} (h : s.event = some event) (now : Int) :
    dispatch now event.name event.payload = dispatched s := by
  cases s with
  | sessionRevoked sessionId reason timestamp => cases reason <;> cases h <;> rfl
  | _ => cases h <;> rfl

theorem handle_frameOf {s : Sent} {event : SseEvent} (h : s.event = some event) :
    handleSyncSseFrame (frameOf event) = handled s := by
  cases s with
  | sessionRevoked sessionId reason timestamp =>
    cases h
    have hid (value : Value) : handleSyncSseFrame (frameOf (sessionRevokedEvent sessionId value timestamp)) =
        some (.sessionRevoked ((nonempty sessionId).or none) (readString (property [("reason", value)] "reason"))) := rfl
    cases reason <;> exact (hid _).trans (by rw [Option.or_none]; rfl)
  | heartbeat => cases h
  | _ => cases h; rfl

section Stream

variable {sent : List Sent}

theorem streamBytes_eq : sent.flatMap (Sent.wire toJson) = Split.stream ['\n', '\n'] (sent.map (frameText toJson)) := by
  rw [Split.stream, List.flatMap_map]
  exact List.flatMap_congr fun s _ => wire_eq s

theorem head_frameText (s : Sent) : (frameText toJson s).head? = some 'e' ∨ (frameText toJson s).head? = some ':' := by
  rcases event_or_heartbeat s with ⟨event, h⟩ | ⟨timestamp, rfl⟩
  · exact Or.inl (congrArg List.head? (frameText_of_event h))
  · exact Or.inr (congrArg List.head? (frameText_heartbeat timestamp))

/-- A stream starts with no byte order mark. -/
theorem head_stream : (Split.stream ['\n', '\n'] (sent.map (frameText toJson))).head? ≠ some Ecma.BOM := by
  cases sent with
  | nil => simp [Split.stream]
  | cons s sent =>
    rw [List.map_cons, Split.stream, List.flatMap_cons, List.head?_append, List.head?_append]
    have hhead : (frameText toJson s).head? ≠ some Ecma.BOM := by
      rcases @head_frameText toJson s with h | h <;> rw [h] <;> decide
    have hsome : (frameText toJson s).head? ≠ none := by
      rcases @head_frameText toJson s with h | h <;> simp [h]
    obtain ⟨c, hc⟩ := Option.ne_none_iff_exists'.1 hsome
    rw [hc] at hhead ⊢
    exact hhead

/-- What every event that is sent carries. -/
def AllFaithful (toJson : Payload → Text) (parseJson : Text → Option Json) (sent : List Sent) : Prop :=
  ∀ s ∈ sent, ∀ event, s.event = some event → Faithful toJson parseJson event.payload

theorem clean_frameText (h : AllFaithful toJson parseJson sent) {s : Sent} (hs : s ∈ sent) :
    Clean (frameText toJson s) := by
  rcases event_or_heartbeat s with ⟨event, hevent⟩ | ⟨timestamp, rfl⟩
  · rw [frameText_of_event hevent]
    exact clean_eventText (h s hs event hevent) (oneLine_name hevent)
  · rw [frameText_heartbeat]
    exact clean_heartbeatText timestamp

/-- Either reader finds the frames that were sent, whatever the chunks are. -/
theorem reads_frames {separator : Text → Option Nat} (hplain : Plain separator)
    (h : AllFaithful toJson parseJson sent) {chunks : List (List UInt8)}
    (hchunks : chunks.flatten = streamBytes toJson sent) :
    Split.reads separator [] (Ecma.TextDecoder.initial.decodes chunks) = sent.map (frameText toJson) := by
  rw [streamBytes, streamBytes_eq] at hchunks
  refine Split.reads_stream (List.cons_ne_nil '\n' ['\n']) (fun frame hframe => ?_) ?_ ?_
  · obtain ⟨s, hs, rfl⟩ := List.mem_map.1 hframe
    exact framed_of_clean hplain (clean_frameText h hs)
  · rw [List.nil_append]
    exact Ecma.TextDecoder.flatten_decodes head_stream hchunks
  · cases sent with
    | nil => exact Or.inl rfl
    | cons s sent =>
      refine Or.inr ⟨frameText toJson s, sent.map (frameText toJson), rfl, ?_⟩
      rw [List.length_append]
      exact Nat.succ_pos _

/-- **Whatever the chunks are, each reader takes every event that was sent once and in order, and no heartbeat.** -/
theorem readers_exact (h : AllFaithful toJson parseJson sent) {chunks : List (List UInt8)}
    (hchunks : chunks.flatten = streamBytes toJson sent) (now : Int) :
    readStream parseJson now chunks = sent.filterMap dispatched ∧
      readExtensionStream parseJson chunks = (sent.filterMap Sent.event).map frameOf ∧
      (readExtensionStream parseJson chunks).filterMap handleSyncSseFrame = sent.filterMap handled := by
  have hshared {s : Sent} (hs : s ∈ sent) : processEvent parseJson now (frameText toJson s) = dispatched s := by
    rcases event_or_heartbeat s with ⟨event, hevent⟩ | ⟨timestamp, rfl⟩
    · rw [frameText_of_event hevent, processEvent_eventText (h s hs event hevent) (oneLine_name hevent),
        dispatch_event hevent]
    · rw [frameText_heartbeat, processEvent_heartbeatText]
      rfl
  have hextension {s : Sent} (hs : s ∈ sent) :
      parseSseFrame parseJson (frameText toJson s) = s.event.map frameOf := by
    rcases event_or_heartbeat s with ⟨event, hevent⟩ | ⟨timestamp, rfl⟩
    · rw [frameText_of_event hevent, parseSseFrame_eventText (h s hs event hevent) (oneLine_name hevent), hevent]
      rfl
    · rw [frameText_heartbeat, parseSseFrame_heartbeatText]
      rfl
  have hhandled (s : Sent) : (s.event.map frameOf).bind handleSyncSseFrame = handled s := by
    rcases event_or_heartbeat s with ⟨event, hevent⟩ | ⟨timestamp, rfl⟩
    · rw [hevent]
      exact handle_frameOf hevent
    · rfl
  have hframes : readExtensionStream parseJson chunks = (sent.filterMap Sent.event).map frameOf := by
    rw [readExtensionStream, reads_frames plain_twoNewlines h hchunks, List.filterMap_map, List.map_filterMap]
    exact List.filterMap_congr fun s hs => hextension hs
  refine ⟨?_, hframes, ?_⟩
  · rw [readStream, reads_frames plain_blankLine h hchunks, List.filterMap_map]
    exact List.filterMap_congr fun s hs => hshared hs
  · rw [hframes, List.map_filterMap, List.filterMap_filterMap]
    exact List.filterMap_congr fun s _ => hhandled s

end Stream

/-- Compact JSON of texts that need no escape. -/
def plainJson (payload : Payload) : Text :=
  let value : Value → Text
    | .null => text "null"
    | .string s => '"' :: (s ++ ['"'])
    | .number n => (toString n).toList
  '{' :: ([','].intercalate (payload.map fun (key, v) => '"' :: (text key ++ '"' :: ':' :: value v)) ++ ['}'])

/-- A ping, a heartbeat and a revocation, byte by byte. -/
theorem readers_exact_bytes :
    let revoked := Sent.sessionRevoked (text "s") (some (text "é")) 7
    let sent := [Sent.sync 5, .heartbeat 6, revoked]
    let parseJson := fun json =>
      if json = text "\x7b\"timestamp\":5\x7d" then some (Json.object (syncEvent 5).payload)
      else if json = text "\x7b\"session_id\":\"s\",\"reason\":\"é\",\"timestamp\":7\x7d" then
        revoked.event.map fun event => Json.object event.payload
      else none
    let chunks := (streamBytes plainJson sent).map fun byte => [byte]
    readStream parseJson 9 chunks = [.syncPing, .sessionRevoked [] (text "s") 7 (some (text "é"))] ∧
      readExtensionStream parseJson chunks = (sent.filterMap Sent.event).map frameOf ∧
      (readExtensionStream parseJson chunks).filterMap handleSyncSseFrame =
        [.catchUp, .sessionRevoked (some (text "s")) (some (text "é"))] := by
  intro revoked sent parseJson chunks
  have hjson : plainJson (syncEvent 5).payload = text "\x7b\"timestamp\":5\x7d" := by decide
  have hjson' : plainJson (sessionRevokedEvent (text "s") (.string (text "é")) 7).payload =
      text "\x7b\"session_id\":\"s\",\"reason\":\"é\",\"timestamp\":7\x7d" := by decide
  refine @readers_exact plainJson parseJson sent ?_ chunks ?_ 9
  · intro s hs event hevent
    simp only [sent, List.mem_cons, List.not_mem_nil, or_false] at hs
    rcases hs with rfl | rfl | rfl
    · cases hevent
      exact ⟨by rw [hjson]; rfl, by rw [hjson]; decide, ⟨text "\"timestamp\":5", by rw [hjson]; decide⟩⟩
    · cases hevent
    · cases hevent
      exact ⟨by rw [hjson']; rfl, by rw [hjson']; decide,
        ⟨text "\"session_id\":\"s\",\"reason\":\"é\",\"timestamp\":7", by rw [hjson']; decide⟩⟩
  · exact List.flatMap_singleton' _

end Bittery.SyncStream
