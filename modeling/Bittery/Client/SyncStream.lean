/-
The two readers of the sync stream: `readStream` and `processEvent` of the shared sync manager, and those of the
extension with `parseSseFrame`.

`JSON.parse` is a parameter, and so is the time. What follows from a ping or a revocation is not in the model.
-/
import Bittery.Lib.Split
import Bittery.Lib.Utf8Decoder
import Bittery.Server.SyncEvents

namespace Bittery.SyncStream

open Lib SyncEvents

/-- What `JSON.parse` makes of a text, where it does not throw. Only an object has properties that are read. -/
inductive Json where
  | null
  | scalar
  | array
  | object (payload : Payload)
deriving DecidableEq, Repr

def Json.payload : Json → Payload
  | object payload => payload
  | _ => []

variable (parseJson : Text → Option Json)

/-- A property; absent and null are not told apart. -/
def property (payload : Payload) (key : String) : Option Value :=
  match payload.lookup key with
  | none | some .null => none
  | some value => some value

def isText (value : Option Value) (s : String) : Bool := value = some (.string (text s))

/-- `String(value ?? "")` -/
def asText : Option Value → Text
  | none | some .null => []
  | some (.string s) => s
  | some (.number n) => (toString n).toList

/-- `value ? … : …` -/
def isTruthy : Option Value → Bool
  | none | some .null => false
  | some (.string s) => s ≠ []
  | some (.number n) => n ≠ 0

/-! ## The shared sync manager -/

/-- The length of a match of `\r?\n\r?\n`. -/
def blankLine : Text → Option Nat
  | '\r' :: '\n' :: '\r' :: '\n' :: _ => some 4
  | '\r' :: '\n' :: '\n' :: _ => some 3
  | '\n' :: '\r' :: '\n' :: _ => some 3
  | '\n' :: '\n' :: _ => some 2
  | _ => none

/-- The length of a match of `\r?\n`. -/
def lineEnd : Text → Option Nat
  | '\r' :: '\n' :: _ => some 2
  | '\n' :: _ => some 1
  | _ => none

inductive Dispatched where
  | connected
  | syncPing
  | sessionRevoked (userId sessionId : Text) (timestamp : Int) (reason : Option Text)
  | limitExceeded
deriving DecidableEq, Repr

/-- The type and the data lines of a frame, up to a heartbeat; `none` is one. -/
def readLines : Text → List Text → List Text → Option (Text × List Text)
  | eventType, dataLines, [] => some (eventType, dataLines)
  | eventType, dataLines, line :: lines =>
    if (text ": heartbeat").isPrefixOf line then none
    else if (text ":").isPrefixOf line then readLines eventType dataLines lines
    else if (text "event: ").isPrefixOf line then readLines (line.drop 7) dataLines lines
    else if (text "data:").isPrefixOf line then
      readLines eventType (dataLines ++ [Ecma.trimStart (line.drop 5)]) lines
    else readLines eventType dataLines lines

/-- What a parsed event is dispatched as. -/
def dispatch (now : Int) (eventType : Text) (event : Payload) : Option Dispatched :=
  if eventType = text "heartbeat" ∨ isText (property event "type") "heartbeat" then none
  else if eventType = text "connected" ∨ isText (property event "type") "connected" then some .connected
  else if eventType = text "sync" ∧ isTruthy (property event "id") = false then some .syncPing
  else if eventType = text "session_revoked" then
    some (.sessionRevoked
      (asText ((property event "userId").or (property event "user_id")))
      (asText ((property event "sessionId").or (property event "session_id")))
      (match property event "timestamp" with
        | some (.number n) => n
        | _ => now)
      (match property event "reason" with
        | some (.string reason) => some reason
        | _ => none))
  else if eventType = text "limit_exceeded" ∨ isText (property event "type") "limit_exceeded" then some .limitExceeded
  else none

def processEvent (now : Int) (eventStr : Text) : Option Dispatched :=
  match readLines [] [] (Split.split lineEnd (Ecma.trim eventStr)) with
  | none => none
  | some (eventType, dataLines) =>
    let data := ['\n'].intercalate dataLines
    if data = [] then none
    else
      match parseJson data with
      | none | some .null => none
      | some event => dispatch now eventType event.payload

/-- What is dispatched of a stream that comes in chunks. -/
def readStream (now : Int) (chunks : List (List UInt8)) : List Dispatched :=
  (Split.reads blankLine [] (Ecma.TextDecoder.initial.decodes chunks)).filterMap (processEvent parseJson now)

/-! ## The extension -/

structure SseFrame where
  event : Text
  data : Json
deriving DecidableEq, Repr

def twoNewlines : Text → Option Nat
  | '\n' :: '\n' :: _ => some 2
  | _ => none

def newline : Text → Option Nat
  | '\n' :: _ => some 1
  | _ => none

/-- The last fields of a frame. -/
def readFields : Text → Text → List Text → Text × Text
  | event, data, [] => (event, data)
  | event, data, line :: lines =>
    if (text ":").isPrefixOf line then readFields event data lines
    else if (text "event: ").isPrefixOf line then readFields (line.drop 7) data lines
    else if (text "data: ").isPrefixOf line then readFields event (line.drop 6) lines
    else if (text "data:").isPrefixOf line then readFields event (Ecma.trimStart (line.drop 5)) lines
    else readFields event data lines

def parseSseFrame (raw : Text) : Option SseFrame :=
  let (event, data) := readFields [] [] (Split.split newline (Ecma.trim raw))
  if data = [] then none
  else
    match parseJson data with
    | none | some .null | some .scalar => none
    | some data => some { event, data }

inductive Handled where
  | catchUp
  | sessionRevoked (sessionId reason : Option Text)
deriving DecidableEq, Repr

/-- A text that is not empty. -/
def readString : Option Value → Option Text
  | some (.string s) => if s = [] then none else some s
  | _ => none

/-- What the extension does about a frame. -/
def handleSyncSseFrame (frame : SseFrame) : Option Handled :=
  let payload := frame.data.payload
  if frame.event = text "connected" ∨ isText (property payload "type") "connected" then none
  else if frame.event = text "sync" then some .catchUp
  else if frame.event = text "session_revoked" then
    some (.sessionRevoked
      ((readString (property payload "session_id")).or (readString (property payload "sessionId")))
      (readString (property payload "reason")))
  else none

/-- The frames that the handler gets of a stream that comes in chunks. -/
def readExtensionStream (chunks : List (List UInt8)) : List SseFrame :=
  (Split.reads twoNewlines [] (Ecma.TextDecoder.initial.decodes chunks)).filterMap (parseSseFrame parseJson)

end Bittery.SyncStream
