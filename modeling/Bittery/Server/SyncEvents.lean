/-
The events of the sync stream as the server writes them: `sse_json_event`, `sse_heartbeat_event` and the payloads of
`domains/sync/sse.rs`, in the wire format of server-sent events.
-/
import Bittery.Lib.Utf8

namespace Bittery.SyncEvents

open Lib

abbrev Text := List Char

/-- A value in a payload. A number is one that a double holds. -/
inductive Value where
  | null
  | string (text : Text)
  | number (n : Int)
deriving DecidableEq, Repr

/-- A JSON object. -/
abbrev Payload := List (String × Value)

def text (s : String) : Text := s.toList

structure SseEvent where
  name : Text
  payload : Payload
deriving DecidableEq, Repr

def connectedEvent (userId connectionId : Text) (timestamp : Int) : SseEvent where
  name := text "connected"
  payload := [("type", .string (text "connected")), ("userId", .string userId), ("connectionId", .string connectionId),
    ("timestamp", .number timestamp)]

def limitExceededEvent (userId : Text) (planLimit timestamp : Int) : SseEvent where
  name := text "limit_exceeded"
  payload := [("type", .string (text "limit_exceeded")), ("userId", .string userId), ("limit", .number planLimit),
    ("timestamp", .number timestamp)]

def sessionRevokedEvent (sessionId : Text) (reason : Value) (timestamp : Int) : SseEvent where
  name := text "session_revoked"
  payload := [("session_id", .string sessionId), ("reason", reason), ("timestamp", .number timestamp)]

def syncEvent (timestamp : Int) : SseEvent where
  name := text "sync"
  payload := [("timestamp", .number timestamp)]

/-- What the server sends. -/
inductive Sent where
  | connected (userId connectionId : Text) (timestamp : Int)
  | limitExceeded (userId : Text) (planLimit timestamp : Int)
  | sessionRevoked (sessionId : Text) (reason : Option Text) (timestamp : Int)
  | sync (timestamp : Int)
  | heartbeat (timestamp : Int)
deriving DecidableEq, Repr

/-- The event of what is sent; a heartbeat is a comment. -/
def Sent.event : Sent → Option SseEvent
  | connected userId connectionId timestamp => some (connectedEvent userId connectionId timestamp)
  | limitExceeded userId planLimit timestamp => some (limitExceededEvent userId planLimit timestamp)
  | sessionRevoked sessionId reason timestamp =>
    some (sessionRevokedEvent sessionId (match reason with
      | none => .null
      | some reason => .string reason) timestamp)
  | sync timestamp => some (syncEvent timestamp)
  | heartbeat _ => none

/-- A field on a line of its own. -/
def field (name value : Text) : Text := name ++ text ": " ++ value ++ ['\n']

/-- The lines of an event and the blank one that ends it. -/
def sseJsonEvent (toJson : Payload → Text) (event : SseEvent) : Text :=
  field (text "event") event.name ++ field (text "data") (toJson event.payload) ++ ['\n']

def sseHeartbeatEvent (timestamp : Int) : Text :=
  field [] (text "heartbeat " ++ (toString timestamp).toList) ++ ['\n']

def Sent.wire (toJson : Payload → Text) : Sent → Text
  | heartbeat timestamp => sseHeartbeatEvent timestamp
  | connected userId connectionId timestamp => sseJsonEvent toJson (connectedEvent userId connectionId timestamp)
  | limitExceeded userId planLimit timestamp => sseJsonEvent toJson (limitExceededEvent userId planLimit timestamp)
  | sessionRevoked sessionId reason timestamp => sseJsonEvent toJson (sessionRevokedEvent sessionId (match reason with
      | none => .null
      | some reason => .string reason) timestamp)
  | sync timestamp => sseJsonEvent toJson (syncEvent timestamp)

/-- The bytes of a stream. -/
def streamBytes (toJson : Payload → Text) (sent : List Sent) : List UInt8 :=
  Utf8.encode (sent.flatMap (Sent.wire toJson))

end Bittery.SyncEvents
