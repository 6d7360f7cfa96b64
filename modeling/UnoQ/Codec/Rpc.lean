import UnoQ.Codec.Msgpack

/-!
# MessagePack-RPC messages

The message shapes of `codec.ts`. The first element of a message array is its type:
a request expects a response with the same `msgid`, a notification expects nothing.
-/

namespace UnoQ.Codec
open BigEndian

def MSG_REQUEST : ℕ := 0
def MSG_RESPONSE : ℕ := 1
def MSG_NOTIFY : ℕ := 2

def request (msgid : ℕ) (method : String) (params : List JsValue) : JsValue :=
  .arr [.nat MSG_REQUEST, .nat msgid, .str method, .arr params]

/-- A response is `[1, msgid, error, result]`; the id of an inbound request is whatever value came
with it. -/
def response (msgid error result : JsValue) : JsValue :=
  .arr [.nat MSG_RESPONSE, msgid, error, result]

def notification (method : String) (params : List JsValue) : JsValue :=
  .arr [.nat MSG_NOTIFY, .str method, .arr params]

def encodeRequest (mp : Msgpack) (msgid : ℕ) (method : String) (params : List JsValue) : Option Bytes :=
  mp.encode (request msgid method params)

def encodeResponse (mp : Msgpack) (msgid error result : JsValue) : Option Bytes :=
  mp.encode (response msgid error result)

def encodeNotify (mp : Msgpack) (method : String) (params : List JsValue) : Option Bytes :=
  mp.encode (notification method params)

end UnoQ.Codec
