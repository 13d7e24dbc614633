import FileMover.Model.Router

/-!
# What is written to a connection

`server.cpp` answers a connection that finds no free handler itself, with fixed
bytes; every other reply is a response of `serve_connection`, serialized.
-/

namespace FileMover.Http

/-- `kServiceUnavailable`. -/
def kServiceUnavailable : Bytes :=
  lit "HTTP/1.1 503 Service Unavailable\r\n" ++
  lit "Content-Type: application/json\r\n" ++
  lit "Content-Length: 58\r\n" ++
  lit "Connection: close\r\n" ++
  lit "\r\n" ++
  lit "\x7b\"error\":\"all connection handlers are busy; retry shortly\"\x7d"

/-- A connection that came in: refused because no handler is idle, or handed to one. -/
inductive Connection
  | saturated
  | accepted (wire : Wire)

/-- The bytes that go out on a connection when the writes complete; a client that
never finishes its head gets none. -/
def replyBytes (options : ServiceOptions) (answers : Command → CommandReply) :
    Connection → Option Bytes
  | .saturated => some kServiceUnavailable
  | .accepted wire =>
      match serveConnection options wire with
      | .silent => none
      | .refused response => some (serializeResponse response)
      | .routed request => some (serializeResponse (respond answers request))

/-- The command that the request on a connection makes, if there is one. -/
def commandOn (options : ServiceOptions) : Connection → Option Command
  | .saturated => none
  | .accepted wire =>
      match serveConnection options wire with
      | .silent => none
      | .refused _ => none
      | .routed request => commandOf request

end FileMover.Http
