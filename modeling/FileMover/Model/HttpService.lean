import FileMover.Model.Codec
import FileMover.Model.Http

/-!
# One connection

`serve_connection` from the first byte of a connection to the point where the
reply is known. The client is a stream of bytes and a way of cutting it: every
`recv` hands over at least one byte and at most the capacity asked for, and when
the stream is used up the client has closed or gone silent, which the loop does
not tell apart.
-/

namespace FileMover.Http

structure ServiceOptions where
  maxHeadBytes : Nat := 8 * 1024
  maxBodyBytes : Nat := 64 * 1024
deriving DecidableEq, Repr

/-- What is left of the stream, and how much each further `recv` hands over. -/
structure Wire where
  rest : Bytes
  cut : Nat → Nat

/-- `read_some`; `none` is every result but `Ok`. -/
def readSome (capacity : Nat) (wire : Wire) : Option (Bytes × Wire) :=
  if capacity = 0 ∨ wire.rest = [] then none
  else
    let size := max 1 (min (wire.cut 0) capacity)
    some (wire.rest.take size, ⟨wire.rest.drop size, fun k => wire.cut (k + 1)⟩)

def refusal (status : Nat) (message : Bytes) : Response :=
  { status := status, body := encodeError message }

/-- How a connection ends: without a reply, with a refusal, or with the request
that goes to `route_request`. -/
inductive Served
  | silent
  | refused (response : Response)
  | routed (request : Request)
deriving DecidableEq, Repr

/-- The loop over the head: the buffer, what was parsed and the rest of the wire
once the head is complete, or how the connection ends. Every round but the last
takes a byte off the wire, so the bytes of the wire bound the rounds. -/
def headLoop (options : ServiceOptions) :
    Nat → Bytes → HeadOut → Wire → Except Served (Bytes × HeadOut × Wire)
  | rounds, buffer, out, wire =>
      match parseRequestHead buffer options.maxHeadBytes out with
      | (.ok, out) => .ok (buffer, out, wire)
      | (.bad, out) => .error (.refused (refusal 400 out.error))
      | (.tooLarge, _) =>
          .error (.refused (refusal 431 (lit "request head exceeds the permitted size")))
      | (.needMore, out) =>
          match rounds, readSome 2048 wire with
          | rounds + 1, some (chunk, wire) => headLoop options rounds (buffer ++ chunk) out wire
          | _, _ => .error .silent

/-- The loop over the body, which reads exactly `remaining` further bytes. -/
def bodyLoop : Nat → Nat → Bytes → Wire → Except Served Bytes
  | _, 0, buffer, _ => .ok buffer
  | rounds, remaining + 1, buffer, wire =>
      match rounds, readSome (min (remaining + 1) 4096) wire with
      | rounds + 1, some (chunk, wire) =>
          bodyLoop rounds (remaining + 1 - chunk.length) (buffer ++ chunk) wire
      | _, _ =>
          .error (.refused (refusal 400 (lit "body shorter than the declared length")))

/-- `serve_connection` after the head. -/
def serveBody (options : ServiceOptions) (buffer : Bytes) (out : HeadOut) (wire : Wire) : Served :=
  match contentLengthFor out.request options.maxBodyBytes with
  | .error (status, error) => .refused (refusal status error)
  | .ok declared =>
      let arrived := buffer.length - out.headLen
      if arrived > declared then
        .refused (refusal 400 (lit "unexpected bytes after the declared body"))
      else
        match bodyLoop (declared - arrived) (declared - arrived) buffer wire with
        | .error served => served
        | .ok buffer =>
            .routed { out.request with body := (buffer.drop out.headLen).take declared }

def serveConnection (options : ServiceOptions) (wire : Wire) : Served :=
  match headLoop options wire.rest.length [] {} wire with
  | .error served => served
  | .ok (buffer, out, wire) => serveBody options buffer out wire

/-! ## The connection round by round

The same function as a machine that takes one round of a loop at a time and keeps a
record of what it asks of the socket and of its unsigned subtractions. -/

/-- Where a connection ends, with the two lengths once they are known. -/
inductive Ending
  | silent
  | headRefused (response : Response)
  | lengthRefused (response : Response)
  | surplusRefused (response : Response)
  | bodyShort (response : Response) (headLen declared : Nat)
  | routed (request : Request) (headLen declared : Nat)
deriving DecidableEq, Repr

def Ending.served : Ending → Served
  | .silent => .silent
  | .headRefused response => .refused response
  | .lengthRefused response => .refused response
  | .surplusRefused response => .refused response
  | .bodyShort response _ _ => .refused response
  | .routed request _ _ => .routed request

inductive Phase
  | head (out : HeadOut)
  | body (out : HeadOut) (declared remaining : Nat)
  | over (ending : Ending)
deriving DecidableEq, Repr

/-- A call of `read_some`: its capacity, and how many bytes of head and declared body
had not been read by then, if the head was complete. -/
structure Ask where
  missing : Option Nat
  capacity : Nat
deriving DecidableEq, Repr

structure Serving where
  wire : Wire
  buffer : Bytes := []
  phase : Phase := .head {}
  /-- `g_bytes_read` -/
  bytesRead : Nat := 0
  asked : List Ask := []
  /-- Minuend and subtrahend of every unsigned subtraction. -/
  subtractions : List (Nat × Nat) := []

namespace Serving

def ends (c : Serving) (ending : Ending) : Serving := { c with phase := .over ending }

/-- `read_some` is called, whatever it will yield. -/
def ask (c : Serving) (missing : Option Nat) (capacity : Nat) : Serving :=
  { c with asked := ⟨missing, capacity⟩ :: c.asked }

@[simp] theorem wire_ask (c : Serving) (missing : Option Nat) (capacity : Nat) :
    (c.ask missing capacity).wire = c.wire := rfl

/-- A chunk arrives. -/
def receive (c : Serving) (chunk : Bytes) (wire : Wire) : Serving :=
  { c with
    wire := wire
    buffer := c.buffer ++ chunk
    bytesRead := c.bytesRead + chunk.length }

def subtract (c : Serving) (a b : Nat) : Serving :=
  { c with subtractions := (a, b) :: c.subtractions }

/-- From the complete head to the first round of the body loop. -/
def declare (options : ServiceOptions) (c : Serving) (out : HeadOut) : Serving :=
  match contentLengthFor out.request options.maxBodyBytes with
  | .error (status, error) => c.ends (.lengthRefused (refusal status error))
  | .ok declared =>
      let arrived := c.buffer.length - out.headLen
      let c := c.subtract c.buffer.length out.headLen
      if arrived > declared then
        c.ends (.surplusRefused (refusal 400 (lit "unexpected bytes after the declared body")))
      else
        { c.subtract declared arrived with phase := .body out declared (declared - arrived) }

def headRound (options : ServiceOptions) (c : Serving) (out : HeadOut) : Serving :=
  match parseRequestHead c.buffer options.maxHeadBytes out with
  | (.ok, out) => c.declare options out
  | (.bad, out) => c.ends (.headRefused (refusal 400 out.error))
  | (.tooLarge, _) =>
      c.ends (.headRefused (refusal 431 (lit "request head exceeds the permitted size")))
  | (.needMore, out) =>
      let c := c.ask none 2048
      match readSome 2048 c.wire with
      | none => c.ends .silent
      | some (chunk, wire) => { c.receive chunk wire with phase := .head out }

def bodyRound (c : Serving) (out : HeadOut) (declared : Nat) : Nat → Serving
  | 0 =>
      c.ends (.routed { out.request with body := (c.buffer.drop out.headLen).take declared }
        out.headLen declared)
  | remaining + 1 =>
      let want := min (remaining + 1) 4096
      let c := c.ask (some (out.headLen + declared - c.bytesRead)) want
      match readSome want c.wire with
      | none =>
          c.ends (.bodyShort (refusal 400 (lit "body shorter than the declared length"))
            out.headLen declared)
      | some (chunk, wire) =>
          { (c.receive chunk wire).subtract (remaining + 1) chunk.length with
            phase := .body out declared (remaining + 1 - chunk.length) }

def step (options : ServiceOptions) (c : Serving) : Serving :=
  match c.phase with
  | .head out => c.headRound options out
  | .body out declared remaining => c.bodyRound out declared remaining
  | .over _ => c

end Serving

end FileMover.Http
