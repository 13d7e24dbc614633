import FileMover.Model.HttpService
import FileMover.Model.Manager
import Mathlib.Data.List.TakeWhile

/-!
# The route table

`router.cpp`: which request becomes which command of the manager, and what the
answer of the manager becomes. A request makes at most one command, so a route is
a reply, or a command together with what is done with its answer.

The client speaks in absolute paths, the engine in a directory and an entry name.
`splitPath` is the one place where the former become the latter.
-/

namespace FileMover

/-- What follows the last slash. -/
def baseName (path : Bytes) : Bytes := (path.reverse.takeWhile (· ≠ slash)).reverse

/-- `split_path`; the last slash stands right before the base name. -/
def splitPath (path : Bytes) : Option (Bytes × Bytes) :=
  if path.head? ≠ some slash then none
  else if baseName path = [] then none
  else
    let slashAt := path.length - (baseName path).length - 1
    some (if slashAt = 0 then lit "/" else path.take slashAt, baseName path)

/-- The request of `POST /api/jobs` with these two paths. -/
def routedRequest (source dest : Bytes) : Option MoveRequest :=
  match splitPath source, splitPath dest with
  | some (sourceDir, sourceName), some (destDir, destName) =>
      some ⟨sourceDir, sourceName, destDir, destName⟩
  | _, _ => none

theorem slash_notMem_baseName (path : Bytes) : slash ∉ baseName path := by
  intro h
  have h' : slash ∈ path.reverse.takeWhile (· ≠ slash) := by
    simpa [baseName] using h
  have hne := List.mem_takeWhile_imp h'
  simp at hne

example : splitPath (lit "/d/..") = some (lit "/d", lit "..") := by decide

/-! ## Commands and their answers -/

inductive Command
  | submit (move : MoveRequest)
  | pause (id : Bytes)
  | resume (id : Bytes)
  | cancel (id : Bytes)
  | retry (id : Bytes)
deriving DecidableEq, Repr

/-- What a command returns: its result, the id of the job it made and its message. -/
structure CommandReply where
  result : CommandResult
  jobId : Bytes := []
  error : Bytes := []
deriving DecidableEq, Repr

def statusFor : CommandResult → Nat
  | .ok => 200
  | .unknownJob => 404
  | .invalidState => 409
  | .notRunning => 503
  | .storeError => 500

inductive Routed
  | reply (response : Http.Response)
  | command (command : Command) (answer : CommandReply → Http.Response)

def makeResponse (status : Nat) (body : Bytes) : Http.Response := { status := status, body := body }

def errorResponse (status : Nat) (message : Bytes) : Http.Response :=
  makeResponse status (encodeError message)

def methodNotAllowed (allow : Bytes) : Http.Response :=
  { errorResponse 405 (lit "method not allowed on this route") with allow := allow }

def statusOk : Bytes := lit "\x7b\"status\":\"ok\"\x7d"

/-- `"{\"job_id\":\"" + job_id + "\"}"`. -/
def jobIdBody (jobId : Bytes) : Bytes := lit "\x7b\"job_id\":\"" ++ jobId ++ lit "\"\x7d"

/-- The segments of `path_segments` before the query is cut off. -/
def segments (path : Bytes) : List Bytes := (path.splitOn slash).filter (· ≠ [])

def pathSegments (target : Bytes) : List Bytes := segments (target.takeWhile (· ≠ 0x3F))

/-- `POST /api/jobs`. -/
def routeSubmit (body : Bytes) : Routed :=
  match decodeSubmitRequest body with
  | .error message => .reply (errorResponse 400 message)
  | .ok submission =>
      match routedRequest submission.source submission.dest with
      | none =>
          .reply (errorResponse 400 (lit "source and dest must be absolute paths naming a file"))
      | some move =>
          .command (.submit move) fun reply =>
            if reply.result ≠ .ok then errorResponse (statusFor reply.result) reply.error
            else makeResponse 202 (jobIdBody reply.jobId)

/-- What becomes of the answer to an action on a job; `body` is what an action that
went through has to say. -/
def actionResponse (reply : CommandReply) (body : Bytes) : Http.Response :=
  if reply.result = .ok then
    makeResponse (statusFor reply.result) (if body = [] then statusOk else body)
  else errorResponse (statusFor reply.result) reply.error

/-- `POST /api/jobs/{id}/{action}`. -/
def routeAction (id action : Bytes) : Routed :=
  if id = [] then .reply (errorResponse 400 (lit "job id is empty"))
  else if action = lit "pause" then
    .command (.pause id) fun reply => actionResponse reply []
  else if action = lit "resume" then
    .command (.resume id) fun reply => actionResponse reply []
  else if action = lit "cancel" then
    .command (.cancel id) fun reply => actionResponse reply []
  else .command (.retry id) fun reply => actionResponse reply (jobIdBody reply.jobId)

def isAction (action : Bytes) : Bool :=
  action = lit "pause" || action = lit "resume" || action = lit "cancel" || action = lit "retry"

def noSuchRoute : Http.Response := errorResponse 404 (lit "no such route")

def routeRequest (request : Http.Request) : Routed :=
  match pathSegments request.target with
  | [one] =>
      if one = lit "healthz" then
        if request.method ≠ lit "GET" ∧ request.method ≠ lit "HEAD" then
          .reply (methodNotAllowed (lit "GET, HEAD"))
        else .reply (makeResponse 200 statusOk)
      else .reply noSuchRoute
  | [one, two] =>
      if one = lit "api" ∧ two = lit "jobs" then
        if request.method ≠ lit "POST" then .reply (methodNotAllowed (lit "POST"))
        else routeSubmit request.body
      else .reply noSuchRoute
  | [one, two, id, action] =>
      if one = lit "api" ∧ two = lit "jobs" then
        if isAction action = false then .reply noSuchRoute
        else if request.method ≠ lit "POST" then .reply (methodNotAllowed (lit "POST"))
        else routeAction id action
      else .reply noSuchRoute
  | _ => .reply noSuchRoute

/-- The command that a request makes, if it makes one. -/
def commandOf (request : Http.Request) : Option Command :=
  match routeRequest request with
  | .reply _ => none
  | .command command _ => some command

/-- `route_request` when the manager answers commands like this. -/
def respond (answers : Command → CommandReply) (request : Http.Request) : Http.Response :=
  match routeRequest request with
  | .reply response => response
  | .command command answer => answer (answers command)

end FileMover
