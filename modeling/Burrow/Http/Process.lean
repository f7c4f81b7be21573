import Burrow.Frontend.Rounds
import Burrow.Http.Backend

/-!
# `burrow_backend_http_process`

The function that drives a transfer, over a libcurl that answers as it likes: what it
answers in one call is a `CurlAnswers`. What the parser returns for a response depends on
the command and on the memory there is, so each call has its own `parse`.

`httpStep` is the machine of the front end with this backend: the backend's code no
longer does anything at will, but what the functions of `curl_backend.c` do. A command
function either fails before it has set up a transfer, or it sets one up and goes on
with `burrow_backend_http_process`; a call of the latter is under way (`HttpCall`)
while it has descriptors watched and hands the response to the user's callbacks.
-/

set_option autoImplicit false

namespace Burrow.Http

open Burrow.Frontend

/-! ## libcurl -/

def CURLM_CALL_MULTI_PERFORM : Int := -1
def CURLM_OK : Int := 0
def CURLE_OK : Int := 0

/-- An answer of `curl_multi_perform`, with the data it hands to the write function. -/
structure Perform where
  code : Int
  runningHandles : Nat
  data : List UInt8
deriving DecidableEq, Repr

/-- An answer of `curl_multi_fdset`. -/
structure FdSets where
  read : Nat → Bool
  write : Nat → Bool
  maxFd : Int

/-- What libcurl answers in one call of `burrow_backend_http_process`: to
`curl_multi_perform`, to `curl_multi_info_read` until it has no message left, and to
`curl_multi_fdset`. -/
structure CurlAnswers where
  performs : List Perform
  results : List Int
  fdSets : FdSets

/-- `user_buffer_curl_write_function` -/
def receive (backend : BurrowBackend) (data : List UInt8) : BurrowBackend :=
  { backend with buffer := backend.buffer.map (· ++ data) }

/-- The loop around `curl_multi_perform`; `none` where it has not come to its end. -/
def multiPerform (backend : BurrowBackend) : List Perform → Option (Int × Nat × BurrowBackend)
  | [] => none
  | answer :: rest =>
      let backend := receive backend answer.data
      if answer.code = CURLM_CALL_MULTI_PERFORM then multiPerform backend rest
      else some (answer.code, answer.runningHandles, backend)

/-- What libcurl hands to the write function before that loop ends. -/
def delivered : List Perform → List UInt8
  | [] => []
  | answer :: rest =>
      if answer.code = CURLM_CALL_MULTI_PERFORM then answer.data ++ delivered rest
      else answer.data

/-- The loop around `curl_multi_info_read`: no transfer has failed. -/
def infoRead : List Int → Bool
  | [] => true
  | result :: rest => if result ≠ CURLE_OK then false else infoRead rest

/-- What libcurl waits for on a descriptor. -/
def FdSets.event (sets : FdSets) (i : Nat) : BurrowIoevent :=
  { read := sets.read i, write := sets.write i }

/-- The descriptors that `burrow_watch_fd` is called for, in order. -/
def FdSets.watched (sets : FdSets) : List (Int × BurrowIoevent) :=
  ((List.range (sets.maxFd + 1).toNat).filter fun i => sets.read i || sets.write i).map
    fun (i : Nat) => ((i : Int), sets.event i)

/-! ## The function -/

/-- What is done with a response. -/
inductive Handed where
  | nothing
  /-- to the message callback, as it is -/
  | message (body : List UInt8)
  /-- to the JSON parser -/
  | parser (text : List UInt8)
deriving DecidableEq, Repr

/-- The commands whose response is read. -/
def readsResponse : CommandName → Bool
  | .getMessages | .getMessage | .deleteMessages | .deleteMessage | .updateMessages
  | .updateMessage | .getAccounts | .getQueues => true
  | .createMessage | .deleteAccounts | .deleteQueues => false

/-- A call of `burrow_backend_http_process`: what it received, the number of running handles
that it saw, the results of the transfers, the command it found, what it does and its code. -/
structure HttpCall where
  received : List UInt8
  runningHandles : Nat
  results : List Int
  command : Option CommandName
  getBodyOnly : Bool
  response : List UInt8
  watched : List (Int × BurrowIoevent)
  handed : Handed
  code : Int
deriving DecidableEq, Repr

/-- The last part of `burrow_backend_http_process`: the response is there. -/
def handResponse (parse : List UInt8 → Int) (command : Option CommandName)
    (backend : BurrowBackend) : Except Fault (Handed × Int) :=
  if command.any readsResponse then
    match backend.buffer with
    | none => .error .nullDereference
    | some text =>
        if backend.getBodyOnly then .ok (.message text, 0)
        else if text.length > 0 then
          .ok (.parser text, if parse text > 0 then parse text else 0)
        else .ok (.nothing, 0)
  else .ok (.nothing, 0)

/-- `burrow_backend_http_process`, for the command in `burrow->cmd`. -/
def burrowBackendHttpProcess (parse : List UInt8 → Int) (answers : CurlAnswers)
    (command : Option CommandName) (backend : BurrowBackend) :
    Except Stop (HttpCall × BurrowBackend) :=
  match multiPerform backend answers.performs with
  | none => .error .notEnabled
  | some (retval, runningHandles, backend) =>
      let returns (watched : List (Int × BurrowIoevent)) (handed : Handed) (code : Int) :
          HttpCall × BurrowBackend :=
        ({ received := delivered answers.performs
           runningHandles := runningHandles
           results := answers.results
           command := command
           getBodyOnly := backend.getBodyOnly
           response := backend.buffer.getD []
           watched := watched
           handed := handed
           code := code }, backend)
      if retval ≠ CURLM_OK then .ok (returns [] .nothing EINVAL)
      -- the first transfer that failed ends the call
      else if infoRead answers.results = false then .ok (returns [] .nothing EINVAL)
      else if runningHandles > 0 then
        -- libcurl has no descriptor to wait for yet, and the call returns `0`
        if answers.fdSets.maxFd = -1 then .ok (returns [] .nothing 0)
        else .ok (returns answers.fdSets.watched .nothing EAGAIN)
      else
        match handResponse parse command backend with
        | .error fault => .error (.fault fault)
        | .ok (handed, code) => .ok (returns [] handed code)

/-! ## The machine -/

/-- The front end and this backend. While a call of `burrow_backend_http_process` is
under way, `watching` is what is left for `burrow_watch_fd`. -/
structure HttpConfig where
  front : Config
  backend : BurrowBackend
  call : Option HttpCall
  watching : List (Int × BurrowIoevent)

/-- `burrow_backend_http_functions` -/
def burrowBackendHttpFunctions : BackendFunctions :=
  { process := true, eventRaised := true, cancel := false }

def HttpConfig.create (memory : FrontCommand) (selfallocated watchFdFn : Bool)
    (backend : BurrowBackend) : HttpConfig :=
  { front := Config.create memory selfallocated burrowBackendHttpFunctions watchFdFn
    backend := backend
    call := none
    watching := [] }

inductive HttpLabel where
  /-- a step of the front end, the user or `poll`, or one that a call under way takes -/
  | front (label : Label)
  /-- the command function fails before it has set up a transfer -/
  | fail (code : Int)
  /-- the command function sets up a transfer, where the filters may ask for bodies
  only, and calls `burrow_backend_http_process` -/
  | transfer (detailBody : Bool) (answers : CurlAnswers) (parse : List UInt8 → Int)
  /-- `burrow_process` has called `burrow_backend_http_process` -/
  | resume (answers : CurlAnswers) (parse : List UInt8 → Int)

/-- What a command function does to the backend before the transfer starts. -/
def setUp (detailBody : Bool) (cmd : FrontCommand) (backend : BurrowBackend) : BurrowBackend :=
  match cmd.commandFn with
  | some .createMessage => { backend with buffer := some (cmd.body.take cmd.bodySize) }
  | some .getAccounts | some .getQueues | some .deleteAccounts | some .deleteQueues | none =>
      { backend with buffer := some [], getBodyOnly := false }
  | some .getMessages | some .getMessage | some .deleteMessages | some .deleteMessage
  | some .updateMessages | some .updateMessage =>
      { backend with buffer := some [], getBodyOnly := detailBody }

/-- What the command functions fail with. `burrow_backend_http_create_message` also returns
what `attr_str_len` held before, where the attributes make no string. -/
def failsWith (cmd : FrontCommand) (code : Int) : Prop :=
  code = ENOMEM ∨ cmd.commandFn = some .createMessage ∧ code ≠ 0

instance (cmd : FrontCommand) (code : Int) : Decidable (failsWith cmd code) :=
  inferInstanceAs (Decidable (_ ∨ _))

/-- A function of the backend has been called by `burrow_process`. -/
def HttpConfig.works (h : HttpConfig) : Bool :=
  decide (h.front.control = .environment) && h.front.stack.head?.any Frame.works

/-- The front end takes a step, and the call under way is what it was. -/
def HttpConfig.lift (h : HttpConfig) (label : Label) : Except Stop HttpConfig :=
  (frontStep label h.front).map fun front => { h with front := front }

/-- `burrow_backend_http_process` is called. -/
def HttpConfig.callProcess (h : HttpConfig) (parse : List UInt8 → Int) (answers : CurlAnswers)
    (backend : BurrowBackend) : Except Stop HttpConfig :=
  (burrowBackendHttpProcess parse answers h.front.burrow.cmd.command backend).map
    fun result =>
      { h with backend := result.2, call := some result.1, watching := result.1.watched }

/-- The call under way takes a step: it has a descriptor watched, or the user called
with a part of the response, or it returns. -/
def HttpConfig.callStep (h : HttpConfig) (label : Label) (call : HttpCall) :
    Except Stop HttpConfig :=
  match label with
  | .watchFd fd event _ =>
      match h.watching with
      | (fd', event') :: rest =>
          if fd = fd' ∧ event = event' then { h with watching := rest }.lift label
          else .error .notEnabled
      | [] => .error .notEnabled
  | .callback => if call.handed = .nothing then .error .notEnabled else h.lift label
  | .returns code =>
      if h.watching = [] ∧ code = call.code then { h with call := none }.lift label
      else .error .notEnabled
  | _ => .error .notEnabled

/-- One step of the machine. -/
def httpStep (label : HttpLabel) (h : HttpConfig) : Except Stop HttpConfig :=
  match label with
  | .front label =>
      if h.works then
        match h.call with
        | some call => h.callStep label call
        | none => .error .notEnabled
      else if h.front.stack.head?.any Frame.isEventRaised then
        -- `burrow_backend_http_event_raised` returns `0`
        match label with
        | .returns code => if code = 0 then h.lift label else .error .notEnabled
        | .watchFd .. | .callback => .error .notEnabled
        | _ => h.lift label
      else h.lift label
  | .fail code =>
      if h.works ∧ h.front.stack.head? = some .commandFn ∧ h.call = none ∧
          failsWith h.front.burrow.cmd code then
        h.lift (.returns code)
      else .error .notEnabled
  | .transfer detailBody answers parse =>
      if h.works ∧ h.front.stack.head? = some .commandFn ∧ h.call = none then
        h.callProcess parse answers (setUp detailBody h.front.burrow.cmd h.backend)
      else .error .notEnabled
  | .resume answers parse =>
      if h.works ∧ h.front.stack.head? = some .processFn ∧ h.call = none then
        h.callProcess parse answers h.backend
      else .error .notEnabled

/-! ## What is seen -/

inductive HttpEvent where
  | front (event : Event)
  /-- `burrow_backend_http_process` is called and finds this -/
  | performs (call : HttpCall)
deriving DecidableEq, Repr

def httpEvents (label : HttpLabel) (h : HttpConfig) : List HttpEvent :=
  match label with
  | .front label => (events label h.front).map .front
  | .fail code => (events (.returns code) h.front).map .front
  | .transfer _ _ _ | .resume _ _ =>
      match httpStep label h with
      | .ok h' => h'.call.toList.map .performs
      | .error _ => []

end Burrow.Http
