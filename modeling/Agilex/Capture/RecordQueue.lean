import Agilex.Capture.Message
import Agilex.Lib.Machine

/-!
# The event queue of `record`

The threads of a recording: the subscriber callbacks, any number of them at once, and the main thread with its event
loop, the `finally` block, the validation and the renames. `step` performs the next step of one thread; what a thread
does to the state it shares with others (`state`, `state_lock`, `fatal`, `stop`, `events`) is one step for each access,
except inside `state_lock`.

The engine, the bag and the files enter as the ways they can fail: a step of the main thread comes with an `Env` that
holds the clock, an exception to raise, and whether the engine has emitted frames.
-/

namespace Agilex.Capture.RecordQueue

open Agilex.Lib

/-! ## Callbacks -/

/-- A message handed to `callback`, with the length it takes the size from. -/
inductive Payload where
  | image (dataLen : ℕ)
  | anyMsg (buffLen : ℕ)
  | other
  deriving DecidableEq, Repr

/-- `size` in `callback`. -/
def Payload.size : Payload → ℕ
  | .image n => n
  | .anyMsg n => n
  | .other => 4096

/-- The byte budget: 128 MiB. -/
def budget : ℤ := 128 * 1024 * 1024

/-- `maxsize` of the queue of events. -/
def capacity : ℕ := 512

/-- Where a call of `callback` stands. -/
inductive CallbackPc where
  | entered
  /-- Past the check of `accepting_images`; waits for the lock. -/
  | sized
  /-- In the lock: compares the budget. -/
  | budgeting
  /-- In the lock, over budget: `error` is set, `fatal` is not yet. -/
  | flagging
  /-- In the lock, over budget: leaves. -/
  | leaving
  /-- The bytes are counted; `put_nowait` is next. -/
  | reserved
  /-- `queue.Full`: waits for the lock. -/
  | full
  /-- In the lock: gives the bytes back and sets `error`. -/
  | returning
  /-- Out of the lock: `fatal.set()` is next. -/
  | raising
  | refused
  | discarded
  | put
  deriving DecidableEq, Repr

structure Callback where
  topic : Topic
  payload : Payload
  pc : CallbackPc := .entered
  deriving DecidableEq, Repr

/-- The topics of the two image streams. -/
def Topic.isImage : Topic → Bool
  | .image _ => true
  | _ => false

/-! ## The main thread -/

/-- Where the main thread stands. -/
inductive MainPc where
  /-- Reserves the path and opens the bag. -/
  | opening
  /-- Writes the session and makes the engine. -/
  | starting
  | startRaw
  | subscribing (rest : List Topic)
  /-- The top of the loop: the clock and `check_running`. -/
  | top
  | poll (now : ℚ)
  /-- ROS shutdown, duration, the start of the tail and its deadline. -/
  | tail (now : ℚ)
  | get (now : ℚ)
  /-- Has an event; waits for the lock. -/
  | taken (i : ℕ)
  /-- In the lock: takes the bytes off. -/
  | crediting (i : ℕ)
  | ingest (i : ℕ)
  /-- Disk, flush, timeouts, status. -/
  | housekeeping
  | closing
  | unregistering
  | stopRaw
  | emptying
  | ingestQueued (i : ℕ)
  | drainFinal
  | reporting
  | closeBag
  | validating
  | publishing
  | cleaning
  | writeReport
  | ended
  /-- An exception leaves `record` without a report. -/
  | crashed
  deriving DecidableEq, Repr

inductive Owner where
  | callback (i : ℕ)
  | main
  deriving DecidableEq, Repr

inductive Status where
  | incomplete
  | recorded
  | pass
  deriving DecidableEq, Repr

/-- What happens in a recording, as far as the overflow flag is concerned. -/
inductive Event where
  /-- A call of `callback` decides to discard its message. -/
  | discard (i : ℕ)
  /-- It has called `fatal.set()`. -/
  | flag (i : ℕ)
  /-- The main loop reads the flag. -/
  | poll
  /-- The recording fails for a reason of its own. -/
  | fail
  /-- The bag gets its final name. -/
  | rename
  deriving DecidableEq, Repr

structure St where
  callbacks : List Callback := []
  bytes : ℤ := 0
  /-- `state['error']`. -/
  queueError : Option String := none
  accepting : Bool := true
  lock : Option Owner := none
  fatal : Bool := false
  stop : Bool := false
  /-- The calls of `callback` whose events are queued. -/
  queue : List ℕ := []
  /-- Those whose bytes the main loop has taken off again. -/
  released : List ℕ := []
  /-- Those handed to the engine. -/
  handed : List ℕ := []
  subscribers : List Topic := []
  bag : Bool := false
  engine : Bool := false
  started : ℚ := 0
  deadline : Option ℚ := none
  error : Option String := none
  summary : Status := .incomplete
  /-- The status in the bag's report message. -/
  bagReport : Option Status := none
  /-- The final `.bag` exists. -/
  final : Bool := false
  /-- The status in the report file. -/
  report : Option Status := none
  main : MainPc := .opening
  history : List Event := []
  deriving DecidableEq, Repr

/-- A Python exception: its type, its text, and whether it is an `Exception`, not only a `BaseException`. -/
structure Exn where
  name : String
  text : String
  exception : Bool := true
  deriving DecidableEq, Repr

/-- What a step of the main thread meets: the clock, whether the engine has emitted frames, and an exception. -/
structure Env where
  now : ℚ := 0
  frames : Bool := true
  fail : Option Exn := none
  deriving DecidableEq, Repr

/-- The settings of a recording. -/
structure Settings where
  topics : List Topic
  duration : Option ℚ := none
  wait : ℚ

inductive Act where
  /-- A subscriber calls `callback`. -/
  | deliver (topic : Topic) (payload : Payload)
  /-- The next step of a call of `callback`. -/
  | callback (i : ℕ)
  /-- SIGINT or SIGTERM. -/
  | signal
  /-- The next step of the main thread. -/
  | main (env : Env)
  deriving DecidableEq, Repr

namespace St

def log (s : St) (e : Event) : St := { s with history := s.history ++ [e] }

/-- The truth value of `error`. -/
def failed (s : St) : Bool := s.error.any (· ≠ "")

/-- `error or text`. -/
def orError (s : St) (text : String) : St := { s with error := if s.failed then s.error else some text }

/-- The size counted for a call of `callback`. -/
def sizeOf (s : St) (i : ℕ) : ℤ := ((s.callbacks[i]?).map fun c => (c.payload.size : ℤ)).getD 0

def setCallback (s : St) (i : ℕ) (c : Callback) : St := { s with callbacks := s.callbacks.set i c }

/-! ### The steps of a callback -/

def callbackStep (s : St) (i : ℕ) (c : Callback) : Option St :=
  match c.pc with
  | .entered =>
    if Topic.isImage c.topic ∧ ¬s.accepting then some (s.setCallback i { c with pc := .refused })
    else some (s.setCallback i { c with pc := .sized })
  | .sized =>
    if s.lock = none then some { s.setCallback i { c with pc := .budgeting } with lock := some (.callback i) } else none
  | .budgeting =>
    if budget < s.bytes + c.payload.size then
      some ({ s.setCallback i { c with pc := .flagging } with
        queueError := some "Capture queue exceeded 128 MiB; disk/CPU cannot keep up" }.log (.discard i))
    else
      some { s.setCallback i { c with pc := .reserved } with bytes := s.bytes + c.payload.size, lock := none }
  | .flagging => some ({ s.setCallback i { c with pc := .leaving } with fatal := true }.log (.flag i))
  | .leaving => some { s.setCallback i { c with pc := .discarded } with lock := none }
  | .reserved =>
    if s.queue.length < capacity then some { s.setCallback i { c with pc := .put } with queue := s.queue ++ [i] }
    else some ((s.setCallback i { c with pc := .full }).log (.discard i))
  | .full =>
    if s.lock = none then some { s.setCallback i { c with pc := .returning } with lock := some (.callback i) } else none
  | .returning =>
    some { s.setCallback i { c with pc := .raising } with
      bytes := s.bytes - c.payload.size
      queueError := some "Capture event queue overflow; recording marked incomplete", lock := none }
  | .raising => some ({ s.setCallback i { c with pc := .discarded } with fatal := true }.log (.flag i))
  | .refused | .discarded | .put => none

/-! ### The steps of the main thread -/

/-- An exception in the first `try`: `error` is set, and the `finally` block begins. -/
def except (s : St) (name text : String) : St := { s with error := some (name ++ ": " ++ text), main := .closing }

/-- A step of the first `try`, from `s` to `next` unless it raises. -/
def trying (s : St) (env : Env) (next : St) : St :=
  match env.fail with
  | some x => (s.except x.name x.text).log .fail
  | none => next

/-- A step of the `try` in the `finally` block. -/
def finalizing (s : St) (env : Env) (next : St) : St :=
  match env.fail with
  | some x => ({ s.orError x.text with summary := .incomplete, main := .closeBag } : St).log .fail
  | none => next

/-- A step whose exception leaves `record`. -/
def leavingOn (s : St) (env : Env) (next : St) : St :=
  match env.fail with
  | some _ => ({ s with main := .crashed } : St).log .fail
  | none => next

/-- Entering the tail: `stop` is set and no deadline runs yet. -/
def enterTail (cfg : Settings) (now : ℚ) (s : St) : St :=
  let s := if cfg.duration.any (· ≤ now - s.started) then { s with stop := true } else s
  if s.stop ∧ s.deadline = none then { s with accepting := false, deadline := some (now + cfg.wait) } else s

def mainStep (cfg : Settings) (env : Env) (s : St) : Option St :=
  match s.main with
  | .opening => some ({ s with started := env.now }.trying env { s with started := env.now, bag := true, main := .starting })
  | .starting => some (s.trying env { s with engine := true, main := .startRaw })
  | .startRaw => some (s.trying env { s with main := .subscribing cfg.topics })
  | .subscribing [] => some { s with main := .top }
  | .subscribing (t :: rest) =>
    some (s.trying env { s with subscribers := s.subscribers ++ [t], main := .subscribing rest })
  | .top => some (s.trying env { s with main := .poll env.now })
  | .poll now =>
    let s := s.log .poll
    if s.fatal then some (s.except "RuntimeError" (s.queueError.getD "None")) else some { s with main := .tail now }
  | .tail now =>
    let t := s.enterTail cfg now
    some (s.trying env { t with main := if t.deadline.any (· ≤ now) then .closing else .get now })
  | .get _ =>
    match s.queue with
    -- `queue.Empty`: the engine drains
    | [] => some (s.trying env { s with main := .housekeeping })
    | i :: rest => some { s with queue := rest, main := .taken i }
  | .taken i => if s.lock = none then some { s with lock := some .main, main := .crediting i } else none
  | .crediting i =>
    some { s with
      bytes := s.bytes - s.sizeOf i, released := s.released ++ [i], lock := none, main := .ingest i }
  | .ingest i =>
    some ({ s with handed := s.handed ++ [i] }.trying env { s with handed := s.handed ++ [i], main := .housekeeping })
  | .housekeeping => some (s.trying env { s with main := .top })
  | .closing => some { s with accepting := false, main := .unregistering }
  | .unregistering =>
    match s.subscribers with
    | [] => some { s with main := .stopRaw }
    | _ :: rest => some (s.leavingOn env { s with subscribers := rest })
  | .stopRaw => some (s.finalizing env { s with main := if s.engine then .emptying else .reporting })
  | .emptying =>
    match s.queue with
    | [] => some { s with main := .drainFinal }
    | i :: rest =>
      if s.error = none then some { s with queue := rest, main := .ingestQueued i }
      else some { s with main := .drainFinal }
  | .ingestQueued i =>
    some ({ s with handed := s.handed ++ [i] }.finalizing env { s with handed := s.handed ++ [i], main := .emptying })
  | .drainFinal => some (s.finalizing env { s with main := .reporting })
  | .reporting =>
    let t := if ¬(s.engine ∧ env.frames) ∧ s.error = none then
      ({ s with error := some "No complete frames recorded" } : St).log .fail else s
    let status := if t.failed then .incomplete else .recorded
    some (t.finalizing env
      { t with summary := status, bagReport := if s.bag then some status else none, main := .closeBag })
  | .closeBag =>
    match if s.bag then env.fail else none with
    | some x =>
      if x.exception then some (({ s.orError x.text with main := .publishing } : St).log .fail)
      else some (({ s with main := .crashed } : St).log .fail)
    | none => some { s with main := if s.error = none then .validating else .publishing }
  | .validating =>
    match env.fail with
    | some x =>
      if x.exception then
        some (({ s with error := some ("Post-record validation failed: " ++ x.text), main := .publishing } : St).log .fail)
      else some (({ s with main := .crashed } : St).log .fail)
    | none => some { s with summary := .pass, main := .publishing }
  | .publishing =>
    if s.failed then some (s.leavingOn env { s with summary := .incomplete, main := .writeReport })
    -- `candidate` is unbound when `error` is the empty text of an exception
    else if s.error ≠ none then some (({ s with main := .crashed } : St).log .fail)
    else some (s.leavingOn env (({ s with final := true, main := .cleaning } : St).log .rename))
  | .cleaning => some (s.leavingOn env { s with main := .writeReport })
  | .writeReport => some (s.leavingOn env { s with report := some s.summary, main := .ended })
  | .ended | .crashed => none

end St

/-! ## Runs -/

def step (cfg : Settings) (a : Act) (s : St) : Option St :=
  match a with
  | .deliver topic payload =>
    if topic ∈ s.subscribers then some { s with callbacks := s.callbacks ++ [⟨topic, payload, .entered⟩] } else none
  | .callback i =>
    match s.callbacks[i]? with
    | some c => s.callbackStep i c
    | none => none
  | .signal => some { s with stop := true }
  | .main env => s.mainStep cfg env

def run (cfg : Settings) (l : List Act) : Option St := Machine.run (step cfg) l {}

end Agilex.Capture.RecordQueue
