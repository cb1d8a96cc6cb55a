import DufsRam.StateStore.Operation

/-!
# The state actor and the holders of operations

Model of the actor loop (`state_store/actor.rs`, lines 74-137 and 352-386), of the two
channels to it (`state_store.rs`, lines 176-195 and 935-948), and of what becomes of an
operation between `begin_operation` and the end of its guard (`state_store.rs`, lines 410-464
and 613-674; `operation_registry.rs`, lines 175-203 and 453-493).

The actor takes one step for each access to a channel and for each transaction. A transaction
may fail, and then has no effect. A holder may be dropped at every `await`. The commands on the
other tables are one command without an effect here.
-/

namespace DufsRam.StateStore

/-- `ControlCommand` (`state_store.rs`, lines 405-408). -/
inductive ControlCommand where
  | abandon (key : OperationKey) (lease : Uuid)
  | shutdown
deriving DecidableEq

/-- `Command` (`state_store.rs`, lines 258-395). A request is known by a number, which stands
    for its reply channel. -/
inductive QueuedCommand where
  | wake
  | begin (request : ℕ) (key : OperationKey) (fingerprint : Digest)
  | status (key : OperationKey)
  | markCommitStarted (key : OperationKey) (lease : Uuid)
  | complete (request : ℕ) (key : OperationKey) (lease : Uuid) (outcome : StoredOutcome)
  | other
deriving DecidableEq

/-- One call of `OperationRegistry::begin` and the guard it returns. -/
inductive Holder where
  /-- In `receive`, with an open and empty reply channel. -/
  | waiting
  /-- The reply channel holds an envelope with an armed cleanup. -/
  | offered (key : OperationKey) (lease : Uuid)
  /-- The guard is alive; `completed` if its completion has been answered with success. -/
  | holding (key : OperationKey) (lease : Uuid) (completed : Bool)
  /-- An armed cleanup or a guard is being dropped and has not sent its message yet. -/
  | dropping (key : OperationKey) (lease : Uuid)
  | gone
deriving DecidableEq

/-- Where an abandonment comes from. -/
inductive AbandonOrigin where
  | deferred
  | control
  | undelivered
deriving DecidableEq

/-- The program points of the actor. -/
inductive ActorPhase where
  /-- At `retry_one_deferred_abandon`. -/
  | retry
  /-- In `abandon_operation`. -/
  | abandoning (key : OperationKey) (lease : Uuid) (origin : AbandonOrigin)
  /-- At `try_recv`. -/
  | drain
  /-- At `recv`. -/
  | receive
  | execute (command : QueuedCommand)
  /-- At `reply.send`, with the envelope; `none` for an error. -/
  | reply (request : ℕ) (key : OperationKey) (result : Option StoreBegin)
  | stopped
deriving DecidableEq

/-- Table, channels, actor and holders. A control message has a number; `wakers` are those
    whose sender has not yet tried to send its `Wake`. -/
structure ActorSystem where
  operations : Operations
  commands : List QueuedCommand
  controls : List (ℕ × ControlCommand)
  wakers : List ℕ
  nextMessage : ℕ
  deferred : List (OperationKey × Uuid)
  phase : ActorPhase
  holders : ℕ → Holder
  nextRequest : ℕ

namespace ActorSystem

variable (s : ActorSystem)

def setHolder (request : ℕ) (holder : Holder) : ActorSystem :=
  { s with holders := Function.update s.holders request holder }

/-- `try_send` on the queue of commands. -/
def trySend (capacity : ℕ) (command : QueuedCommand) : Option ActorSystem :=
  if s.commands.length < capacity then some { s with commands := s.commands ++ [command] } else none

/-- The first half of `send_control` (`state_store.rs`, lines 184-186). -/
def sendControl (control : ControlCommand) : ActorSystem :=
  { s with
    controls := s.controls ++ [(s.nextMessage, control)]
    wakers := s.nextMessage :: s.wakers
    nextMessage := s.nextMessage + 1 }

/-- The second half of `send_control` (lines 187-193). A full queue is as good as a `Wake`. -/
def sendWake (capacity : ℕ) (message : ℕ) : ActorSystem :=
  let s := { s with wakers := s.wakers.filter (· ≠ message) }
  (s.trySend capacity .wake).getD s

/-- `defer_abandon` (`actor.rs`, lines 368-376). -/
def deferAbandon (key : OperationKey) (lease : Uuid) : ActorSystem :=
  if (key, lease) ∈ s.deferred then s else { s with deferred := s.deferred ++ [(key, lease)] }

/-- What follows a failed abandonment (`actor.rs`, lines 128-133, 357-360 and 382-385). -/
def abandonFailed (key : OperationKey) (lease : Uuid) : AbandonOrigin → ActorSystem
  | .deferred => { s with deferred := s.deferred ++ [(key, lease)] }
  | .control | .undelivered => s.deferAbandon key lease

/-- Where the actor goes on after an abandonment. -/
def afterAbandon : AbandonOrigin → ActorPhase
  | .deferred | .control => .drain
  | .undelivered => .retry

/-- A transaction that may fail. -/
def transaction {α : Type} (fails : Bool) (result : Except String (α × Operations)) :
    Option (α × Operations) :=
  if fails then none else result.toOption

/-- `abandon_operation` and what follows it. -/
def finishAbandon (limits : Limits) (now : ℤ) (fails : Bool) (key : OperationKey) (lease : Uuid)
    (origin : AbandonOrigin) : ActorSystem :=
  let result := (abandonOperation limits now s.operations key lease).map fun ops => ((), ops)
  match transaction fails result with
  | some (_, ops) => { s with operations := ops, phase := afterAbandon origin }
  | none => { s.abandonFailed key lease origin with phase := afterAbandon origin }

/-- One command (`actor.rs`, lines 88-165). A `Begin` whose reply is closed does nothing. -/
def executeCommand (limits : Limits) (now : ℤ) (lease : Uuid) (fails : Bool) :
    QueuedCommand → ActorSystem
  | .wake | .other => { s with phase := .retry }
  | .begin request key fingerprint =>
    if s.holders request ≠ .waiting then { s with phase := .retry }
    else
      match transaction fails (beginOperation limits now lease s.operations key fingerprint) with
      | some (begin, ops) => { s with operations := ops, phase := .reply request key (some begin) }
      | none => { s with phase := .reply request key none }
  | .status key =>
    match transaction fails (operationStatus now s.operations key) with
    | some (_, ops) => { s with operations := ops, phase := .retry }
    | none => { s with phase := .retry }
  | .markCommitStarted key lease =>
    match transaction fails (.ok (markOperationCommitStarted now s.operations key lease)) with
    | some (_, ops) => { s with operations := ops, phase := .retry }
    | none => { s with phase := .retry }
  | .complete request key lease outcome =>
    match transaction fails (completeOperation limits now s.operations key lease outcome) with
    | some (changed, ops) =>
      let s := { s with operations := ops, phase := .retry }
      -- The guard learns of its completion if it still waits for the answer.
      if changed ∧ s.holders request = .holding key lease false then
        s.setHolder request (.holding key lease true)
      else s
    | none => { s with phase := .retry }

/-- `reply.send` and its failure (`actor.rs`, lines 118-136). -/
def sendReply (request : ℕ) (key : OperationKey) (result : Option StoreBegin) : ActorSystem :=
  match s.holders request, result with
  | .waiting, some (.started lease) =>
    { s with phase := .retry }.setHolder request (.offered key lease)
  | .waiting, _ => { s with phase := .retry }.setHolder request .gone
  | _, some (.started lease) => { s with phase := .abandoning key lease .undelivered }
  | _, _ => { s with phase := .retry }

/-- One step of the actor (`actor.rs`, lines 80-137 and 352-386). It is blocked at `recv` while
    the queue is empty. -/
def actorStep (limits : Limits) (now : ℤ) (lease : Uuid) (fails : Bool) : Option ActorSystem :=
  match s.phase with
  | .retry =>
    match s.deferred with
    | [] => some { s with phase := .drain }
    | (key, lease) :: rest =>
      some { s with deferred := rest, phase := .abandoning key lease .deferred }
  | .abandoning key lease origin => some (s.finishAbandon limits now fails key lease origin)
  | .drain =>
    match s.controls with
    | [] => some { s with phase := .receive }
    | (_, .abandon key lease) :: rest =>
      some { s with controls := rest, phase := .abandoning key lease .control }
    | (_, .shutdown) :: rest => some { s with controls := rest, phase := .stopped }
  | .receive =>
    match s.commands with
    | [] => none
    | command :: rest => some { s with commands := rest, phase := .execute command }
  | .execute command => some (s.executeCommand limits now lease fails command)
  | .reply request key result => some (s.sendReply request key result)
  | .stopped => none

end ActorSystem

/-- A step of the actor, or of somebody who uses it. -/
inductive ActorEvent where
  | actor (now : ℤ) (lease : Uuid) (fails : Bool)
  | begin (key : OperationKey) (fingerprint : Digest)
  | send (key : Option OperationKey)
  | receive (request : ℕ)
  | markCommitStarted (request : ℕ)
  | complete (request : ℕ) (outcome : StoredOutcome)
  | finish (request : ℕ)
  | drop (request : ℕ)
  | sendAbandon (request : ℕ)
  | shutdown
  | sendWake (message : ℕ)
deriving DecidableEq

namespace ActorSystem

variable (s : ActorSystem)

/-- Drop a future or a guard. Nothing is dropped between the receipt of an envelope and the
    construction of the guard, where there is no `await`. -/
def dropHolder (request : ℕ) : Option ActorSystem :=
  match s.holders request with
  | .waiting => some (s.setHolder request .gone)
  | .offered key lease | .holding key lease _ => some (s.setHolder request (.dropping key lease))
  | .dropping _ _ | .gone => none

def step (limits : Limits) (capacity : ℕ) : ActorEvent → Option ActorSystem
  | .actor now lease fails => s.actorStep limits now lease fails
  | .begin key fingerprint =>
    (s.trySend capacity (.begin s.nextRequest key fingerprint)).map fun s =>
      { s with nextRequest := s.nextRequest + 1 }.setHolder s.nextRequest .waiting
  | .send key =>
    s.trySend capacity (match key with
      | some key => .status key
      | none => .other)
  | .receive request =>
    match s.holders request with
    | .offered key lease => some (s.setHolder request (.holding key lease false))
    | _ => none
  | .markCommitStarted request =>
    match s.holders request with
    | .holding key lease false => s.trySend capacity (.markCommitStarted key lease)
    | _ => none
  | .complete request outcome =>
    match s.holders request with
    | .holding key lease false => s.trySend capacity (.complete request key lease outcome)
    | _ => none
  | .finish request =>
    match s.holders request with
    | .holding _ _ true => some (s.setHolder request .gone)
    | _ => none
  | .drop request => s.dropHolder request
  | .sendAbandon request =>
    match s.holders request with
    | .dropping key lease => some ((s.setHolder request .gone).sendControl (.abandon key lease))
    | _ => none
  | .shutdown => some (s.sendControl .shutdown)
  | .sendWake message => if message ∈ s.wakers then some (s.sendWake capacity message) else none

end ActorSystem

/-- The actor after its start, on the table that the recovery left (`actor.rs`, lines 34-71). -/
def actorMachine (limits : Limits) (capacity : ℕ) (operations : Operations) :
    Machine ActorSystem ActorEvent where
  init :=
    { operations := operations, commands := [], controls := [], wakers := [], nextMessage := 0,
      deferred := [], phase := .retry, holders := fun _ => .gone, nextRequest := 0 }
  step s e := s.step limits capacity e

end DufsRam.StateStore
