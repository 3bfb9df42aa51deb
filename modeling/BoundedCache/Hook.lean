import BoundedCache.Listener
import BoundedCache.Metrics
import BoundedCache.Statistics
import BoundedCache.Transaction

/-!
# Hooks

Hooks bracket every operation: each is called before the change, with the token of
the operation, and after it, with the outcome.  They run stage by stage, in the
order of registration within a stage.  Statistics and listeners are hooks like
any other.

A hook may fail, by an error or by a panic; the failure is reported and changes
nothing else.  A hook may also call back into the cache that called it.  Such
calls are commands, and who carries them out is left to the cache: this module
only collects them.  What a hook does next cannot depend on what its commands
answer, and loads are not among them.

The ledger holds what hooks leave behind: the statistics, the metrics, and the
trace of all calls.
-/

namespace BoundedCache

/-- The stages of the chain.  Statistics come first, so that whoever is told of an
event finds it counted. -/
inductive Stage where
  | statistics
  | event
  deriving DecidableEq, Repr, Inhabited

/-- The name of a stage. -/
def Stage.name : Stage → String
  | .statistics => "Statistics"
  | .event => "Event"

/-- What a hook asks the cache to do: to shut down, or any operation on the data that a user
may ask for.  A hook that asks for a load, or cancels loads, is beyond this. -/
inductive Command (K V : Type) where
  | shutDown
  | carryOut (errand : Errand K V) (huser : errand.ByUser)

namespace Command

variable {K V : Type}

/-- Remove everything. -/
def clear : Command K V := .carryOut .clear trivial

/-- Write a value. -/
def put (key : K) (value : V) : Command K V := .carryOut (.write key value {} .user) rfl

end Command

/-- What a hook is told on a call, and what it can see of the cache.  There is no
outcome yet on a call before the change. -/
structure HookCall (K V : Type) where
  token : Token
  outcome : Option (Outcome K V)
  /-- The number of hook calls made before. -/
  ordinal : Nat
  statistics : Statistics
  keys : List K

/-- What a hook writes down of a call. -/
inductive HookNote where
  /-- The operation, and the outcome if there is one. -/
  | call
  /-- The statistics and keys that it saw. -/
  | sight
  deriving DecidableEq, Repr

/-- How a hook fails. -/
inductive HookFailure where
  | error (cause : Cause)
  | panic (payload : Payload)

/-- What a hook does on a call. -/
structure HookReply (K V : Type) where
  notes : List HookNote := []
  commands : List (Command K V) := []
  failure : Option HookFailure := none

/-- What a hook does when it is called. -/
inductive Handler (K V : Type) where
  /-- Count the outcome. -/
  | statistics
  /-- Tell the events of the outcome. -/
  | listeners (listeners : List (Listener K V))
  /-- Follow a rule. -/
  | rule (reply : HookCall K V → HookReply K V)

/-- A hook with its name and stage. -/
structure Hook (K V : Type) where
  name : String
  stage : Stage
  handler : Handler K V

/-- What is written down while a cache runs. -/
inductive Note (K V : Type) where
  /-- A hook was called, and wrote down `notes` of it. -/
  | hookCalled (hook : String) (call : HookCall K V) (notes : List HookNote)
  | listenerCalled (call : ListenerCall K V)
  /-- The failure of a hook was handed to the error handler. -/
  | failureReported (error : CacheError)
  /-- The loader was called.  Whether a blocking one is forced it does not know. -/
  | loaderCalled (key : K) (forced : Option Bool) (attributes : Attributes)
  /-- A load passed the gate it was waiting at. -/
  | loadResumed (key : K)

/-- What hooks leave behind. -/
structure Ledger (K V : Type) where
  statistics : Statistics := {}
  metrics : Metrics := {}
  trace : List (Note K V) := []
  hookCalls : Nat := 0
  listenerCalls : Nat := 0

namespace Hook

variable {K V : Type}

/-- The hook that counts outcomes. -/
def statistics : Hook K V := ⟨"statistics", .statistics, .statistics⟩

/-- The hook that tells events to listeners. -/
def listeners (stage : Stage) (listeners : List (Listener K V)) : Hook K V :=
  ⟨"event", stage, .listeners listeners⟩

/-- The hook that writes down its calls. -/
def recorder (name : String) (stage : Stage) : Hook K V :=
  ⟨name, stage, .rule fun _ => { notes := [.call] }⟩

/-- The hook that writes down what it sees after a change. -/
def witness (name : String) (stage : Stage) : Hook K V :=
  ⟨name, stage, .rule fun call =>
    { notes := if call.outcome.isSome then [.sight] else [] }⟩

/-- Whether a call is about operation `on`, or about any if that is not given. -/
def concerns (on : Option Operation) (call : HookCall K V) : Bool :=
  match on with
  | none => true
  | some operation => call.token.operation = operation

/-- The hook that fails before a change, or after it. -/
def failing (name : String) (stage : Stage) (after : Bool) (on : Option Operation)
    (failure : HookFailure) : Hook K V :=
  ⟨name, stage, .rule fun call =>
    { failure := if call.outcome.isSome = after ∧ concerns on call then some failure else none }⟩

/-- The hook that asks the cache for something after a change. -/
def commanding (name : String) (stage : Stage) (on : Option Operation)
    (command : Operation → Command K V) : Hook K V :=
  ⟨name, stage, .rule fun call =>
    { commands :=
        if call.outcome.isSome ∧ concerns on call then [command call.token.operation] else [] }⟩

/-- Whether a hook never calls back into the cache. -/
def Quiet (h : Hook K V) : Prop :=
  match h.handler with
  | .rule reply => ∀ call, (reply call).commands = []
  | _ => True

end Hook

namespace Ledger

variable {K V : Type} [DecidableEq K]

/-- The ledger with one more note. -/
def note (l : Ledger K V) (n : Note K V) : Ledger K V := { l with trace := l.trace ++ [n] }

/-- The ledger after several calls of listeners. -/
def noteCalls (l : Ledger K V) (calls : List (ListenerCall K V)) : Ledger K V :=
  { l with
    trace := l.trace ++ calls.map .listenerCalled
    listenerCalls := l.listenerCalls + calls.length }

/-- The error that the failure of a hook is reported as. -/
def failureError (name : String) (operation : Operation) (failure : HookFailure) : CacheError :=
  let error : CacheError := match failure with
    | .error cause =>
        { kind := .hookFailed, message := "hook returned an error", source := some ⟨cause, 0⟩ }
    | .panic payload => { kind := .hookFailed, message := "hook panicked: " ++ payload.message }
  (error.withContext "hook" name).withContext "operation" operation.name

/-- Hand the failure of a hook to the error handler. -/
def report (l : Ledger K V) (hook : Hook K V) (token : Token) (failure : Option HookFailure) :
    Ledger K V :=
  match failure with
  | none => l
  | some failure =>
      { l with metrics := { l.metrics with hookFailure := l.metrics.hookFailure + 1 } }.note
        (.failureReported (failureError hook.name token.operation failure))

/-- What a hook is told. -/
def callOf (l : Ledger K V) (token : Token) (outcome : Option (Outcome K V)) (keys : List K) :
    HookCall K V :=
  ⟨token, outcome, l.hookCalls, l.statistics, keys⟩

/-- Call one hook.  The answer is what it asks for and how it failed; its commands
come before its failure is reported. -/
def call (l : Ledger K V) (hook : Hook K V) (token : Token) (outcome : Option (Outcome K V))
    (keys : List K) : (List (Command K V) × Option HookFailure) × Ledger K V :=
  let call := l.callOf token outcome keys
  let l := { l with hookCalls := l.hookCalls + 1 }
  match hook.handler, outcome with
  | .statistics, some outcome =>
      let l := l.note (.hookCalled hook.name call [])
      (([], none),
        { l with
          statistics := l.statistics.record outcome
          metrics := l.metrics.record token outcome })
  | .listeners listeners, some outcome =>
      let l := l.note (.hookCalled hook.name call [])
      let calls := ListenerCall.tellAll listeners outcome.events l.listenerCalls
      let fault := combineFaults (calls.filterMap ListenerCall.fault?)
      (([], fault.map fun fault => .error (.fault fault)), l.noteCalls calls)
  | .statistics, none | .listeners _, none =>
      (([], none), l.note (.hookCalled hook.name call []))
  | .rule reply, _ =>
      let reply := reply call
      ((reply.commands, reply.failure), l.note (.hookCalled hook.name call reply.notes))

end Ledger

/-- The hooks of a cache, in the order in which they are called. -/
structure HookChain (K V : Type) where
  hooks : List (Hook K V) := []

namespace HookChain

variable {K V : Type} [DecidableEq K]

/-- The chain of the given hooks: stage by stage, in the given order within one. -/
def ofHooks (hooks : List (Hook K V)) : HookChain K V :=
  ⟨hooks.filter (fun h => h.stage = .statistics) ++ hooks.filter (fun h => h.stage = .event)⟩

/-- Call every hook, for a ledger that belongs to no cache: commands come to
nothing. -/
def dispatch (c : HookChain K V) (l : Ledger K V) (token : Token)
    (outcome : Option (Outcome K V)) : Ledger K V :=
  c.hooks.foldl (fun l hook =>
    let ((_, failure), l) := l.call hook token outcome []
    l.report hook token failure) l

/-- The summary of a chain for debugging. -/
def summary (c : HookChain K V) : String :=
  let hooks := c.hooks.map fun h => "(" ++ h.stage.name ++ ", " ++ Text.quote h.name ++ ")"
  "HookChain \x7b hooks: [" ++ ", ".intercalate hooks ++ "] \x7d"

end HookChain

end BoundedCache
