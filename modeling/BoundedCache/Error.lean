import BoundedCache.Text.Quoted

/-!
# Errors

An error has a kind, a message, context pairs in the order in which they were
added, and perhaps a cause.  Copies of an error share their cause; `identity`
tells causes apart that read the same.

`Fault` is what goes wrong inside of a cache before it becomes an error: a
listener that panicked, a configuration that makes no sense, or several of these.
-/

namespace BoundedCache

/-- What kind of thing went wrong. -/
inductive ErrorKind where
  | loader
  | hookFailed
  | unavailable
  | cancelled
  | rejected
  | config
  | join
  deriving DecidableEq, Repr, Inhabited

namespace ErrorKind

/-- The words for a kind with which an error begins. -/
def text : ErrorKind → String
  | .loader => "Loader error"
  | .hookFailed => "Hook failed"
  | .unavailable => "Cache unavailable"
  | .cancelled => "Load cancelled"
  | .rejected => "Task rejected"
  | .config => "Config error"
  | .join => "Join error"

/-- The name of a kind. -/
def name : ErrorKind → String
  | .loader => "Loader"
  | .hookFailed => "HookFailed"
  | .unavailable => "Unavailable"
  | .cancelled => "Cancelled"
  | .rejected => "Rejected"
  | .config => "Config"
  | .join => "Join"

end ErrorKind

/-- What goes wrong inside of a cache. -/
inductive Fault where
  | config (text : String)
  | listenerPanic (text : String)
  | multiple (faults : List Fault)
  deriving Inhabited

namespace Fault

mutual

/-- The text of a fault. -/
def text : Fault → String
  | .config message => "config error: " ++ message
  | .listenerPanic message => "listener panicked: " ++ message
  | .multiple faults => "multiple errors: [" ++ texts faults ++ "]"

/-- The texts of several faults, with commas between them. -/
def texts : List Fault → String
  | [] => ""
  | [fault] => text fault
  | fault :: faults => text fault ++ ", " ++ texts faults

end

/-- The faults that this one is made of, if it is made of several. -/
def parts? : Fault → Option (List Fault)
  | .multiple faults => some faults
  | _ => none

/-- The kind of error that a fault becomes. -/
def kind : Fault → ErrorKind
  | .config _ => .config
  | .listenerPanic _ | .multiple _ => .hookFailed

end Fault

/-- The cause of an error: a message, a value of some error type, or a fault. -/
inductive Cause where
  | message (shown : String)
  | typed (typeName : String) (shown : String)
  | fault (fault : Fault)
  deriving Inhabited

namespace Cause

/-- The text of a cause. -/
def text : Cause → String
  | .message shown | .typed _ shown => shown
  | .fault f => f.text

/-- Whether the cause is a value of the named error type. -/
def isTyped (typeName : String) : Cause → Bool
  | .typed name _ => name == typeName
  | _ => false

/-- Whether the cause is a fault. -/
def isFault : Cause → Bool
  | .fault _ => true
  | _ => false

end Cause

/-- A cause with its identity. -/
structure ErrorSource where
  cause : Cause
  identity : Nat := 0
  deriving Inhabited

/-- An error of the cache. -/
structure CacheError where
  kind : ErrorKind
  message : String
  context : List (String × String) := []
  source : Option ErrorSource := none
  deriving Inhabited

namespace CacheError

/-- The error with one more context pair. -/
def withContext (e : CacheError) (name value : String) : CacheError :=
  { e with context := e.context ++ [(name, value)] }

/-- The error on one line: kind, context, message and cause, as far as there is
any. -/
def text (e : CacheError) : String :=
  let context :=
    if e.context.isEmpty then ""
    else ", context: \x7b " ++
      ", ".intercalate (e.context.map fun (name, value) => name ++ ": " ++ value) ++ " \x7d"
  let message := if e.message.isEmpty then "" else " => " ++ e.message
  let source := match e.source with
    | none => ""
    | some source => ", source: " ++ source.cause.text
  e.kind.text ++ context ++ message ++ source

/-- The summary of an error for debugging. -/
def summary (e : CacheError) : String :=
  let context := e.context.map fun (name, value) =>
    "(" ++ Text.quote name ++ ", " ++ Text.quote value ++ ")"
  let source := match e.source with
    | none => "None"
    | some source => "Some(" ++ source.cause.text ++ ")"
  "Error \x7b kind: " ++ e.kind.name ++ ", message: " ++ Text.quote e.message ++
    ", context: [" ++ ", ".intercalate context ++ "], source: " ++ source ++ " \x7d"

/-- Whether two errors share their cause. -/
def sameSource (a b : CacheError) : Bool :=
  match a.source, b.source with
  | some x, some y => x.identity == y.identity
  | _, _ => false

/-- The cache does not take work in this state. -/
def unavailable (state : String) : CacheError where
  kind := .unavailable
  message := "cache is not available"
  context := [("state", state)]

/-- The loader failed. -/
def loader (source : ErrorSource) : CacheError :=
  { kind := .loader, message := "load failed", source := some source }

/-- The load was cancelled. -/
def cancelled : CacheError := { kind := .cancelled, message := "load cancelled" }

/-- The task of a load was dropped before it ran. -/
def dropped : CacheError := { kind := .rejected, message := "load task dropped before it started" }

/-- The executor takes no more work. -/
def exhausted : CacheError := { kind := .rejected, message := "pool exhausted" }

/-- A blocking job was dropped before it answered. -/
def jobDropped : CacheError where
  kind := .join
  message := "blocking task dropped"
  source := some ⟨.message "channel closed", 0⟩

/-- The cache has nothing to load from. -/
def noLoader (cache : String) : CacheError where
  kind := .config
  message := "no loader configured"
  context := [("cache", cache)]

/-- Nothing is there to run tasks on. -/
def noExecutor : CacheError where
  kind := .config
  message := "no tokio runtime available"
  source := some ⟨.message
    "there is no reactor running, must be called from the context of a Tokio 1.x runtime", 0⟩

/-- The error that a fault becomes. -/
def ofFault (fault : Fault) (identity : Nat) : CacheError :=
  { kind := fault.kind, message := "", source := some ⟨.fault fault, identity⟩ }

end CacheError

end BoundedCache
