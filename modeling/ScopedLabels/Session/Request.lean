import ScopedLabels.CommandLine.Settings
import ScopedLabels.Contexts.Value
import ScopedLabels.Environment
import ScopedLabels.Label.Basic
import ScopedLabels.Metrics

/-!
# Requests — everything a caller can ask of the library

A caller works with objects under names of its own: environments, scopes, guards, leases, runners
and saved labels. A `Request` is one call. Values that a caller puts on a context stack are `Datum`s
or empty; a scope gets onto a stack only by being entered.
-/

namespace ScopedLabels.Session

/-- A value that a caller can put on a context stack. -/
inductive Datum
  | int (n : Int64)
  | bool (b : Bool)
  | text (t : Text)
deriving DecidableEq

namespace Datum

/-- The type of a datum. -/
def type : Datum → ValueType
  | .int _ => .int
  | .bool _ => .bool
  | .text _ => .text

/-- What a datum carries. -/
def data : (datum : Datum) → datum.type.Carrier
  | .int n => n
  | .bool b => b
  | .text t => t

/-- A datum as a context value; nothing is the empty value. -/
def value : Option Datum → Value
  | some datum => .of datum.type datum.data
  | none => .empty

end Datum

/-- A label given by the caller. -/
inductive LabelSource
  | literal (label : Label)
  /-- A label that an earlier request saved. -/
  | saved (name : Text)
deriving DecidableEq

/-- What an automatic label is asked for with. -/
inductive NameSource
  | fresh (name : Option Text)
  | label (source : LabelSource)
deriving DecidableEq

/-- Where an automatic label is asked for. -/
inductive Location
  /-- Below the innermost active scope of an environment. -/
  | current (environment : Text)
  /-- Below a scope that the caller holds. -/
  | below (scope : Text)
deriving DecidableEq

/-- What a scope is made from. -/
inductive ScopeSource
  | basename (environment : Text) (name : Text)
  | unnamed (environment : Text)
  | label (environment : Text) (source : LabelSource)
  | global (environment : Text)
  | existing (scope : Text)
deriving DecidableEq

/-- One call. The runner requests may name an environment whose active scopes are to be shown. -/
inductive Request
  -- environments
  | newEnvironment (name counters contexts : Text) (options : Options)
  | options (environment : Text) (change : Option Options)
  | resetEnvironment (environment : Text)
  | current (environment : Text)
  -- labels
  | makeLabel (name : NameSource) (location : Location) (save : Option Text)
  -- scopes
  | newScope (name : Text) (source : ScopeSource)
  | inspectScope (name : Text)
  | enterScope (name : Text)
  | exitScope (name : Text)
  | scopeName (name : Text)
  | nextSegment (name : Text)
  | nextNumber (name : Text)
  | checkScope (name : Text)
  | sameScope (name other : Text)
  | dropScope (name : Text)
  -- guards
  | newGuard (name scope : Text)
  | dropGuard (name : Text)
  -- runners
  | newRunner (name environment : Text)
  | runScript (name script : Text) (watch : Option Text)
  | closeRunner (name : Text) (watch : Option Text)
  | inspectRunner (name : Text) (watch : Option Text)
  | dropRunner (name : Text) (watch : Option Text)
  -- counters
  | drawCount (registry counter : Text)
  | readCount (registry counter : Text)
  | zeroCount (registry counter : Text)
  | clearCounts (registry : Text)
  | countersHeld (registry : Text)
  -- context stacks
  | push (stack key : Text) (datum : Option Datum)
  | pop (stack key : Text)
  | top (stack key : Text)
  | popAs (type : ValueType) (stack key : Text)
  | topAs (type : ValueType) (stack key : Text)
  | listing (stack key : Text)
  | stackSize (stack key : Text)
  | isEmpty (stack key : Text)
  | clearStack (stack : Text)
  | removeData (stack key : Text) (datum : Datum)
  | removeScope (stack key scope : Text)
  -- leases
  | newLease (name stack key : Text) (datum : Option Datum)
  | dropLease (name : Text)
  -- log
  | setThreshold (level : Level)
  | threshold
  | write (level : Level) (message : Text)
  | redirect (sink : Sink)
  -- metrics
  | countEvents (on : Bool)
  | tally
  | resetTally
  | countOne (metric : Metric)
  | setMetric (metric : Metric) (value : UInt64)
  | report (settings : CommandLine.Settings)
deriving DecidableEq

end ScopedLabels.Session
