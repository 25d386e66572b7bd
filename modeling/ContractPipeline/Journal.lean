/-! What a run leaves behind beside its result: log records, and the labels that handlers note. -/
namespace ContractPipeline

inductive Level
  | trace
  | debug
  | info
  | warn
  | error
  deriving DecidableEq, Repr

def Level.name : Level → String
  | .trace => "TRACE"
  | .debug => "DEBUG"
  | .info => "INFO"
  | .warn => "WARN"
  | .error => "ERROR"

structure LogRecord where
  level : Level
  text : String
  deriving DecidableEq, Repr

def LogRecord.line (record : LogRecord) : String :=
  record.level.name ++ " " ++ record.text

inductive Event
  | log (record : LogRecord)
  | note (label : String)
  deriving DecidableEq, Repr

namespace Event

def record? : Event → Option LogRecord
  | .log record => some record
  | .note _ => none

def label? : Event → Option String
  | .log _ => none
  | .note label => some label

end Event

/-- A value with the events that led to it, in order. -/
structure Recorded (α : Type) where
  value : α
  events : List Event
  deriving Repr

namespace Recorded

instance : Monad Recorded where
  pure value := ⟨value, []⟩
  bind x f := ⟨(f x.value).value, x.events ++ (f x.value).events⟩

def emit (event : Event) : Recorded Unit :=
  ⟨(), [event]⟩

def log (level : Level) (text : String) : Recorded Unit :=
  emit (.log ⟨level, text⟩)

def records {α : Type} (x : Recorded α) : List LogRecord :=
  x.events.filterMap Event.record?

def labels {α : Type} (x : Recorded α) : List String :=
  x.events.filterMap Event.label?

variable {α β : Type}

@[simp] theorem value_pure (a : α) : (pure a : Recorded α).value = a := rfl

@[simp] theorem events_pure (a : α) : (pure a : Recorded α).events = [] := rfl

@[simp] theorem value_bind (x : Recorded α) (f : α → Recorded β) :
    (x >>= f).value = (f x.value).value := rfl

@[simp] theorem events_bind (x : Recorded α) (f : α → Recorded β) :
    (x >>= f).events = x.events ++ (f x.value).events := rfl

@[simp] theorem value_map (f : α → β) (x : Recorded α) : (f <$> x).value = f x.value := rfl

instance : LawfulMonad Recorded :=
  LawfulMonad.mk' Recorded
    (fun x => by cases x; simp [Functor.map, List.append_nil])
    (fun a f => by simp [bind, pure])
    (fun x f g => by simp [bind, List.append_assoc])

end Recorded

end ContractPipeline
