import RialtoOcdm.Concurrency.Prog

/-! `Logger.cpp`. A logger has one stream. A statement makes a `Flusher`, which writes a
heading to the stream, puts its texts there, and destroys the `Flusher`, which hands the
stream to the log if the severity is within the log level, and clears it. Nothing guards
the stream. -/

namespace RialtoOcdm

open Concurrency

inductive Severity
  | fatal
  | error
  | warn
  | mil
  | info
  | debug
  /-- A number from 6 on, which has no name. -/
  | unnamed (n : ℕ)
  deriving DecidableEq

namespace Severity

def value : Severity → ℕ
  | fatal => 0
  | error => 1
  | warn => 2
  | mil => 3
  | info => 4
  | debug => 5
  | unnamed n => 6 + n

def toString : Severity → String
  | fatal => "ftl"
  | error => "err"
  | warn => "wrn"
  | mil => "mil"
  | info => "inf"
  | debug => "dbg"
  | unnamed _ => "???"

end Severity

/-- The priorities of `syslog`. -/
inductive Priority
  | crit
  | err
  | warning
  | notice
  | info
  | debug
  deriving DecidableEq

def convertSeverity : Severity → Priority
  | .fatal => .crit
  | .error => .err
  | .warn => .warning
  | .mil => .notice
  | .info => .info
  | _ => .debug

/-- The environment variables, whether the log file is open, and what `put_time` makes of
the time. -/
structure Environment where
  rialtoDebug : Option String
  rialtoConsoleLog : Option String
  logFile : Bool
  now : String

namespace Environment

def getLogLevel (e : Environment) : Severity :=
  if e.rialtoDebug = some "0" then .fatal
  else if e.rialtoDebug = some "1" then .error
  else if e.rialtoDebug = some "2" then .warn
  else if e.rialtoDebug = some "3" then .mil
  else if e.rialtoDebug = some "4" then .info
  else if e.rialtoDebug = some "5" then .debug
  else .warn

def isConsoleLogEnabled (e : Environment) : Bool := e.rialtoConsoleLog = some "1"

end Environment

/-- Where a line goes. -/
inductive Sink
  | logFile
  | console
  | syslog (priority : Priority)
  deriving DecidableEq

/-- A line that was handed to a sink, and who wrote its pieces. -/
structure Line where
  sink : Sink
  pieces : List (ℕ × String)
  deriving DecidableEq

def Line.text (l : Line) : String := String.join (l.pieces.map (·.2))

/-- `log << severity << fragment << fragment ..` -/
structure Statement where
  severity : Severity
  fragments : List String

/-- What happened, for the record. Statements are numbered in the order in which they
write their headings. -/
inductive LogEvent
  | begins (n : ℕ) (statement : Statement) (heading : String)
  | writes (n : ℕ) (text : String)
  | flushes (n : ℕ) (severity : Severity) (environment : Environment)
  | clears (n : ℕ)

/-- The stream of a logger, the lines it has handed over, the last one first, and what
is around it. The code does not know who wrote a piece of the stream, how many statements
there were, or the journal. -/
structure Logging where
  environment : Environment
  stream : List (ℕ × String)
  lines : List Line
  begun : ℕ
  journal : List LogEvent

def Logging.start (environment : Environment) : Logging := ⟨environment, [], [], 0, []⟩

/-- Code that logs. There are no mutexes and no condition variables. -/
abbrev LogCode : Type → Type := Prog Logging Empty Empty

/-- A `Flusher`, with the number of its statement. -/
structure Flusher where
  number : ℕ
  severity : Severity

def heading (environment : Environment) (componentName : String) (severity : Severity) : String :=
  (if environment.logFile || environment.isConsoleLogEnabled then environment.now else "") ++
    "[" ++ componentName ++ "][" ++ severity.toString ++ "]: "

namespace Flusher

/-- The constructor of the flusher for a statement, which knows its severity only. -/
def construct (componentName : String) (statement : Statement) : LogCode Flusher :=
  .update fun w =>
    let text := heading w.environment componentName statement.severity
    (⟨w.begun + 1, statement.severity⟩, { w with
      stream := w.stream ++ [(w.begun + 1, text)]
      begun := w.begun + 1
      journal := .begins (w.begun + 1) statement text :: w.journal })

def append (f : Flusher) (text : String) : LogCode Unit :=
  .modify fun w => { w with
    stream := w.stream ++ [(f.number, text)]
    journal := .writes f.number text :: w.journal }

/-- The sink of the moment. -/
def sink (environment : Environment) (severity : Severity) : Sink :=
  if environment.logFile then .logFile
  else if environment.isConsoleLogEnabled then .console
  else .syslog (convertSeverity severity)

def flush (f : Flusher) : LogCode Unit :=
  .modify fun w => { w with
    lines := if f.severity.value ≤ w.environment.getLogLevel.value then
        ⟨sink w.environment f.severity, w.stream⟩ :: w.lines
      else w.lines
    journal := .flushes f.number f.severity w.environment :: w.journal }

def clear (f : Flusher) : LogCode Unit :=
  .modify fun w => { w with stream := [], journal := .clears f.number :: w.journal }

def destruct (f : Flusher) : LogCode Unit := do
  f.flush
  f.clear

end Flusher

/-- A statement, or something else that has to do with logs: variables are set, the log
file is opened or closed, time goes by. -/
inductive LogCall
  | log (statement : Statement)
  | change (environment : Environment)

namespace Logger

/-- A statement inside another one of the same thread is one of a thread of its own. -/
def log (componentName : String) (statement : Statement) : LogCode Unit := do
  let f ← Flusher.construct componentName statement
  statement.fragments.forM f.append
  f.destruct

def entry (componentName : String) : LogCall → LogCode Unit
  | .log statement => log componentName statement
  | .change environment => .modify fun w => { w with environment := environment }

end Logger

end RialtoOcdm
