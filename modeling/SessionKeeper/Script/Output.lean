import SessionKeeper.Keyserver.Message

/-!
# What a script shows

Everything a script does that can be watched apart from its files: what it prints,
what it logs, the requests it sends and the calls it makes to its OAuth client.

A log record is its level, the part of the program that wrote it and its message, which are all that
is printed of it. The further fields that the program attaches to its records (handles, subjects,
keys, paths, process ids, errors) are left out, and so is what a handler of its own would do with
them.
-/
namespace SessionKeeper

/-- How serious a log record is. -/
inductive Level where
  | debug
  | info
  | warning
  | error
  | critical
deriving DecidableEq, Repr

namespace Level

def rank : Level → Nat
  | .debug => 10
  | .info => 20
  | .warning => 30
  | .error => 40
  | .critical => 50

def name : Level → String
  | .debug => "DEBUG"
  | .info => "INFO"
  | .warning => "WARNING"
  | .error => "ERROR"
  | .critical => "CRITICAL"

def all : List Level := [.debug, .info, .warning, .error, .critical]

def ofName? (name : String) : Option Level := all.find? fun level => level.name = name

end Level

/-- The part of the program that writes a log record. -/
inductive Channel where
  | records
  | lock
  | vault
  | keyserver
  | session
  | sync
  | dotenv
deriving DecidableEq, Repr

/-- The name under which a part of the program logs. -/
def Channel.name : Channel → String
  | .records => "roomy_cli.storage.records"
  | .lock => "roomy_cli.storage.lock"
  | .vault => "roomy_cli.storage.vault"
  | .keyserver => "roomy_cli.auth.keyserver"
  | .session => "roomy_cli.auth.session"
  | .sync => "roomy_cli.sync"
  | .dotenv => "dotenv.main"

structure LogRecord where
  level : Level
  channel : Channel
  message : String
deriving DecidableEq, Repr

/-- One thing that a script shows. -/
inductive Output where
  | log (record : LogRecord)
  | threshold (level : Level)
  | print (text : Text)
  | printError (text : Text)
  | request (request : Keyserver.Request)
  | clientCall (words : List Text)
deriving DecidableEq, Repr

namespace Output

def record? : Output → Option LogRecord
  | .log record => some record
  | _ => none

def request? : Output → Option Keyserver.Request
  | .request sent => some sent
  | _ => none

def call? : Output → Option (List Text)
  | .clientCall words => some words
  | _ => none

end Output

/-- What a log record looks like on the error stream: a bare message until a threshold has
been set, and only from a warning on; a full line with the time from the threshold on
afterwards. -/
def LogRecord.shown (record : LogRecord) (time : Text) : Option Level → Text
  | none => if Level.warning.rank ≤ record.level.rank then record.message ++ "\n" else []
  | some threshold =>
    if threshold.rank ≤ record.level.rank then
      Text.ofString "[" ++ time ++ "] [" ++ record.level.name ++ "] " ++ record.channel.name ++
        ": " ++ record.message ++ "\n"
    else []

def printed (outputs : List Output) : Text :=
  outputs.flatMap fun
    | .print text => text
    | _ => []

/-- What stands on the error stream when all records carry the same time, given the threshold
of logging so far. -/
def printedErrors (time : Text) (threshold : Option Level) : List Output → Text
  | [] => []
  | .threshold level :: rest => printedErrors time (some level) rest
  | .log record :: rest => record.shown time threshold ++ printedErrors time threshold rest
  | .printError text :: rest => text ++ printedErrors time threshold rest
  | _ :: rest => printedErrors time threshold rest

end SessionKeeper
