/-!
# Log records

A record is one remark of the kernel about its work, with a level of urgency and
the part of the kernel that made it. A filter admits the records down to some
level, the most urgent first; it may also admit none.
-/

namespace PagedMemory

inductive Level
  | error
  | warn
  | info
  | debug
  | trace
deriving DecidableEq

namespace Level

/-- The position of the level, the most urgent being one. -/
def rank : Level → Nat
  | error => 1
  | warn => 2
  | info => 3
  | debug => 4
  | trace => 5

def text : Level → String
  | error => "ERROR"
  | warn => "WARN"
  | info => "INFO"
  | debug => "DEBUG"
  | trace => "TRACE"

def all : List Level :=
  [error, warn, info, debug, trace]

/-- The level of that name. -/
def ofText? (s : String) : Option Level :=
  all.find? fun level => level.text == s

end Level

/-- The least urgent level that is still admitted; `off` admits none. -/
inductive LevelFilter
  | off
  | upTo (level : Level)
deriving DecidableEq

namespace LevelFilter

def admits : LevelFilter → Level → Bool
  | off, _ => false
  | upTo least, level => level.rank ≤ least.rank

def text : LevelFilter → String
  | off => "OFF"
  | upTo level => level.text

def ofText? (s : String) : Option LevelFilter :=
  if s == "OFF" then some off else (Level.ofText? s).map upTo

end LevelFilter

structure Record where
  level : Level
  target : String
  message : String
deriving DecidableEq

/-- The record as one line of console text, without the line break. -/
def Record.text (r : Record) : String :=
  "[" ++ r.level.text ++ "] " ++ r.target ++ ": " ++ r.message

end PagedMemory
