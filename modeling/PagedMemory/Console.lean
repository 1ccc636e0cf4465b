import PagedMemory.Record

/-!
# The console

The console hands text to the sink that registered last. Text that is printed
goes there as it is, a log record only if the console's filter admits its level.
`written` keeps what was handed out, in order and with the sink it went to.
-/

namespace PagedMemory

structure Console (Sink : Type) where
  filter : LevelFilter
  sink : Sink
  written : List (Sink × String)

namespace Console

variable {Sink : Type}

/-- A console that has not written anything yet. -/
def start (filter : LevelFilter) (sink : Sink) : Console Sink :=
  ⟨filter, sink, []⟩

def setFilter (c : Console Sink) (filter : LevelFilter) : Console Sink :=
  { c with filter := filter }

def setSink (c : Console Sink) (sink : Sink) : Console Sink :=
  { c with sink := sink }

def print (c : Console Sink) (text : String) : Console Sink :=
  { c with written := c.written ++ [(c.sink, text)] }

def enabled (c : Console Sink) (level : Level) : Bool :=
  c.filter.admits level

def log (c : Console Sink) (r : Record) : Console Sink :=
  if c.enabled r.level then c.print (r.text ++ "\n") else c

/-- A console is installed once. A second attempt fails, but the filter it asked for
is in force by then. -/
def reinstall (c : Console Sink) (filter : LevelFilter) : Console Sink :=
  c.setFilter filter

/-- Everything one sink received, in order. -/
def receivedBy [DecidableEq Sink] (c : Console Sink) (sink : Sink) : String :=
  String.join ((c.written.filter fun entry => entry.1 = sink).map fun entry => entry.2)

end Console

end PagedMemory
