import AppServer.CpuTime

/-!
# Log messages

`LogItem`, `LogMessage` and the `log_messsage` macro (`logger.hpp`,
`logger.cpp`). A constructor that does not mention a member leaves in it
whatever the memory held, so the constructors below take that leftover value
of `when` as an argument: both `LogMessage(filename, function, line_no,
log_level)` and the hand-written copy constructor leave `when` out.
-/

namespace AppServer

namespace Logger

/-- `struct LogItem`. -/
structure LogItem where
  name : String
  data : String
  deriving DecidableEq, Repr

/-- `struct LogMessage`. -/
structure LogMessage where
  filename : String
  function : String
  line_no : ℤ
  log_level : ℤ
  when : Timespec
  items : List LogItem
  deriving DecidableEq, Repr

/-- `LOG_INFO`. -/
def LOG_INFO : ℤ := 3

namespace LogMessage

/-- `LogMessage(filename, function, line_no, log_level)`: `when` keeps what
the memory held. -/
def construct (filename function : String) (line_no log_level : ℤ) (leftover : Timespec) :
    LogMessage where
  filename := filename
  function := function
  line_no := line_no
  log_level := log_level
  when := leftover
  items := []

/-- The copy constructor: its initialiser list names every member but
`when`. -/
def copy (orig : LogMessage) (leftover : Timespec) : LogMessage where
  filename := orig.filename
  function := orig.function
  line_no := orig.line_no
  log_level := orig.log_level
  when := leftover
  items := orig.items

end LogMessage

/-- What a log call streams into its message. -/
inductive LogArg where
  | cstr (m : String)
  | int (m : ℤ)
  deriving DecidableEq, Repr

/-- The item an argument becomes: both overloads name it `msg`. -/
def LogArg.item : LogArg → LogItem
  | .cstr m => ⟨"msg", m⟩
  | .int m => ⟨"msg", toString m⟩

/-- `operator<<(LogMessage &, const char *)` and
`operator<<(LogMessage &, int)`. -/
def LogMessage.push (lm : LogMessage) (arg : LogArg) : LogMessage :=
  { lm with items := lm.items ++ [arg.item] }

/-- A use of one of the log macros: the place it stands at, its level, and
what it streams. -/
structure LogCall where
  filename : String
  function : String
  line_no : ℤ
  log_level : ℤ
  args : List LogArg
  deriving DecidableEq, Repr

namespace LogCall

/-- The items of the call. -/
def items (c : LogCall) : List LogItem := c.args.map LogArg.item

/-- `log_messsage`: construct `__real_s` and stream the arguments into it. -/
def message (c : LogCall) (leftover : Timespec) : LogMessage :=
  c.args.foldl LogMessage.push
    (LogMessage.construct c.filename c.function c.line_no c.log_level leftover)

end LogCall

/-- The log call `get_thread_logger` makes for a new thread, `pid` being what
`getpid()` returns. `__FILE__` is the path the compiler was given, here the
name alone, and `__PRETTY_FUNCTION__` is as clang writes it (g++ puts the `*`
first); nothing that is proved depends on how they are spelt. -/
def registrationCall (pid : ℤ) : LogCall where
  filename := "logger.cpp"
  function := "ThreadLogger *get_thread_logger()"
  line_no := 69
  log_level := LOG_INFO
  args := [.cstr "New logger for thread with pid ", .int pid, .cstr " started"]

/-- A message says what the call said, in everything but the time. -/
structure LogMessage.Carries (m : LogMessage) (c : LogCall) : Prop where
  filename : m.filename = c.filename
  function : m.function = c.function
  line_no : m.line_no = c.line_no
  log_level : m.log_level = c.log_level
  items : m.items = c.items

variable {m : LogMessage} {c : LogCall}

theorem LogMessage.foldl_push (args : List LogArg) (m : LogMessage) :
    args.foldl LogMessage.push m = { m with items := m.items ++ args.map LogArg.item } := by
  induction args generalizing m with
  | nil => simp
  | cons a args ih => rw [List.foldl_cons, ih]; simp [LogMessage.push]

/-- **The macro's message says what the call said.** -/
theorem LogCall.message_carries (c : LogCall) (leftover : Timespec) :
    (c.message leftover).Carries c := by
  rw [LogCall.message, LogMessage.foldl_push]
  exact ⟨rfl, rfl, rfl, rfl, by simp [LogMessage.construct, LogCall.items]⟩

/-- Stamping changes the time and nothing else. -/
theorem LogMessage.Carries.stamp (h : m.Carries c) (now : Timespec) :
    ({ m with when := now } : LogMessage).Carries c :=
  ⟨h.filename, h.function, h.line_no, h.log_level, h.items⟩

/-- **The copy says what the original said**: the time is the only member it
loses. -/
theorem LogMessage.Carries.copy (h : m.Carries c) (leftover : Timespec) :
    (m.copy leftover).Carries c :=
  ⟨h.filename, h.function, h.line_no, h.log_level, h.items⟩

end Logger

end AppServer
