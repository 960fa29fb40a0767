/-!
# Kinds of completion

How the value of an option or a positional argument is completed.
-/

namespace ShellCompletion

/-- Fixed candidates. -/
inductive Choices where
  /-- Candidates without descriptions. -/
  | plain (values : List String)
  /-- Candidates with a description each. -/
  | described (items : List (String × String))
deriving Repr, DecidableEq, Inhabited

namespace Choices

/-- The candidates without their descriptions. -/
def values : Choices → List String
  | plain values => values
  | described items => items.map (·.1)

/-- Whether the candidates have descriptions. -/
def isDescribed : Choices → Bool
  | plain _ => false
  | described _ => true

end Choices

/-- How a value is completed. -/
inductive Completion where
  /-- Not at all. -/
  | none
  /-- By fixed candidates. -/
  | choices (choices : Choices)
  /-- By files, below a directory if one is given. -/
  | file (directory : Option String)
  /-- By directories, below a directory if one is given. -/
  | directory (directory : Option String)
  /-- By the integers from `start` to `stop` in steps. -/
  | range (start stop step : Int64)
  /-- By the lines that a command prints, each with a description after a tab if it
  has one. -/
  | exec (command : String)
  /-- By a list of values with a separator between them. -/
  | valueList (separator : String) (values : List String)
  /-- By signal names with a common beginning such as `SIG`. -/
  | signal (start : String)
  /-- By names of commands. -/
  | command
  /-- By names of hosts. -/
  | hostname
  /-- By names of processes. -/
  | process
  /-- By process numbers. -/
  | pid
  /-- By names of users. -/
  | user
  /-- By names of groups. -/
  | group
  /-- By names of services. -/
  | service
  /-- By names of shell variables. -/
  | shellVariable
deriving Repr, DecidableEq, Inhabited

namespace Completion

/-- The name of the kind of completion. -/
def kind : Completion → String
  | none => "none"
  | choices _ => "choices"
  | file _ => "file"
  | directory _ => "directory"
  | range _ _ _ => "range"
  | exec _ => "exec"
  | valueList _ _ => "value_list"
  | signal _ => "signal"
  | command => "command"
  | hostname => "hostname"
  | process => "process"
  | pid => "pid"
  | user => "user"
  | group => "group"
  | service => "service"
  | shellVariable => "variable"

/-- Whether nothing is completed. -/
def isNone : Completion → Bool
  | none => true
  | _ => false

/-- The integers from `start` to `stop` in steps of one. -/
def unitRange (start stop : Int64) : Completion :=
  range start stop 1

/-- The kinds that have no parameters. -/
def withoutParameters : List Completion :=
  [none, command, hostname, process, pid, user, group, service, shellVariable]

end Completion

/-- The signals that the signal kind offers, with their descriptions. -/
def signalNames : List (String × String) := [
  ("ABRT", "Process abort signal"),
  ("ALRM", "Alarm clock"),
  ("BUS", "Access to an undefined portion of a memory object"),
  ("CHLD", "Child process terminated, stopped, or continued"),
  ("CONT", "Continue executing, if stopped"),
  ("FPE", "Erroneous arithmetic operation"),
  ("HUP", "Hangup"),
  ("ILL", "Illegal instruction"),
  ("INT", "Terminal interrupt signal"),
  ("KILL", "Kill (cannot be caught or ignored)"),
  ("PIPE", "Write on a pipe with no one to read it"),
  ("QUIT", "Terminal quit signal"),
  ("SEGV", "Invalid memory reference"),
  ("STOP", "Stop executing (cannot be caught or ignored)"),
  ("TERM", "Termination signal"),
  ("TSTP", "Terminal stop signal"),
  ("TTIN", "Background process attempting read"),
  ("TTOU", "Background process attempting write"),
  ("USR1", "User-defined signal 1"),
  ("USR2", "User-defined signal 2"),
  ("POLL", "Pollable event"),
  ("PROF", "Profiling timer expired"),
  ("SYS", "Bad system call"),
  ("TRAP", "Trace/breakpoint trap"),
  ("XFSZ", "File size limit exceeded"),
  ("VTALRM", "Virtual timer expired"),
  ("XCPU", "CPU time limit exceeded")]

/-- The signals with a common beginning put before their names. -/
def signalsFrom (start : String) : List (String × String) :=
  signalNames.map fun (name, help) => (start ++ name, help)

end ShellCompletion
