import LineShell.Text.Number

/-!
# Options of the command line

The shell is started with any of six options, each with a short and a long spelling. One of them,
`config`, takes the next argument as its value, whatever that argument is. Arguments that are no
option are passed over. Parsing goes from left to right and only ever sets options; when the value
of the last argument is missing, what was set before it stays set.
-/

namespace LineShell

/-- The options, in the order of their names. -/
inductive Flag where
  /-- Colour the line while it is typed. -/
  | color
  /-- Run another file than the usual one at startup. -/
  | config
  /-- Log everything. -/
  | debug
  /-- Print how the shell is used. -/
  | help
  /-- Log errors only. -/
  | quiet
  /-- Print the version. -/
  | version
  deriving DecidableEq, Repr

namespace Flag

/-- All options, in the order of their names. -/
def all : List Flag :=
  [color, config, debug, help, quiet, version]

/-- The name of an option. -/
def name : Flag → String
  | color => "color"
  | config => "config"
  | debug => "debug"
  | help => "help"
  | quiet => "quiet"
  | version => "version"

/-- The short spelling of an option. -/
def short : Flag → String
  | color => "-C"
  | config => "-c"
  | debug => "-d"
  | help => "-h"
  | quiet => "-q"
  | version => "-v"

/-- The long spelling of an option. -/
def long (f : Flag) : String :=
  "--" ++ f.name

/-- What an option is for. -/
def description : Flag → String
  | color => "Highlight the command line while typing"
  | config => "Run this file at startup instead of ~/.conchrc"
  | debug => "Enable debug logging"
  | help => "Print this help message"
  | quiet => "Only log errors"
  | version => "Show version information"

/-- The option that an argument spells. -/
def ofArgument? (arg : String) : Option Flag :=
  all.find? fun f => arg = f.short ∨ arg = f.long

/-- The option of a name. -/
def ofName? (s : String) : Option Flag :=
  all.find? fun f => s = f.name

end Flag

/-- The options that are set. -/
structure Options where
  /-- Whether the line is coloured. -/
  color : Bool := false
  /-- The file to run at startup. -/
  config : Option String := none
  /-- Whether everything is logged. -/
  debug : Bool := false
  /-- Whether the usage is asked for. -/
  help : Bool := false
  /-- Whether only errors are logged. -/
  quiet : Bool := false
  /-- Whether the version is asked for. -/
  version : Bool := false
  deriving DecidableEq, Repr

/-- Which log messages are shown. -/
inductive LogLevel where
  /-- Errors only. -/
  | error
  /-- Errors and warnings. -/
  | warn
  /-- Everything. -/
  | debug
  deriving DecidableEq, Repr

namespace Options

/-- The option that should have been followed by a value, as it was spelled. -/
structure MissingValue where
  /-- The argument. -/
  argument : String
  deriving DecidableEq, Repr

/-- The wording of a missing value. -/
def MissingValue.message (e : MissingValue) : String :=
  s!"Flag {e.argument} requires a value"

/-- The options with one more of them set. -/
def set (o : Options) (value : String) : Flag → Options
  | .color => { o with color := true }
  | .config => { o with config := some value }
  | .debug => { o with debug := true }
  | .help => { o with help := true }
  | .quiet => { o with quiet := true }
  | .version => { o with version := true }

/-- The value of an option, if it is set. An option that takes none has the value `true`. -/
def value? (o : Options) : Flag → Option String
  | .color => if o.color then some "true" else none
  | .config => o.config
  | .debug => if o.debug then some "true" else none
  | .help => if o.help then some "true" else none
  | .quiet => if o.quiet then some "true" else none
  | .version => if o.version then some "true" else none

/-- Reads arguments from left to right. The second component tells that the last one lacks its
value; the options set before it are kept. -/
def parse (o : Options) : List String → Options × Option MissingValue
  | [] => (o, none)
  | arg :: rest =>
    match Flag.ofArgument? arg with
    | none => parse o rest
    | some .config =>
      match rest with
      | [] => (o, some ⟨arg⟩)
      | value :: rest => parse (o.set value .config) rest
    | some f => parse (o.set "true" f) rest

/-- Which log messages are shown: asking for all of them wins over asking for few. -/
def level (o : Options) : LogLevel :=
  if o.debug then .debug else if o.quiet then .error else .warn

/-- How the shell is used. -/
def usage : String :=
  "Usage: conch [OPTIONS]\n\nOptions:\n" ++ String.join (Flag.all.map fun f =>
    s!"  {f.short}, {Text.padRight 15 f.long} {f.description}\n")

end Options
end LineShell
