import ScriptHost.CommandLine.Option

/-! What is said to someone who asks for help, or whose arguments are of no use. -/

namespace ScriptHost.CommandLine

def version : String := "sandscript 0.1.0"

def helpText : String :=
"Sandboxed script engine host

Usage: sandscript [OPTIONS] <COMMAND>

Commands:
  engines                    List the registered script engines
  compile [--json] <FILE>    Compile a script and print the result or its diagnostics
  run [OPTIONS] <FILE>       Load a script into a scratch region and deliver events to it
  config [--validate]        Show configuration sources and the merged configuration
  help                       Print this message

Options of run:
  -e, --event <EVENT>        Event to deliver, as NAME or NAME:ARG,ARG (repeatable)
      --region <REGION>      Name of the scratch region [default: Sandbox]
      --privileged           Make the script owner an estate owner of the region
      --timeout <TIMEOUT>    Seconds to wait for the script to drain its events [default: 10]

Options:
  -v, --verbose              Verbosity level (-v = info, -vv = debug, -vvv = trace)
      --config <PATH>        Path to configuration file
      --no-config            Disable loading of configuration files
      --log-dir <DIR>        Also write logs to a file in this directory
  -h, --help                 Print help
  -V, --version              Print version"

namespace UsageError

/-- Whether the arguments ask for something that can be given. -/
def isRequest : UsageError → Bool
  | help | version => true
  | _ => false

def message : UsageError → String
  | help | noArguments => helpText
  | version => CommandLine.version
  | noCommand => "error: a command is required"
  | unknownCommand name => s!"error: unrecognized command '{name}'"
  | missingFile => "error: a file is required"
  | unknownArgument arg => s!"error: unexpected argument '{arg}'"
  | missingValue name => s!"error: a value is required for '{name}'"
  | malformedValue name value => s!"error: invalid value '{value}' for '{name}'"
  | repeated name => s!"error: '{name}' cannot be used more than once"
  | unexpectedValue name value => s!"error: unexpected value '{value}' for '{name}'"

end UsageError

end ScriptHost.CommandLine
