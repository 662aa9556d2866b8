/-
  What the program says to people about its arguments and its failures.
-/
import SealedStore.CommandLine.Command

namespace SealedStore

/-- The commands, options and flags. -/
def helpLines : List String := [
  "Round-trip sample values through named slot files and print them back",
  "",
  "Usage: [OPTIONS] [COMMAND]",
  "",
  "Commands:",
  "  run     Write every sample, then read and print each one back",
  "  show    Read and print a single slot",
  "  dump    Hex dump the raw blob stored in a slot",
  "  list    List occupied slots",
  "  pickle  Decode a pickle file (plain data only) and print its values",
  "  help    Print this message",
  "",
  "Options:",
  "  -v, --verbose",
  "      --format <FORMAT>      [default: text] [possible values: text, json]",
  "      --data-dir <DATA_DIR>  Data directory (default: data/ next to the executable)",
  "      --config <CONFIG>      TOML configuration file",
  "      --create               Create the data directory if it does not exist",
  "      --no-verify            Skip comparing reloaded values with the written ones",
  "  -h, --help                 Print help",
  "  -V, --version              Print version"]

/-- The version of the program. -/
def versionLine : String := "0.1.0"

/-- What is said about arguments that end the program. -/
def Usage.lines : Usage → List String
  | .displayHelp => helpLines
  | .displayVersion => [versionLine]
  | .unknownArgument => ["error: unexpected argument"]
  | .invalidValue => ["error: a value is missing, empty or not one of the possible values"]
  | .valueValidation => ["error: not a slot name"]
  | .missingRequiredArgument => ["error: a required argument was not provided"]
  | .invalidSubcommand => ["error: unrecognized subcommand"]
  | .argumentConflict => ["error: an argument cannot be used multiple times"]
  | .tooManyValues => ["error: a flag takes no value"]

/-- The causes of an error, numbered if there are several. -/
def causeLines : List String → List String
  | [] => []
  | [cause] => ["", "Caused by:", "    " ++ cause]
  | causes => "" :: "Caused by:" :: causes.mapIdx fun i cause => s!"    {i}: {cause}"

/-- What is said about a command that fails. -/
def CommandError.lines (e : CommandError) : List String :=
  match e.chain with
  | [] => []
  | text :: causes => ("Error: " ++ text) :: causeLines causes

end SealedStore
