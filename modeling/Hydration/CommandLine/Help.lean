import Hydration.CommandLine.Arguments

/-!
# Help texts

What the program prints when it is asked for help.  Each text says how the program or a
command is called, and lists what may be given to it.
-/

namespace Hydration.CommandLine

/-- The name of the program with its version. -/
def versionLine : String := "defer-rs 0.1.0"

/-- The lines of the help on a topic. -/
def Topic.lines : Topic → List String
  | program =>
    ["Usage: defer <COMMAND>",
     "",
     "Commands:",
     "  tokens  Print the tokens of a requirement expression",
     "  parse   Print the parsed tree of a requirement expression",
     "  run     Run a page scenario from a file",
     "  help    Print this message or the help of the given subcommand(s)",
     "",
     "Options:",
     "  -h, --help     Print help",
     "  -V, --version  Print version"]
  | tokens =>
    ["Print the tokens of a requirement expression",
     "",
     "Usage: defer tokens <EXPRESSION>",
     "",
     "Arguments:",
     "  <EXPRESSION>  The requirement expression",
     "",
     "Options:",
     "  -h, --help  Print help"]
  | parse =>
    ["Print the parsed tree of a requirement expression",
     "",
     "Usage: defer parse [OPTIONS] <EXPRESSION>",
     "",
     "Arguments:",
     "  <EXPRESSION>  The requirement expression",
     "",
     "Options:",
     "      --json  Print the tree as JSON instead of normalized text",
     "  -h, --help  Print help"]
  | run =>
    ["Run a page scenario from a file",
     "",
     "Usage: defer run [OPTIONS] <SCENARIO>",
     "",
     "Arguments:",
     "  <SCENARIO>  Path to the scenario file",
     "",
     "Options:",
     "  -o, --options <OPTIONS>  Options file replacing the scenario's options",
     "      --json               Print the report as JSON instead of YAML",
     "  -h, --help               Print help"]
  | help =>
    ["Print this message or the help of the given subcommand(s)",
     "",
     "Usage: defer help [COMMAND]...",
     "",
     "Arguments:",
     "  [COMMAND]...  Print help for the subcommand(s)"]

end Hydration.CommandLine
