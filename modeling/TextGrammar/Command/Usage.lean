/-!
# Usage

What the program says about itself when asked for help.
-/
namespace TextGrammar.Command

/-- The accepted arguments in brief, also shown before a fault of the arguments. -/
def synopsis : List String :=
  ["usage: scribe.py [-h] [-r RULE] [-n COUNT] [-s SEED] [--max-steps MAX_STEPS]",
   "                 [--timings] [--dump]",
   "                 filename"]

def usage : List String :=
  synopsis ++
  ["",
   "Generate text from a scribe grammar.",
   "",
   "positional arguments:",
   "  filename              The path to the grammar file",
   "",
   "options:",
   "  -h, --help            show this help message and exit",
   "  -r RULE, --rule RULE  The rule to expand (default: main)",
   "  -n COUNT, --count COUNT",
   "                        How many times to expand the rule",
   "  -s SEED, --seed SEED  Seed the random choices for repeatable output",
   "  --max-steps MAX_STEPS",
   "                        Give up on an expansion after this many steps",
   "                        (unbounded by default)",
   "  --timings             Report how long each stage took",
   "  --dump                Print the compiled rules instead of expanding them"]

/-- The name under which the program reports faults of its arguments. -/
def programName : String := "scribe.py"

end TextGrammar.Command
