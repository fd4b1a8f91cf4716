namespace ScriptLang.Usage

def line : String :=
  "usage: splax [-h] [-c \x7b1,2\x7d] [--print-ast] [-v] [input_file]\n"

def help : String :=
  line ++ String.join
    ["\n",
     "Tokenize and parse a Splax script.\n",
     "\n",
     "positional arguments:\n",
     "  input_file            The path to the input .splax file. Omit to read from\n",
     "                        stdin.\n",
     "\n",
     "options:\n",
     "  -h, --help            show this help message and exit\n",
     "  -c \x7b1,2\x7d, --compile \x7b1,2\x7d\n",
     "                        Run the front-end up to a specific stage and save the\n",
     "                        intermediate artifact. '1' for Token Stream. '2' for\n",
     "                        Abstract Syntax Tree. Omitting this flag parses the\n",
     "                        whole script and only reports errors.\n",
     "  --print-ast           Print every top-level statement in prefix notation.\n",
     "  -v, --verbose         Log every front-end step at DEBUG level.\n"]

def error (message : String) : String := line ++ "splax: error: " ++ message ++ "\n"

end ScriptLang.Usage
