import ShellCompletion.HelperFunctions

/-!
# Helper functions of fish scripts

The functions that `complete` lines for fish call: one that reads the command line and
answers one question about it, and one that completes paths below a directory.
-/

namespace ShellCompletion.Fish

/-- Reads the words before the cursor against an option list, and answers one question
about what it found. -/
def helperBody : String := Text.unlines [
  "set -l func (status current-function)",
  "set -l abbreviate 0",
  "if test \"$argv[1]\" = -a",
  "  set abbreviate 1",
  "  set -e argv[1]",
  "end",
  "",
  "set -l names",
  "set -l kinds",
  "for opt in (string split , -- $argv[1])",
  "  set -l name (string replace -r -- '=.*$' '' $opt)",
  "  set -l kind (string replace -r -- '^[^=]*' '' $opt)",
  "  if not string match -qr -- '^-.' $name; or test \"$name\" = --; or not contains -- \"$kind\" '' '=' '=?'",
  "    echo \"$func: $opt: not a valid option\" >&2",
  "    return 1",
  "  end",
  "  set -a names $name",
  "  set -a kinds \"$kind\"",
  "end",
  "",
  "set -l cmd $argv[2]",
  "set -e argv[1..2]",
  "",
  "set -l words (commandline -opc)",
  "set -e words[1]",
  "set -l positionals",
  "set -l options",
  "set -l values",
  "set -l end_of_options 0",
  "set -l i 1",
  "while test $i -le (count $words)",
  "  set -l arg $words[$i]",
  "  set i (math $i + 1)",
  "  if test $end_of_options -eq 1; or test \"$arg\" = -; or not string match -q -- '-*' $arg",
  "    set -a positionals $arg",
  "    continue",
  "  end",
  "  if test \"$arg\" = --",
  "    set end_of_options 1",
  "    continue",
  "  end",
  "",
  "  if string match -q -- '--*' $arg; or test (string length -- $arg) -gt 2",
  "    set -l name (string replace -r -- '=.*$' '' $arg)",
  "    set -l match (contains -i -- $name $names)",
  "    if test -z \"$match\"; or test (string length -- $name) -le 2",
  "      set match",
  "      if test $abbreviate -eq 1; and test (string length -- $name) -ge 3",
  "        for j in (seq (count $names))",
  "          if test (string length -- $names[$j]) -gt 2; and string match -q -- \"$name*\" $names[$j]",
  "            if test -n \"$match\"",
  "              set match",
  "              break",
  "            end",
  "            set match $j",
  "          end",
  "        end",
  "      end",
  "    end",
  "    if test -n \"$match\"",
  "      set -l value ''",
  "      set -l has_value 0",
  "      if string match -q -- '*=*' $arg",
  "        set value (string replace -r -- '^[^=]*=' '' $arg)",
  "        set has_value 1",
  "      end",
  "      switch \"$kinds[$match]\"",
  "        case ''",
  "          set value ''",
  "        case '='",
  "          if test $has_value -eq 0",
  "            set value $words[$i]",
  "            set i (math $i + 1)",
  "          end",
  "      end",
  "      set -a options $names[$match]",
  "      set -a values \"$value\"",
  "      continue",
  "    end",
  "    string match -q -- '--*' $arg; and continue",
  "  end",
  "",
  "  set -l chars (string split '' -- (string sub -s 2 -- $arg))",
  "  for k in (seq (count $chars))",
  "    set -l name -$chars[$k]",
  "    set -l index (contains -i -- $name $names)",
  "    test -n \"$index\"; or continue",
  "    set -l value (string sub -s (math $k + 2) -- $arg)",
  "    set -a options $name",
  "    switch \"$kinds[$index]\"",
  "      case ''",
  "        set -a values ''",
  "      case '=?'",
  "        set -a values \"$value\"",
  "        break",
  "      case '='",
  "        if test -z \"$value\"",
  "          set value $words[$i]",
  "          set i (math $i + 1)",
  "        end",
  "        set -a values \"$value\"",
  "        break",
  "    end",
  "  end",
  "end",
  "",
  "switch $cmd",
  "  case get_positional",
  "    printf '%s' $positionals[$argv[1]]",
  "  case num_of_positionals",
  "    switch $argv[1]",
  "      case -eq -ne -ge -gt -le -lt",
  "        test (count $positionals) $argv[1] $argv[2]",
  "      case '*'",
  "        echo \"$func: num_of_positionals: $argv[1]: invalid operator\" >&2",
  "        return 1",
  "    end",
  "  case positional_contains",
  "    test $argv[1] -le (count $positionals); or return 1",
  "    contains -- $positionals[$argv[1]] $argv[2..-1]",
  "  case has_option",
  "    for opt in $argv",
  "      contains -- $opt $options; and return 0",
  "    end",
  "    return 1",
  "  case option_is",
  "    set -l opts",
  "    while set -q argv[1]; and test \"$argv[1]\" != --",
  "      set -a opts $argv[1]",
  "      set -e argv[1]",
  "    end",
  "    set -q argv[1]; and set -e argv[1]",
  "    for k in (seq (count $options) -1 1)",
  "      if contains -- $options[$k] $opts",
  "        contains -- \"$values[$k]\" $argv",
  "        return",
  "      end",
  "    end",
  "    return 1",
  "  case '*'",
  "    echo \"$func: $cmd: unknown command\" >&2",
  "    return 1",
  "end"]

/-- Completes paths below another directory, or directories alone. -/
def filedirBody : String := Text.unlines [
  "set -l token (commandline -ct)",
  "pushd $argv[1] 2>/dev/null; or return 1",
  "if test \"$argv[2]\" = -d",
  "  __fish_complete_directories $token ''",
  "else",
  "  __fish_complete_path $token",
  "end",
  "popd"]

/-- The helper functions known to the script of a program. -/
def helpers (program : String) : Helpers :=
  [("helper", helperBody),
    ("filedir", filedirBody)].foldl
    (fun known (key, body) => known.define key body) (Helpers.new program .fish)

end ShellCompletion.Fish
