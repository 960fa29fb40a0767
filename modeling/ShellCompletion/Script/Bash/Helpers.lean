import ShellCompletion.HelperFunctions

/-!
# Helper functions of bash scripts

The functions that completion functions for bash call. They read `cur`, the word that is
being completed, and add candidates to `COMPREPLY`.
-/

namespace ShellCompletion.Bash

/-- Adds the words that begin with the current word. -/
def wordsBody : String := Text.unlines [
  "local word",
  "for word; do",
  "  [[ \"$word\" == \"$cur\"* ]] && COMPREPLY+=(\"$word\")",
  "done",
  "return 0"]

/-- Adds the output lines of a command, less what follows a tab, that begin with the
current word. -/
def execBody : String := Text.unlines [
  "local line",
  "while IFS= read -r line; do",
  "  line=\"$\x7bline%%$'\\t'*\x7d\"",
  "  [[ \"$line\" == \"$cur\"* ]] && COMPREPLY+=(\"$line\")",
  "done < <(eval \"$1\" 2>/dev/null)",
  "return 0"]

/-- Completes the last item of a list with separators; items given before are left out. -/
def valueListBody : String := Text.unlines [
  "local separator=\"$1\" prefix='' last=\"$cur\" value",
  "shift",
  "if [[ \"$cur\" == *\"$separator\"* ]]; then",
  "  prefix=\"$\x7bcur%\"$separator\"*\x7d$separator\"",
  "  last=\"$\x7bcur##*\"$separator\"\x7d\"",
  "fi",
  "for value; do",
  "  [[ \"$value\" == \"$last\"* ]] || continue",
  "  [[ \"$separator$prefix\" == *\"$separator$value$separator\"* ]] && continue",
  "  COMPREPLY+=(\"$prefix$value\")",
  "done",
  "compopt -o nospace 2>/dev/null",
  "return 0"]

/-- Completes files below another directory. -/
def filedirInBody : String := Text.unlines [
  "local dir=\"$1\"",
  "shift",
  "pushd \"$dir\" &>/dev/null || return 0",
  "_filedir \"$@\"",
  "popd &>/dev/null",
  "return 0"]

/-- Takes pairs of a position and a value, a separator, and words: whether the value at
the greatest position is one of the words. -/
def optionIsBody : String := Text.unlines [
  "local position=0 value='' candidate",
  "while (( $# > 1 )) && [[ \"$1\" != -- ]]; do",
  "  if (( $1 > position )); then",
  "    position=$1",
  "    value=\"$2\"",
  "  fi",
  "  shift 2",
  "done",
  "shift",
  "(( position )) || return 1",
  "for candidate; do",
  "  [[ \"$value\" == \"$candidate\" ]] && return 0",
  "done",
  "return 1"]

/-- Whether the first word is one of the others. -/
def containsBody : String := Text.unlines [
  "local word=\"$1\" candidate",
  "shift",
  "for candidate; do",
  "  [[ \"$word\" == \"$candidate\" ]] && return 0",
  "done",
  "return 1"]

/-- The helper functions known to the script of a program. -/
def helpers (program : String) : Helpers :=
  [("words", wordsBody),
    ("exec", execBody),
    ("value_list", valueListBody),
    ("filedir_in", filedirInBody),
    ("option_is", optionIsBody),
    ("contains", containsBody)].foldl
    (fun known (key, body) => known.define key body) (Helpers.new program .posix)

end ShellCompletion.Bash
