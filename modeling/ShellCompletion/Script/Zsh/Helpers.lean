import ShellCompletion.HelperFunctions

/-!
# Helper functions of zsh scripts

The functions that completion functions for zsh call: one that reads the command line
and answers questions about it, and one that describes the output of a command.
-/

namespace ShellCompletion.Zsh

/-- Reads the words before the cursor against an option list, and answers questions about
what it found. -/
def helperBody : String := Text.unlines [
  "local FUNC=\"$0\" CMD=\"$1\"",
  "shift",
  "case \"$CMD\" in",
  "  (setup)",
  "    local ABBREV=0 OPT NAME KIND ARG VALUE CANDIDATE MATCH",
  "    local -i ARGI=1 END_OF_OPTIONS=0 I HAS_VALUE",
  "    local -A ARITY",
  "    if [[ \"$1\" == -a ]]; then",
  "      ABBREV=1",
  "      shift",
  "    fi",
  "    for OPT in $\x7b(s:,:)1\x7d; do",
  "      NAME=\"$\x7bOPT%%=*\x7d\"",
  "      KIND=\"$\x7bOPT#\"$NAME\"\x7d\"",
  "      if [[ \"$NAME\" != -?* || \"$NAME\" == -- || ( -n \"$KIND\" && \"$KIND\" != '=' && \"$KIND\" != '=?' ) ]]; then",
  "        echo \"$FUNC: $OPT: not a valid option\" >&2",
  "        return 1",
  "      fi",
  "      ARITY[$NAME]=\"$KIND\"",
  "    done",
  "    shift",
  "    HELPER_POSITIONALS=()",
  "    HELPER_OPTIONS=()",
  "    HELPER_VALUES=()",
  "    while (( ARGI <= $# )); do",
  "      ARG=\"$\x7b@[ARGI]\x7d\"",
  "      (( ARGI++ ))",
  "      if (( END_OF_OPTIONS )) || [[ \"$ARG\" == - || \"$ARG\" != -* ]]; then",
  "        HELPER_POSITIONALS+=(\"$ARG\")",
  "        continue",
  "      fi",
  "      if [[ \"$ARG\" == -- ]]; then",
  "        END_OF_OPTIONS=1",
  "        continue",
  "      fi",
  "      if [[ \"$ARG\" == --* || $\x7b#ARG\x7d -gt 2 ]]; then",
  "        NAME=\"$\x7bARG%%=*\x7d\"",
  "        MATCH=''",
  "        if (( $\x7b+ARITY[$NAME]\x7d )) && [[ $\x7b#NAME\x7d -gt 2 ]]; then",
  "          MATCH=\"$NAME\"",
  "        elif (( ABBREV && $\x7b#NAME\x7d >= 3 )); then",
  "          for CANDIDATE in $\x7b(k)ARITY\x7d; do",
  "            if [[ $\x7b#CANDIDATE\x7d -gt 2 && \"$CANDIDATE\" == \"$NAME\"* ]]; then",
  "              if [[ -n \"$MATCH\" ]]; then",
  "                MATCH=''",
  "                break",
  "              fi",
  "              MATCH=\"$CANDIDATE\"",
  "            fi",
  "          done",
  "        fi",
  "        if [[ -n \"$MATCH\" ]]; then",
  "          VALUE=''",
  "          HAS_VALUE=0",
  "          if [[ \"$ARG\" == *=* ]]; then",
  "            VALUE=\"$\x7bARG#*=\x7d\"",
  "            HAS_VALUE=1",
  "          fi",
  "          case \"$\x7bARITY[$MATCH]\x7d\" in",
  "            ('') VALUE='';;",
  "            ('=')",
  "              if (( ! HAS_VALUE )); then",
  "                VALUE=\"$\x7b@[ARGI]\x7d\"",
  "                (( ARGI++ ))",
  "              fi;;",
  "          esac",
  "          HELPER_OPTIONS+=(\"$MATCH\")",
  "          HELPER_VALUES+=(\"$VALUE\")",
  "          continue",
  "        fi",
  "        [[ \"$ARG\" == --* ]] && continue",
  "      fi",
  "      for (( I = 2; I <= $\x7b#ARG\x7d; I++ )); do",
  "        NAME=\"-$\x7bARG[I]\x7d\"",
  "        (( $\x7b+ARITY[$NAME]\x7d )) || continue",
  "        VALUE=\"$\x7bARG[I+1,-1]\x7d\"",
  "        HELPER_OPTIONS+=(\"$NAME\")",
  "        case \"$\x7bARITY[$NAME]\x7d\" in",
  "          ('') HELPER_VALUES+=('');;",
  "          ('=?')",
  "            HELPER_VALUES+=(\"$VALUE\")",
  "            break;;",
  "          ('=')",
  "            if [[ -z \"$VALUE\" ]]; then",
  "              VALUE=\"$\x7b@[ARGI]\x7d\"",
  "              (( ARGI++ ))",
  "            fi",
  "            HELPER_VALUES+=(\"$VALUE\")",
  "            break;;",
  "        esac",
  "      done",
  "    done",
  "    return 0;;",
  "  (get_positional)",
  "    printf '%s' \"$\x7bHELPER_POSITIONALS[$1]\x7d\";;",
  "  (num_of_positionals)",
  "    local -i COUNT=$\x7b#HELPER_POSITIONALS\x7d",
  "    case \"$1\" in",
  "      (-eq) (( COUNT == $2 ));;",
  "      (-ne) (( COUNT != $2 ));;",
  "      (-ge) (( COUNT >= $2 ));;",
  "      (-gt) (( COUNT > $2 ));;",
  "      (-le) (( COUNT <= $2 ));;",
  "      (-lt) (( COUNT < $2 ));;",
  "      (*)",
  "        echo \"$FUNC: num_of_positionals: $1: invalid operator\" >&2",
  "        return 1;;",
  "    esac;;",
  "  (positional_contains)",
  "    (( $1 <= $\x7b#HELPER_POSITIONALS\x7d )) || return 1",
  "    local WORD=\"$\x7bHELPER_POSITIONALS[$1]\x7d\" CANDIDATE",
  "    shift",
  "    for CANDIDATE; do",
  "      [[ \"$WORD\" == \"$CANDIDATE\" ]] && return 0",
  "    done",
  "    return 1;;",
  "  (has_option)",
  "    local OPT",
  "    for OPT; do",
  "      (( $\x7bHELPER_OPTIONS[(Ie)$OPT]\x7d )) && return 0",
  "    done",
  "    return 1;;",
  "  (option_is)",
  "    local -a OPTS VALUES",
  "    local -i I",
  "    while (( $# )) && [[ \"$1\" != -- ]]; do",
  "      OPTS+=(\"$1\")",
  "      shift",
  "    done",
  "    (( $# )) && shift",
  "    VALUES=(\"$@\")",
  "    for (( I = $\x7b#HELPER_OPTIONS\x7d; I > 0; I-- )); do",
  "      if (( $\x7bOPTS[(Ie)$\x7bHELPER_OPTIONS[I]\x7d]\x7d )); then",
  "        (( $\x7bVALUES[(Ie)$\x7bHELPER_VALUES[I]\x7d]\x7d ))",
  "        return",
  "      fi",
  "    done",
  "    return 1;;",
  "  (*)",
  "    echo \"$FUNC: $CMD: unknown command\" >&2",
  "    return 1;;",
  "esac"]

/-- Offers the output lines of a command, each with what follows a tab as its
description. -/
def execBody : String := Text.unlines [
  "local -a items",
  "local line value",
  "for line in \"$\x7b(@f)$(eval \"$1\" 2>/dev/null)\x7d\"; do",
  "  [[ -n \"$line\" ]] || continue",
  "  value=\"$\x7bline%%$'\\t'*\x7d\"",
  "  if [[ \"$line\" == *$'\\t'* ]]; then",
  "    items+=(\"$\x7bvalue//:/\\\\:\x7d:$\x7bline#*$'\\t'\x7d\")",
  "  else",
  "    items+=(\"$\x7bvalue//:/\\\\:\x7d\")",
  "  fi",
  "done",
  "_describe '' items"]

/-- The helper functions known to the script of a program. -/
def helpers (program : String) : Helpers :=
  [("helper", helperBody),
    ("exec", execBody)].foldl
    (fun known (key, body) => known.define key body) (Helpers.new program .posix)

end ShellCompletion.Zsh
