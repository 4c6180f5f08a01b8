namespace Monitor.Help

def ofLines (lines : List String) : String :=
  String.join (lines.map (· ++ "\n"))

def conditionForms : String :=
  ofLines [
    "condition = <value>[.mode] [& <mask>] <comparison> <value>[.mode]",
    "",
    "  where:",
    "  \tvalue = [(] <register/symbol/variable name | number> [)]",
    "  \tnumber/mask = [#|$|%]<digits>",
    "  \tcomparison = '<' | '>' | '=' | '!'",
    "  \taddressing mode (width) = 'b' | 'w' | 'l'",
    "  \taddressing mode (space) = 'p' | 'x' | 'y'",
    "",
    "  If the value is in parenthesis like in '($ff820)' or '(a0)', then",
    "  the used value will be read from the memory address pointed by it.",
    "",
    "  If the parsed value expressions on both sides of it are exactly",
    "  the same, right side is replaced with its current value.  For",
    "  inequality ('!') comparison, the breakpoint will additionally track",
    "  all further changes for the given address/register expression value.",
    "  (This is useful for tracking register and memory value changes.)",
    "",
    "  M68k addresses can have byte (b), word (w) or long (l, default) width.",
    "  DSP addresses belong to different address spaces: P, X or Y. Note that",
    "  on DSP only R0-R7 registers can be used for memory addressing.",
    "",
    "  Examples:",
    "  \tpc = $64543  &&  ($ff820).w & 3 = (a0)  &&  d0 = %1100",
    "  \t($ffff9202).w ! ($ffff9202).w :trace",
    "  \t(r0).x = 1 && (r0).y = 2",
    "",
    "  For breakpoint options, see 'help b'."]

def breakpointUsage : String :=
  ofLines [
    "<condition> [&& <condition> ...] [:<option>] | <index> | help | all",
    "",
    "\tSet breakpoint with given <conditions>, remove breakpoint with",
    "\tgiven <index>, remove all breakpoints with 'all' or output",
    "\tbreakpoint condition syntax with 'help'.  Without arguments,",
    "\tlists currently active breakpoints.",
    "",
    "\tMultiple breakpoint action options can be specified after",
    "\tthe breakpoint condition(s):",
    "\t- 'trace', print the breakpoint match without stopping",
    "\t- 'info <name>', call indicated info functionality (enables 'trace')",
    "\t- 'lock', print the locked debugger entry info (enables 'trace')",
    "\t- 'noinit', no debugger inits on hit, useful for stack tracing",
    "\t- 'file <file>', execute debugger commands from given <file>",
    "\t- 'once', delete the breakpoint after it's hit",
    "\t- 'quiet', no output from setting & hitting breakpoint",
    "\t- '<count>', break only on every <count> hit"]

def addressUsage : String :=
  ofLines [
    "<address> [:<option>]",
    "\tCreate conditional breakpoint for given PC <address>.",
    "",
    "\tBreakpoint action option alternatives:",
    "\t- 'trace', print the breakpoint match without stopping",
    "\t- 'lock', print the debugger entry info without stopping",
    "\t- 'once', delete the breakpoint after it's hit",
    "\t- 'quiet', no output from setting & hitting breakpoint",
    "\t- '<count>', break only on every <count> hit",
    "",
    "\tUse conditional breakpoint commands to manage the created",
    "\tbreakpoints."]

def commandList : String :=
  ofLines [
    "Commands:",
    "  b [<condition> [:<option>...] | <index> | all | help]",
    "                      set, remove or list CPU condition breakpoints",
    "  db [...]            same for DSP breakpoints",
    "  a <address> [:<option>]",
    "                      set a CPU breakpoint on the PC reaching <address>",
    "  da <address> [:<option>]",
    "                      same for the DSP",
    "  e <expression>      evaluate an expression for the CPU",
    "  de <expression>     evaluate an expression for the DSP",
    "  r [<reg>=<expr>]    show or set CPU registers",
    "  dr [<reg>=<expr>]   show or set DSP registers",
    "  w <address> <byte>...",
    "                      write bytes to CPU memory",
    "  m [<address>[-<address>]]",
    "                      dump CPU memory",
    "  match               test all breakpoints once",
    "  save <file>         save breakpoints as a command file",
    "  vars                list builtin variables and their values",
    "  f <file>            run debugger commands from a file",
    "  help                show this help"]

end Monitor.Help
