import PiIpython.Lib.Shell

/-!
# Arguments in a shell command

`shellQuote` of `cells.ts`, and the command that `togglePane` builds with it:
the history file is shown, then the console replaces the shell. A quoted text
is one literal word wherever a word may stand (`run_shellQuote`), so the
tokens of the command are those that its parts spell.
-/

namespace PiIpython.Console

open Text Shell

def shellQuote (value : JsStr) : JsStr :=
  [apostrophe] ++ value.flatMap (fun c => if c = apostrophe then js "'\"'\"'" else [c]) ++
    [apostrophe]

/-- `args.map(shellQuote).join(" ")`. -/
def quoteAll (args : List JsStr) : JsStr := join (js " ") (args.map shellQuote)

/-- What the console's shell is to run: `file` is the transcript. -/
def viewerCommand (file : JsStr) (args : List JsStr) : JsStr :=
  js "/bin/cat " ++ shellQuote file ++ js "; exec " ++ quoteAll args

def consoleArgs (jupyterDataDir connectionCopy : JsStr) : List JsStr :=
  [js "env", js "JUPYTER_PATH=" ++ jupyterDataDir, js "uv", js "tool", js "run", js "--no-config",
    js "--python", js "3.12", js "--from", js "euporie==2.10.4", js "euporie-console",
    js "--connection-file", connectionCopy, js "--kernel-name", js "python3",
    js "--show-remote-inputs", js "--show-remote-outputs", js "--no-mouse-support", js "--no-lsp"]

/-- The line that is typed in the pane: the screen is cleared first. -/
def paneLine (file jupyterDataDir connectionCopy : JsStr) : JsStr :=
  js "printf '\\033[2J\\033[3J\\033[H'; " ++
    viewerCommand file (consoleArgs jupyterDataDir connectionCopy)

/-! ## One word -/

/-- **A quoted text adds its units to the word**, all of them literal. -/
theorem run_shellQuote {value : JsStr} (h : (0 : CodeUnit) ∉ value)
    (w : Option (List (Mark × CodeUnit))) (ts : List Token) :
    Lexer.run ⟨.plain, w, ts⟩ (shellQuote value) =
      some ⟨.plain, some (w.getD [] ++ value.map fun c => (.quoted, c)), ts⟩ := by
  have hbody : ∀ v, Lexer.run ⟨.single, some v, ts⟩
      (value.flatMap fun c => if c = apostrophe then js "'\"'\"'" else [c]) =
      some ⟨.single, some (v ++ value.map fun c => (.quoted, c)), ts⟩ := by
    induction value with
    | nil => intro v; rw [List.flatMap_nil, List.map_nil, List.append_nil]; rfl
    | cons c s ih =>
      intro v
      rw [List.mem_cons, not_or] at h
      rw [List.flatMap_cons, Lexer.run_append, List.map_cons]
      split
      · next hc =>
        -- the quotes are left, the apostrophe stands in double quotes, and they are opened again
        have hone : Lexer.run ⟨.single, some v, ts⟩ (js "'\"'\"'") =
            some ⟨.single, some (v ++ [(.quoted, apostrophe)]), ts⟩ := rfl
        rw [hone, Option.bind_some, ih h.2, List.append_assoc, hc]
        rfl
      · next hc =>
        have h0 : (0 : CodeUnit) ∉ [c] := by rw [List.mem_singleton]; exact h.1
        have h1 : apostrophe ∉ [c] := by rw [List.mem_singleton]; exact Ne.symm hc
        rw [Lexer.run_single h0 h1, Option.bind_some, ih h.2, List.append_assoc]
        rfl
  rw [shellQuote, Lexer.run_append, Lexer.run_append]
  have hopen : Lexer.run ⟨.plain, w, ts⟩ [apostrophe] = some ⟨.single, some (w.getD []), ts⟩ := rfl
  rw [hopen, Option.bind_some, hbody, Option.bind_some]
  rfl

/-! ## Several words -/

/-- The words before the last have become tokens. -/
theorem run_quoteAll {args : List JsStr} (h : ∀ a ∈ args, (0 : CodeUnit) ∉ a) (ts : List Token) :
    ∃ w ts', Lexer.run ⟨.plain, none, ts⟩ (quoteAll args) = some ⟨.plain, w, ts'⟩ ∧
      (Lexer.flush ⟨.plain, w, ts'⟩).tokens = ts ++ args.map literal := by
  induction args generalizing ts with
  | nil => exact ⟨none, ts, rfl, (List.append_nil ts).symm⟩
  | cons a args ih =>
    rw [List.forall_mem_cons] at h
    cases args with
    | nil => exact ⟨_, ts, run_shellQuote h.1 none ts, rfl⟩
    | cons b bs =>
      obtain ⟨w, ts', hrun, hts⟩ := ih h.2 (ts ++ [literal a])
      refine ⟨w, ts', ?_, ?_⟩
      · show Lexer.run _ (shellQuote a ++ js " " ++ quoteAll (b :: bs)) = _
        rw [Lexer.run_append, Lexer.run_append, run_shellQuote h.1, Option.bind_some]
        exact hrun
      · rw [hts, List.append_assoc]
        rfl

theorem tokens_append_quoteAll {pre : JsStr} {ts : List Token} {args : List JsStr}
    (hpre : Lexer.start.run pre = some ⟨.plain, none, ts⟩) (h : ∀ a ∈ args, (0 : CodeUnit) ∉ a) :
    tokens (pre ++ quoteAll args) = some (ts ++ args.map literal) := by
  obtain ⟨w, ts', hrun, hts⟩ := run_quoteAll h ts
  rw [tokens, Lexer.run_append, hpre, Option.bind_some, hrun, Option.bind_some, Lexer.finish,
    if_pos (.inl rfl), hts]

/-- The tokens of the command that shows the file and starts the program. -/
def viewerTokens (file : JsStr) (args : List JsStr) : List Token :=
  [plain (js "/bin/cat"), literal file, .operator (unit ';'), plain (js "exec")] ++
    args.map literal

theorem run_viewerPrefix {q : Lexer} {pre file : JsStr} {ts : List Token}
    (hpre : q.run pre = some ⟨.plain, none, ts⟩) (hfile : (0 : CodeUnit) ∉ file) :
    q.run (pre ++ (js "/bin/cat " ++ shellQuote file ++ js "; exec ")) =
      some ⟨.plain, none, ts ++ [plain (js "/bin/cat"), literal file, .operator (unit ';'),
        plain (js "exec")]⟩ := by
  have hcat : Lexer.run ⟨.plain, none, ts⟩ (js "/bin/cat ") =
      some ⟨.plain, none, ts ++ [plain (js "/bin/cat")]⟩ := rfl
  rw [Lexer.run_append, hpre, Option.bind_some, Lexer.run_append, Lexer.run_append, hcat,
    Option.bind_some, run_shellQuote hfile, Option.bind_some]
  refine Eq.trans (b := some ⟨.plain, none, ts ++ [plain (js "/bin/cat")] ++ [literal file] ++
    [.operator (unit ';')] ++ [plain (js "exec")]⟩) rfl ?_
  simp only [List.append_assoc, List.cons_append, List.nil_append]

theorem consoleArgs_no_nul {dir copy : JsStr} (hdir : (0 : CodeUnit) ∉ dir)
    (hcopy : (0 : CodeUnit) ∉ copy) : ∀ a ∈ consoleArgs dir copy, (0 : CodeUnit) ∉ a := by
  have hpath : (0 : CodeUnit) ∉ js "JUPYTER_PATH=" ++ dir := by
    rw [List.mem_append, not_or]
    exact ⟨by decide, hdir⟩
  simp only [consoleArgs, List.forall_mem_cons, hpath, hcopy]
  decide

/-- **Quoting is exact**: the shell reads the arguments back, no more and no other words, and a
path within the console's command is one word of it. -/
theorem tokens_shellQuote {args : List JsStr} {file dir copy : JsStr}
    (hargs : ∀ a ∈ args, (0 : CodeUnit) ∉ a) (hfile : (0 : CodeUnit) ∉ file)
    (hdir : (0 : CodeUnit) ∉ dir) (hcopy : (0 : CodeUnit) ∉ copy) :
    tokens (quoteAll args) = some (args.map literal) ∧
      tokens (viewerCommand file args) = some (viewerTokens file args) ∧
      tokens (paneLine file dir copy) =
        some ([plain (js "printf"), literal (js "\\033[2J\\033[3J\\033[H"),
          .operator (unit ';')] ++ viewerTokens file (consoleArgs dir copy)) := by
  have hempty : Lexer.start.run [] = some ⟨.plain, none, []⟩ := rfl
  have hclear : Lexer.start.run (js "printf '\\033[2J\\033[3J\\033[H'; ") =
      some ⟨.plain, none, [plain (js "printf"), literal (js "\\033[2J\\033[3J\\033[H"),
        .operator (unit ';')]⟩ := rfl
  refine ⟨tokens_append_quoteAll hempty hargs,
    tokens_append_quoteAll (run_viewerPrefix hempty hfile) hargs, ?_⟩
  rw [paneLine, viewerCommand, ← List.append_assoc,
    tokens_append_quoteAll (run_viewerPrefix hclear hfile) (consoleArgs_no_nul hdir hcopy),
    List.append_assoc]
  rfl

theorem tokens_shellQuote_hostile :
    tokens (quoteAll [js "'; rm -rf \"$HOME\" #", []]) =
      some [literal (js "'; rm -rf \"$HOME\" #"), literal []] := by
  have hfile : (0 : CodeUnit) ∉ js "/tmp/it's" := by decide
  have hdir : (0 : CodeUnit) ∉ js "/d" := by decide
  have hcopy : (0 : CodeUnit) ∉ js "/c\n$(x)" := by decide
  exact (tokens_shellQuote (by decide) hfile hdir hcopy).1

end PiIpython.Console
