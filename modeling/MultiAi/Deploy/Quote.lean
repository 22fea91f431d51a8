import MultiAi.Library.PowerShell
import MultiAi.Library.ShellWords

/-! # Command lines for a host's shell

Programs and arguments are quoted for the shell of the host, which splits the line into
words again.
-/

namespace MultiAi

inductive Os | linux | macOs | windows
  deriving DecidableEq

/-- How commands sent over `exec` are interpreted on the remote side. -/
inductive Shell | posix | cmd | powerShell
  deriving DecidableEq

/-- What was learned about a remote host. -/
structure Remote where
  os : Os
  shell : Shell

/-- A text with each `c` replaced. -/
def replaceChar (s : String) (c : Char) (by' : String) : String :=
  String.ofList (s.toList.flatMap fun d => if d = c then by'.toList else [d])

/-- Single-quote for POSIX sh. -/
def shQuote (s : String) : String := "'" ++ replaceChar s '\x27' "'\\''" ++ "'"

/-- A word that is not quoted. -/
def plain (w : String) : Bool :=
  !w.isEmpty && w.toList.all fun c => c.isAlphanum || c = '-' || c = '_'

namespace Remote

/-- Command line that runs the program at `path` with `args`. -/
def invoke (r : Remote) (path args : String) : String :=
  match r.shell with
  | .posix => shQuote path ++ " " ++ args
  | .cmd => "\x22" ++ path ++ "\x22 " ++ args
  | .powerShell => "& '" ++ replaceChar path '\x27' "''" ++ "' " ++ args

/-- Quote one argument for this host's shell. -/
def quoteArg (r : Remote) (arg : String) : String :=
  match r.shell with
  | .posix => shQuote arg
  | .cmd => "\x22" ++ arg ++ "\x22"
  | .powerShell => "'" ++ replaceChar arg '\x27' "''" ++ "'"

/-- Join `argv` for this host's shell, quoting every word that is not plain. -/
def joinArgs (r : Remote) (argv : List String) : String :=
  " ".intercalate (argv.map fun w => if plain w then w else r.quoteArg w)

end Remote

/-- Locale requested for terminals. -/
def localeEnv : List (String × String) := [("LANG", "en_US.UTF-8"), ("LC_CTYPE", "en_US.UTF-8")]

/-- Arguments after the zellij binary. -/
def attachArgv (session : String) (create : Bool) : List String :=
  ["attach"] ++ (if create then ["--create"] else []) ++ [session]

/-- Command line that attaches to a session. -/
def remoteAttachCommand (remote : Remote) (zellij : Option String) (session : String)
    (create envAccepted : Bool) : String :=
  let cmd := remote.invoke (zellij.getD "zellij") (remote.joinArgs (attachArgv session create))
  if envAccepted || remote.shell ≠ .posix then cmd
  else
    let pre := localeEnv.map fun (k, v) => k ++ "=" ++ v
    " ".intercalate pre ++ " " ++ cmd

theorem toList_replaceChar (s : String) (c : Char) (by' : String) :
    (replaceChar s c by').toList = s.toList.flatMap fun d => if d = c then by'.toList else [d] :=
  String.toList_ofList

theorem toList_shQuote (s : String) : (shQuote s).toList = ShellWords.quote s.toList := by
  simp only [shQuote, String.toList_append, toList_replaceChar]
  rfl

theorem toList_ne_nil {w : String} : w.toList ≠ [] ↔ w.isEmpty = false := by
  rw [Ne, String.toList_eq_nil_iff, ← String.isEmpty_iff, Bool.not_eq_true]

theorem plain_iff {w : String} : plain w = true ↔ PowerShell.PlainWord w.toList := by
  simp only [plain, Bool.and_eq_true, Bool.not_eq_true', List.all_eq_true, Bool.or_eq_true,
    decide_eq_true_eq, PowerShell.PlainWord, toList_ne_nil, PowerShell.Plain, or_assoc]

section Posix

open ShellWords

/-- What a shell reads an argument as. -/
def posixWord (w : String) : Word := if plain w then bare w.toList else quoted w.toList

theorem plain_of_plain {c : Char} (h : PowerShell.Plain c) : ShellWords.Plain c := by
  constructor
  · simp only [List.mem_cons, List.not_mem_nil, or_false]
    rintro (rfl | rfl | rfl | rfl) <;> exact absurd h (by decide)
  · intro hs
    have hall : special.all (fun c => !decide (PowerShell.Plain c)) = true := by decide
    have hc := List.all_eq_true.mp hall c hs
    simp [h] at hc

theorem codes_word {w : String} (h : plain w = true) : Codes w.toList (bare w.toList) :=
  codes_bare (plain_iff.mp h).1 fun c hc => plain_of_plain ((plain_iff.mp h).2 c hc)

theorem codes_arg (os : Os) (w : String) :
    Codes (if plain w then w else (Remote.mk os .posix).quoteArg w).toList (posixWord w) := by
  rw [posixWord]
  by_cases h : plain w = true
  · rw [if_pos h, if_pos h]
    exact codes_word h
  · rw [if_neg h, if_neg h, Remote.quoteArg, toList_shQuote]
    exact codes_quote _

theorem text_posixWord (w : String) : text (posixWord w) = w := by
  rw [posixWord]
  split <;> simp [text_bare, text_quoted]

theorem lex_joinArgs (os : Os) (argv : List String) :
    lex .outside none ((Remote.mk os .posix).joinArgs argv).toList = some (argv.map posixWord) := by
  rw [Remote.joinArgs, String.toList_intercalate, List.map_map]
  exact lex_intercalate (codes_arg os) argv

theorem lex_invoke (os : Os) (path : String) (argv : List String) :
    lex .outside none
        ((Remote.mk os .posix).invoke path ((Remote.mk os .posix).joinArgs argv)).toList =
      some (quoted path.toList :: argv.map posixWord) := by
  have hline : ((Remote.mk os .posix).invoke path ((Remote.mk os .posix).joinArgs argv)).toList =
      quote path.toList ++ ' ' :: ((Remote.mk os .posix).joinArgs argv).toList := by
    simp [Remote.invoke, toList_shQuote]
  rw [hline, codes_quote path.toList, lex_blank, lex_joinArgs]
  rfl

theorem text_words (path : String) (argv : List String) :
    (quoted path.toList :: argv.map posixWord).map text = path :: argv := by
  simp [text_quoted, Function.comp_def, text_posixWord]

/-- The words of the locale. -/
def localeWords : List Word := localeEnv.map fun (k, v) => bare (k ++ "=" ++ v).toList

theorem filterMap_localeWords : localeWords.filterMap assignment = localeEnv := by
  decide +kernel

theorem lex_locale (cmd : String) :
    lex .outside none (" ".intercalate (localeEnv.map fun (k, v) => k ++ "=" ++ v) ++ " " ++
      cmd).toList = (lex .outside none cmd.toList).map (localeWords ++ ·) := by
  have hlang : Codes "LANG=en_US.UTF-8".toList (bare "LANG=en_US.UTF-8".toList) :=
    codes_bare_of_all (by decide) (by decide)
  have hctype : Codes "LC_CTYPE=en_US.UTF-8".toList (bare "LC_CTYPE=en_US.UTF-8".toList) :=
    codes_bare_of_all (by decide) (by decide)
  have hline : (" ".intercalate (localeEnv.map fun (k, v) => k ++ "=" ++ v) ++ " " ++ cmd).toList =
      "LANG=en_US.UTF-8".toList ++ ' ' :: ("LC_CTYPE=en_US.UTF-8".toList ++ ' ' :: cmd.toList) := by
    simp [localeEnv]
  rw [hline, hlang, lex_blank, hctype, lex_blank, Option.map_map]
  rfl

/-- A host's shell reads a command line as the program and its arguments, and the line that
attaches to a session as the locale, where it is set, and the arguments of zellij. -/
theorem posix_words (os : Os) :
    (∀ path argv, simpleCommand ((Remote.mk os .posix).invoke path
      ((Remote.mk os .posix).joinArgs argv)) = some ([], path :: argv)) ∧
    ∀ zellij session create envAccepted,
      simpleCommand (remoteAttachCommand ⟨os, .posix⟩ zellij session create envAccepted) =
        some (if envAccepted then [] else localeEnv,
          zellij.getD "zellij" :: "attach" :: (if create then ["--create"] else []) ++ [session]) := by
  have hinvoke : ∀ path argv, simpleCommand ((Remote.mk os .posix).invoke path
      ((Remote.mk os .posix).joinArgs argv)) = some ([], path :: argv) := by
    intro path argv
    rw [simpleCommand, lex_invoke, Option.map_some,
      List.takeWhile_cons_of_neg (by simp [assignment_quoted]),
      List.dropWhile_cons_of_neg (by simp [assignment_quoted]), text_words]
    rfl
  refine ⟨hinvoke, ?_⟩
  intro zellij session create envAccepted
  cases envAccepted with
  | true => exact hinvoke _ _
  | false =>
    have hcmd : remoteAttachCommand ⟨os, .posix⟩ zellij session create false =
        " ".intercalate (localeEnv.map fun (k, v) => k ++ "=" ++ v) ++ " " ++
          (Remote.mk os .posix).invoke (zellij.getD "zellij")
            ((Remote.mk os .posix).joinArgs (attachArgv session create)) := rfl
    have hsome : ∀ w ∈ localeWords, (assignment w).isSome = true := by decide +kernel
    rw [hcmd, simpleCommand, lex_locale, lex_invoke, Option.map_some, Option.map_some,
      List.takeWhile_append_of_pos hsome, List.dropWhile_append_of_pos hsome,
      List.takeWhile_cons_of_neg (by simp [assignment_quoted]),
      List.dropWhile_cons_of_neg (by simp [assignment_quoted]), text_words, List.append_nil,
      filterMap_localeWords]
    rfl

end Posix

section PowerShell

open PowerShell

/-- What an argument should be read as. -/
def psToken (w : String) : Token := if plain w then .bare w.toList else .literal w.toList

theorem toList_psQuote (s : String) :
    ("'" ++ replaceChar s '\x27' "''" ++ "'").toList = quote s.toList := by
  simp only [String.toList_append, toList_replaceChar]
  rfl

theorem psToken_eq (w : String) : psToken w = token w.toList := by
  rw [psToken, token]
  exact if_congr plain_iff rfl rfl

theorem toList_psArg (os : Os) (w : String) :
    (if plain w then w else (Remote.mk os .powerShell).quoteArg w).toList = code w.toList := by
  by_cases h : plain w = true
  · rw [if_pos h, code, if_pos (plain_iff.mp h)]
  · rw [if_neg h, code, if_neg (plain_iff.not.mp h), Remote.quoteArg, toList_psQuote]

/-- A host with PowerShell reads a command line as the call of the program with its
arguments exactly when no word has one of the other four quote characters. -/
theorem powerShell_tokens_iff (os : Os) (path : String) (argv : List String) :
    lex .between ((Remote.mk os .powerShell).invoke path
        ((Remote.mk os .powerShell).joinArgs argv)).toList =
      some (.call :: .literal path.toList :: argv.map psToken) ↔
      ∀ w ∈ path :: argv, ∀ c ∈ w.toList, ¬ Typographic c := by
  have hcodes : (argv.map fun w =>
      if plain w then w else (Remote.mk os .powerShell).quoteArg w).map String.toList =
        (argv.map String.toList).map code := by
    rw [List.map_map, List.map_map]
    exact List.map_congr_left fun w _ => toList_psArg os w
  have hline : ((Remote.mk os .powerShell).invoke path
      ((Remote.mk os .powerShell).joinArgs argv)).toList =
        '&' :: ' ' :: (quote path.toList ++
          ' ' :: [' '].intercalate ((argv.map String.toList).map code)) := by
    rw [← hcodes, ← toList_psQuote]
    simp [Remote.invoke, Remote.joinArgs, String.toList_intercalate]
  have htokens : argv.map psToken = (argv.map String.toList).map token := by
    rw [List.map_map]
    exact List.map_congr_left fun w _ => psToken_eq w
  rw [hline, htokens, lex_call_iff, ← List.map_cons, List.forall_mem_map]

/-- A path with a typographic apostrophe is cut there. -/
theorem not_powerShell_tokens : ¬ ∀ (os : Os) (path : String) (argv : List String),
    lex .between ((Remote.mk os .powerShell).invoke path
        ((Remote.mk os .powerShell).joinArgs argv)).toList =
      some (.call :: .literal path.toList :: argv.map psToken) := by
  intro h
  exact absurd (h .windows "C:\\Users\\O\u2019Brien\\.multi-ai\\bin\\mai-probe.exe" ["serve"])
    (by decide +kernel)

end PowerShell

end MultiAi
