import MultiAi.Deploy.Quote
import MultiAi.Library.Lines
import MultiAi.Probe.HookMap
import Mathlib.Data.List.Infix

/-! # Detection of a platform

A remote host is asked for its system, its CPU and its home in one command that prints them
between two marks. What the start-up files of its shell print is around the marks, and may end
without a newline.
-/

namespace MultiAi.Detect

open HookMap

/-- A text, as its characters. -/
abbrev Text := List Char

def beginMark : Text := "MAI-DETECT-BEGIN".toList

def endMark : Text := "MAI-DETECT-END".toList

/-- The lines of an output, trimmed. -/
def trimmed (out : Text) : List Text := (Lines.lines '\n' '\r' out).map trim

/-- The lines before the end mark, if it comes. -/
def untilEnd : List Text → Option (List Text)
  | [] => none
  | line :: lines => if line = endMark then some [] else (untilEnd lines).map (line :: ·)

/-- The lines after the first begin mark, up to the end mark. -/
def block (lines : List Text) : Option (List Text) :=
  untilEnd (lines.dropWhile (· ≠ beginMark)).tail

/-- The trimmed lines between the marks, or none if the marks are missing. -/
def markedLines (out : Text) : Option (List Text) := block (trimmed out)

def asciiLower (text : Text) : String := String.ofList (text.map Char.toLower)

def asciiUpper (text : Text) : Text := text.map Char.toUpper

/-- The pieces of a text between white space. -/
def words (text : Text) : List Text := (text.splitOnP isWhiteSpace).filter (· ≠ [])

def normalizeArch (raw : Text) : Option String :=
  match asciiLower (trim raw) with
  | "x86_64" | "amd64" => some "x86_64"
  | "aarch64" | "arm64" => some "aarch64"
  | _ => none

def parseUname (out : Text) : Option (Os × String) :=
  match words out with
  | os :: arch :: _ =>
    match String.ofList os with
    | "Linux" => (normalizeArch arch).map (.linux, ·)
    | "Darwin" => (normalizeArch arch).map (.macOs, ·)
    | _ => none
  | _ => none

/-- Why a platform is not detected; `text` is what the user sees. -/
inductive DetectError where
  /-- There are not two lines between the marks. -/
  | unexpected (lines : List Text)
  /-- There are no marks. -/
  | unmarked (out : Text)
  | system (uname : Text)
  | emptyHome
  | cpu (raw : Text)
  | noProfile
  deriving DecidableEq

/-- `debug` and `debugLines` print a text and a list of texts with quotes around them. -/
def DetectError.text (debug : Text → String) (debugLines : List Text → String) :
    DetectError → String
  | .unexpected lines => "unexpected detection output: " ++ debugLines lines
  | .unmarked out => "unexpected detection output: " ++ debug out
  | .system uname => "unsupported system (uname: " ++ debug uname ++ ")"
  | .emptyHome => "empty $HOME"
  | .cpu raw => "unknown CPU " ++ debug raw
  | .noProfile => "USERPROFILE is not set"

/-- The names of a Windows system whose login shell found a `uname`. -/
def windowsKernels : List Text := ["MINGW".toList, "MSYS".toList, "CYGWIN".toList]

def posixOf : Option (List Text) → Except DetectError (Option (Os × String × Text))
  | none | some [] => .ok none
  | some [uname, home] =>
    if windowsKernels.any (·.isPrefixOf (asciiUpper uname)) then .ok none
    else match parseUname uname with
      | none => .error (.system uname)
      | some (os, arch) => if home = [] then .error .emptyHome else .ok (some (os, arch, home))
  | some lines => .error (.unexpected lines)

/-- System, CPU and home; nothing if the output is not from a POSIX shell. -/
def parsePosixDetect (out : Text) : Except DetectError (Option (Os × String × Text)) :=
  posixOf (markedLines out)

def windowsOf (out : Text) : Option (List Text) → Except DetectError (String × Text)
  | none => .error (.unmarked out)
  | some [raw, home] =>
    match normalizeArch raw with
    | none => .error (.cpu raw)
    | some arch =>
      if home = [] ∨ asciiLower home = "%userprofile%" then .error .noProfile
      else .ok (arch, home)
  | some lines => .error (.unexpected lines)

/-- CPU and home of a Windows host. -/
def parseWindowsDetect (out : Text) : Except DetectError (String × Text) :=
  windowsOf out (markedLines out)

/-- A line with its end, which may be that of another system. -/
def ended (line : Text) (crlf : Bool) : Text :=
  Lines.terminate '\n' (if crlf then line ++ ['\r'] else line)

/-- A line between the marks. -/
structure BlockLine where
  text : Text
  crlf : Bool
  oneLine : '\n' ∉ text
  inside : trim text ≠ endMark

/-- What the command prints; each mark has an end of its own. -/
def printed (crlf crlf' : Bool) (lines : List BlockLine) : Text :=
  ended beginMark crlf ++ lines.flatMap (fun l => ended l.text l.crlf) ++ ended endMark crlf'

/-- What was printed after the last newline is blank. -/
def BlankEnd (noise : Text) : Prop := ∀ c ∈ Lines.rest '\n' noise, isWhiteSpace c

/-- Both detections find the same with the noise and without it. -/
def Same (noise out later : Text) : Prop :=
  parsePosixDetect (noise ++ out ++ later) = parsePosixDetect out ∧
    parseWindowsDetect (noise ++ out ++ later) = parseWindowsDetect out

section Trim

variable {line : Text}

theorem trim_blank_append {blank : Text} (h : ∀ c ∈ blank, isWhiteSpace c) :
    trim (blank ++ line) = trim line := by
  rw [trim, List.dropWhile_append_of_pos h, trim]

@[simp] theorem trim_cons {c : Char} (h : isWhiteSpace c) : trim (c :: line) = trim line := by
  simp [trim, h]

theorem trim_append_blank {blank : Text} (h : ∀ c ∈ blank, isWhiteSpace c) :
    trim (line ++ blank) = trim line := by
  induction line with
  | nil =>
    rw [List.nil_append, ← List.append_nil blank]
    exact trim_blank_append h
  | cons c line ih =>
    by_cases hc : isWhiteSpace c
    · rw [List.cons_append, trim_cons hc, trim_cons hc, ih]
    · have hreverse : ∀ b ∈ blank.reverse, isWhiteSpace b :=
        fun b hb => h b (List.mem_reverse.mp hb)
      have hcons : ∀ rest, (c :: rest).dropWhile isWhiteSpace = c :: rest :=
        fun rest => List.dropWhile_cons_of_neg hc
      rw [trim, trim, List.cons_append, hcons, hcons, ← List.cons_append, List.reverse_append,
        List.dropWhile_append_of_pos hreverse]

theorem trim_infix : trim line <:+: line := by
  have hend : trim line <+: line.dropWhile isWhiteSpace := by
    rw [trim, ← List.reverse_suffix, List.reverse_reverse]
    exact List.dropWhile_suffix _
  exact hend.isInfix.trans (List.dropWhile_suffix _).isInfix

theorem trim_dropCr : trim (Lines.dropCr '\r' line) = trim line := by
  rw [Lines.dropCr]
  split_ifs with h
  · conv_rhs => rw [← List.dropLast_append_getLast? '\r' h]
    exact (trim_append_blank (by simp [isWhiteSpace])).symm
  · rfl

theorem trim_beginMark : trim beginMark = beginMark := by decide

theorem trim_endMark : trim endMark = endMark := by decide

/-- What stands before a mark is trimmed away if it is blank, and only then. -/
theorem trim_append_beginMark : trim (line ++ beginMark) = beginMark ↔
    ∀ c ∈ line, isWhiteSpace c := by
  constructor
  · intro h
    induction line with
    | nil => simp
    | cons c line ih =>
      by_cases hc : isWhiteSpace c
      · rw [List.cons_append, trim_cons hc] at h
        exact List.forall_mem_cons.mpr ⟨hc, ih h⟩
      · have hlong : trim (c :: line ++ beginMark) = c :: line ++ beginMark := by
          have hend : (c :: line ++ beginMark).reverse.dropWhile isWhiteSpace =
              (c :: line ++ beginMark).reverse := by
            rw [List.reverse_append]
            rfl
          rw [trim, List.cons_append, List.dropWhile_cons_of_neg hc, ← List.cons_append, hend,
            List.reverse_reverse]
        have hlen := congrArg List.length (hlong.symm.trans h)
        simp only [List.length_append, List.length_cons] at hlen
        omega
  · intro h
    rw [trim_blank_append h, trim_beginMark]

end Trim

section Lines

variable {line noise later : Text} {crlf crlf' : Bool} {ls inner : List Text}
  {lines : List BlockLine}

theorem trimmed_flatMap_append (h : ∀ line ∈ ls, '\n' ∉ line) (rest : Text) :
    trimmed (ls.flatMap (Lines.terminate '\n') ++ rest) = ls.map trim ++ trimmed rest := by
  rw [trimmed, Lines.lines_flatMap_append _ _ h, List.map_append, List.map_map, trimmed]
  congr 1
  exact List.map_congr_left fun _ _ => trim_dropCr

theorem trimmed_ended_append (h : '\n' ∉ line) (rest : Text) :
    trimmed (ended line crlf ++ rest) = trim line :: trimmed rest := by
  have hone : ∀ line', '\n' ∉ line' → trimmed (Lines.terminate '\n' line' ++ rest) =
      trim line' :: trimmed rest := by
    intro line' h'
    have hall := trimmed_flatMap_append (List.forall_mem_singleton.mpr h') rest
    rwa [List.flatMap_singleton] at hall
  rw [ended]
  split_ifs
  · rw [hone _ (by simpa using h), trim_append_blank (by simp [isWhiteSpace])]
  · exact hone _ h

theorem trimmed_block_append (rest : Text) :
    trimmed (lines.flatMap (fun l => ended l.text l.crlf) ++ rest) =
      lines.map (fun l => trim l.text) ++ trimmed rest := by
  induction lines with
  | nil => rfl
  | cons l lines ih =>
    rw [List.flatMap_cons, List.append_assoc, trimmed_ended_append l.oneLine, ih, List.map_cons,
      List.cons_append]

/-- The first mark may stand behind what was printed before it. -/
theorem trimmed_printed (crlf crlf' : Bool) (lines : List BlockLine) (h : '\n' ∉ line)
    (later : Text) :
    trimmed (line ++ printed crlf crlf' lines ++ later) =
      trim (line ++ beginMark) ::
        (lines.map (fun l => trim l.text) ++ endMark :: trimmed later) := by
  have hmark : line ++ ended beginMark crlf = ended (line ++ beginMark) crlf := by
    cases crlf <;> simp [ended, Lines.terminate]
  have hno : '\n' ∉ line ++ beginMark := by simpa [h] using (by decide : '\n' ∉ beginMark)
  rw [printed, ← List.append_assoc, ← List.append_assoc, hmark, List.append_assoc,
    List.append_assoc, trimmed_ended_append hno, trimmed_block_append,
    trimmed_ended_append (by decide), trim_endMark]

theorem untilEnd_append (h : endMark ∉ inner) (rest : List Text) :
    untilEnd (inner ++ endMark :: rest) = some inner := by
  induction inner with
  | nil => rfl
  | cons line inner ih =>
    rw [List.mem_cons, not_or] at h
    rw [List.cons_append, untilEnd, if_neg (Ne.symm h.1), ih h.2]
    rfl

theorem block_append (hpre : beginMark ∉ ls) (h : endMark ∉ inner) (rest : List Text) :
    block (ls ++ beginMark :: (inner ++ endMark :: rest)) = some inner := by
  have hdrop : ∀ line ∈ ls, decide (line ≠ beginMark) = true := by
    intro line hl
    rw [decide_eq_true_eq]
    rintro rfl
    exact hpre hl
  rw [block, List.dropWhile_append_of_pos hdrop, List.dropWhile_cons_of_neg (by simp),
    List.tail_cons, untilEnd_append h]

/-- Without its begin mark a block is lost, or cut. -/
theorem block_lost (hpre : beginMark ∉ ls) (h : endMark ∉ inner) {rest r : List Text}
    (hrest : beginMark ∉ rest) (hr : block (ls ++ (inner ++ endMark :: rest)) = some r) :
    r.length < inner.length := by
  by_cases hm : beginMark ∈ inner
  · obtain ⟨before, after, rfl, hbefore⟩ := List.eq_append_cons_of_mem hm
    have hcut : ls ++ (before ++ beginMark :: after ++ endMark :: rest) =
        (ls ++ before) ++ beginMark :: (after ++ endMark :: rest) := by simp
    rw [hcut, block_append (by simp [hpre, hbefore]) (by simp_all)] at hr
    cases hr
    simp only [List.length_append, List.length_cons]
    omega
  · have hnone : (ls ++ (inner ++ endMark :: rest)).dropWhile (· ≠ beginMark) = [] := by
      rw [List.dropWhile_eq_nil_iff]
      intro line hl
      rw [decide_eq_true_eq]
      rintro rfl
      have hends : beginMark ≠ endMark := by decide
      simp only [List.mem_append, List.mem_cons, hpre, hm, hends, hrest, or_self] at hl
    rw [block, hnone] at hr
    cases hr

/-- A text without the mark has no line that is the mark. -/
theorem beginMark_notMem (h : ¬beginMark <:+: noise) : beginMark ∉ trimmed noise := by
  intro hm
  obtain ⟨line, hl, hline⟩ := List.mem_map.mp hm
  exact h (hline ▸ trim_infix.trans (Lines.infix_of_mem_lines hl))

end Lines

section Results

variable {out out' : Text} {r : Option (List Text)} {ls : List Text}

/-- Two lines are read, one way or the other. -/
theorem windowsOf_pair {raw home : Text} :
    (∀ lines, windowsOf out (some [raw, home]) ≠ .error (.unexpected lines)) ∧
      ∀ text, windowsOf out (some [raw, home]) ≠ .error (.unmarked text) := by
  simp only [windowsOf]
  split
  · simp
  · split_ifs <;> simp

/-- The output is looked at only where there are no marks. -/
theorem windowsOf_some : windowsOf out (some ls) = windowsOf out' (some ls) := by
  rcases ls with _ | ⟨raw, _ | ⟨home, _ | ⟨line, lines⟩⟩⟩ <;> rfl

theorem windowsOf_unexpected (out : Text) : windowsOf out r = .error (.unexpected ls) ↔
    r = some ls ∧ ls.length ≠ 2 := by
  rcases r with _ | (_ | ⟨raw, _ | ⟨home, _ | ⟨line, lines⟩⟩⟩)
  · simp [windowsOf]
  · simp only [windowsOf, Except.error.injEq, DetectError.unexpected.injEq, Option.some.injEq]
    exact ⟨fun h => ⟨h, by simp [← h]⟩, fun h => h.1⟩
  · simp only [windowsOf, Except.error.injEq, DetectError.unexpected.injEq, Option.some.injEq]
    exact ⟨fun h => ⟨h, by simp [← h]⟩, fun h => h.1⟩
  · constructor
    · exact fun h => (windowsOf_pair.1 ls h).elim
    · rintro ⟨h, hlen⟩
      cases h
      exact absurd rfl hlen
  · simp only [windowsOf, Except.error.injEq, DetectError.unexpected.injEq, Option.some.injEq]
    exact ⟨fun h => ⟨h, by simp [← h]⟩, fun h => h.1⟩

/-- A block that is lost or cut is not taken for the whole one. -/
theorem windowsOf_ne (h : ∀ r', r = some r' → r'.length < ls.length) :
    windowsOf out r ≠ windowsOf out' (some ls) := by
  intro heq
  by_cases hlen : ls.length = 2
  · obtain ⟨raw, home, rfl⟩ := List.length_eq_two.mp hlen
    cases r with
    | none => exact windowsOf_pair.2 out heq.symm
    | some r' =>
      have hshort := h r' rfl
      have hr' := (windowsOf_unexpected out).mpr ⟨rfl, Nat.ne_of_lt hshort⟩
      exact windowsOf_pair.1 r' (heq.symm.trans hr')
  · have hls := (windowsOf_unexpected out).mp
      (heq.trans ((windowsOf_unexpected out').mpr ⟨rfl, hlen⟩))
    exact absurd (h ls hls.1) (Nat.lt_irrefl _)

end Results

section Noise

variable {noise later : Text} {crlf crlf' : Bool} {lines : List BlockLine}

def BlockLine.trimmed (lines : List BlockLine) : List Text := lines.map fun l => trim l.text

theorem endMark_notMem : endMark ∉ BlockLine.trimmed lines := by
  intro h
  obtain ⟨l, -, hl⟩ := List.mem_map.mp h
  exact l.inside hl

/-- Without noise the lines between the marks are found. -/
theorem markedLines_printed :
    markedLines (printed crlf crlf' lines) = some (BlockLine.trimmed lines) := by
  have h := trimmed_printed crlf crlf' lines (List.not_mem_nil (a := '\n')) []
  rw [List.nil_append, List.append_nil, List.nil_append, trim_beginMark] at h
  rw [markedLines, h]
  exact block_append (List.not_mem_nil (a := beginMark)) endMark_notMem _

/-- The lines with the noise: those before its end, the one with the first mark, and the rest. -/
theorem trimmed_noise (crlf crlf' : Bool) (lines : List BlockLine) (noise later : Text)
    (h : ¬beginMark <:+: noise) :
    ∃ before, beginMark ∉ before ∧ trimmed (noise ++ printed crlf crlf' lines ++ later) =
      before ++ trim (Lines.rest '\n' noise ++ beginMark) ::
        (BlockLine.trimmed lines ++ endMark :: trimmed later) := by
  obtain ⟨ls, left, hls, hleft, rfl⟩ := Lines.exists_lines '\n' noise
  refine ⟨ls.map trim, ?_, ?_⟩
  · have hno := beginMark_notMem h
    rw [trimmed_flatMap_append hls, List.mem_append, not_or] at hno
    exact hno.1
  · rw [Lines.rest_append hleft, List.append_assoc, List.append_assoc,
      trimmed_flatMap_append hls, ← List.append_assoc left, trimmed_printed crlf crlf' lines hleft]
    rfl

theorem same_of_blankEnd (h : ¬beginMark <:+: noise) (hb : BlankEnd noise) :
    Same noise (printed crlf crlf' lines) later := by
  obtain ⟨before, hbefore, hlines⟩ :=
    trimmed_noise crlf crlf' lines noise later h
  have hmarked : markedLines (noise ++ printed crlf crlf' lines ++ later) =
      some (BlockLine.trimmed lines) := by
    rw [markedLines, hlines, trim_append_beginMark.mpr hb]
    exact block_append hbefore endMark_notMem _
  constructor
  · rw [parsePosixDetect, parsePosixDetect, hmarked, markedLines_printed]
  · rw [parseWindowsDetect, parseWindowsDetect, hmarked, markedLines_printed]
    exact windowsOf_some

theorem blankEnd_of_same (h : ¬beginMark <:+: noise) (hl : ¬beginMark <:+: later)
    (hs : Same noise (printed crlf crlf' lines) later) : BlankEnd noise := by
  obtain ⟨before, hbefore, hlines⟩ :=
    trimmed_noise crlf crlf' lines noise later h
  by_contra hb
  have hmark := mt trim_append_beginMark.mp hb
  refine windowsOf_ne (fun r hr => ?_) (hs.2.trans (by rw [parseWindowsDetect, markedLines_printed]))
  rw [markedLines, hlines, ← List.singleton_append, ← List.append_assoc] at hr
  exact block_lost (by simp [hbefore, Ne.symm hmark]) endMark_notMem (beginMark_notMem hl) hr

/-- Whatever is printed before and after, as long as the last line before the first mark is blank
or ended, both detections find what they find without it; and where the text after does not hold a
begin mark, only then. -/
theorem noise_ignored (noise later : Text) (crlf crlf' : Bool) (lines : List BlockLine)
    (h : ¬beginMark <:+: noise) :
    (BlankEnd noise → Same noise (printed crlf crlf' lines) later) ∧
      (¬beginMark <:+: later →
        (Same noise (printed crlf crlf' lines) later ↔ BlankEnd noise)) :=
  ⟨same_of_blankEnd h, fun hl => ⟨blankEnd_of_same h hl, same_of_blankEnd h⟩⟩

end Noise

/-- What a shell may leave before the first mark: it sets the colours back. -/
def colours : Text := "\x1b[0m".toList

/-- The answer of a Linux host. -/
def answer : List BlockLine :=
  [⟨"Linux x86_64".toList, false, by decide, by decide⟩,
    ⟨"/home/u".toList, false, by decide, by decide⟩]

/-- Lines of noise around an answer. -/
theorem noise_ignored_lines :
    Same "Welcome!\n".toList (printed false true answer) "bye\n".toList :=
  (noise_ignored "Welcome!\n".toList "bye\n".toList false true answer (by decide)).1
    (by simp [BlankEnd, Lines.rest])

/-- The colours hide the first mark, and the host is not taken for a POSIX one. -/
theorem not_always_ignored : ¬∀ (noise later : Text) (crlf crlf' : Bool) (lines : List BlockLine),
    ¬beginMark <:+: noise → Same noise (printed crlf crlf' lines) later := by
  intro h
  have hsame := (h colours [] false false answer (by decide)).1
  have hlost : parsePosixDetect (colours ++ printed false false answer ++ []) = .ok none := by
    decide
  have hfound : parsePosixDetect (printed false false answer) =
      .ok (some (.linux, "x86_64", "/home/u".toList)) := by
    decide
  rw [hlost, hfound] at hsame
  cases hsame

end MultiAi.Detect
