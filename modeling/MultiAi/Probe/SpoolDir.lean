import MultiAi.Library.Json
import MultiAi.Library.Named
import MultiAi.Library.Split
import MultiAi.Library.Utf8
import MultiAi.Probe.Spool
import MultiAi.Protocol.Client

/-! # The directory of the spool

Day files, acknowledged cursors and files that are being written lie in one directory, under names
made of a day, a client and a process. Several processes work on it, each step of theirs by
itself, and any of them may die between two steps.
-/

namespace MultiAi.Spool

open Std

/-- What a file of the spool is for. -/
inductive FileKey where
  | day (day : UInt64)
  | ack (id : ClientId)
  | tmp (id : ClientId) (pid : ℕ)
  deriving DecidableEq

def dayFile (day : ℕ) : String := toString day ++ ".jsonl"

def ackFile (id : ClientId) : String := if id.val.isEmpty then "ack" else "ack-" ++ id.val

/-- The file that a cursor is written to before it gets its name. -/
def tmpFile (id : ClientId) (pid : ℕ) : String := ackFile id ++ "." ++ toString pid ++ ".tmp"

def FileKey.name : FileKey → String
  | .day d => dayFile d.toNat
  | .ack id => ackFile id
  | .tmp id pid => tmpFile id pid

/-- A `u64` as the standard library reads one: its digits may have a `+` before them. -/
def parseU64 (text : List Char) : Option ℕ :=
  (Json.readNat (if text.head? = some '+' then text.tail else text)).filter (· < 2 ^ 64)

/-- The text before a suffix. -/
def stripSuffix (suffix text : List Char) : Option (List Char) :=
  if suffix <:+ text then some (text.take (text.length - suffix.length)) else none

/-- The day of a file, if its name is that of a day. -/
def dayOfName (name : String) : Option ℕ := (stripSuffix ".jsonl".toList name.toList).bind parseU64

abbrev Dir := ExtTreeMap String (List UInt8)

namespace Dir

/-- Spool days present on disk, ascending. -/
def days (dir : Dir) : List ℕ := (dir.keys.filterMap dayOfName).mergeSort (· ≤ ·)

/-- Last cursor acknowledged by the app; 0 when none. -/
def loadAck (dir : Dir) (id : ClientId) : ℕ :=
  ((dir[ackFile id]?.bind Utf8.decode?).bind fun text => parseU64 (HookMap.trim text.toList)).getD 0

/-- Add a line to the file of a day. -/
def addLine (dir : Dir) (day : ℕ) (line : List UInt8) : Dir :=
  dir.insert (dayFile day) (dir[dayFile day]?.getD [] ++ line)

end Dir

/-- The bytes of a cursor. -/
def cursorBytes (cursor : UInt64) : List UInt8 := Utf8.encode (toString cursor.toNat).toList

/-- The days that a clean-up removes. -/
def expired (now keepDays : ℕ) (days : List ℕ) : List ℕ :=
  days.filter fun day => (day + keepDays) % 2 ^ 64 < now / dayMs

/-- A step of a process on the directory. A cursor is written to a file of its own, whole or not,
and then this file is renamed; a clean-up removes so many of the days that it is to remove. -/
inductive DirStep where
  | append (day : UInt64) (line : List UInt8)
  | write (pid : ℕ) (id : ClientId) (cursor : UInt64)
  | tear (pid : ℕ) (id : ClientId) (left : List UInt8)
  | rename (pid : ℕ)
  | die (pid : ℕ)
  | cleanup (now keepDays removed : ℕ)

/-- The directory, and the cursors that processes have written and not yet renamed. -/
structure DirState where
  dir : Dir
  writing : ℕ → Option (ClientId × UInt64)

def DirState.start : DirState := ⟨∅, fun _ => none⟩

def DirState.step (s : DirState) : DirStep → DirState
  | .append day line => { s with dir := s.dir.addLine day.toNat line }
  | .write pid id cursor =>
    ⟨s.dir.insert (tmpFile id pid) (cursorBytes cursor),
      Function.update s.writing pid (some (id, cursor))⟩
  | .tear pid id left =>
    ⟨s.dir.insert (tmpFile id pid) left, Function.update s.writing pid none⟩
  | .rename pid =>
    match s.writing pid with
    | none => s
    | some (id, _) =>
      match s.dir[tmpFile id pid]? with
      | none => s
      | some bytes => ⟨(s.dir.erase (tmpFile id pid)).insert (ackFile id) bytes,
          Function.update s.writing pid none⟩
  | .die pid => { s with writing := Function.update s.writing pid none }
  | .cleanup now keepDays removed => { s with
      dir := ((expired now keepDays s.dir.days).take removed).foldl
        (fun dir day => dir.erase (dayFile day)) s.dir }

/-- The spool as it is meant: the files by day and the cursor of each client. -/
structure Store where
  files : Files
  acks : ClientId → Option UInt64
  writing : ℕ → Option (ClientId × UInt64)

def Store.start : Store := ⟨∅, fun _ => none, fun _ => none⟩

def Store.step (s : Store) : DirStep → Store
  | .append day line => { s with
      files := s.files.insert day.toNat (s.files[day.toNat]?.getD [] ++ line) }
  | .write pid id cursor => { s with writing := Function.update s.writing pid (some (id, cursor)) }
  | .tear pid _ _ | .die pid => { s with writing := Function.update s.writing pid none }
  | .rename pid =>
    match s.writing pid with
    | none => s
    | some (id, cursor) => { s with
        acks := Function.update s.acks id (some cursor)
        writing := Function.update s.writing pid none }
  | .cleanup now keepDays removed => { s with
      files := ((expired now keepDays s.files.keys).take removed).foldl (·.erase ·) s.files }

section Names

theorem toString_inj {m n : ℕ} (h : (toString m).toList = (toString n).toList) : m = n := by
  have hm := Json.readNat_toString m
  rw [h, Json.readNat_toString] at hm
  exact (Option.some.inj hm).symm

theorem dot_notMem_ackFile (id : ClientId) : '.' ∉ (ackFile id).toList := by
  rw [ackFile]
  split_ifs
  · decide
  · rw [String.toList_append, List.mem_append, not_or]
    exact ⟨by decide, id.notMem (by decide)⟩

theorem dot_mem_dayFile (d : ℕ) : '.' ∈ (dayFile d).toList := by
  simp [dayFile]

theorem dot_mem_tmpFile (id : ClientId) (pid : ℕ) : '.' ∈ (tmpFile id pid).toList := by
  simp [tmpFile]

theorem ackFile_inj {id id' : ClientId} (h : ackFile id = ackFile id') : id = id' := by
  have hlen : ∀ i : String, "ack" ≠ "ack-" ++ i := by
    intro i h
    have := congrArg (fun s => s.toList.length) h
    simp at this
  apply Subtype.ext
  rw [ackFile, ackFile] at h
  split_ifs at h with hi hi'
  · rw [String.isEmpty_iff] at hi hi'
    rw [hi, hi']
  · exact (hlen _ h).elim
  · exact (hlen _ h.symm).elim
  · exact String.append_right_inj _ |>.mp h

theorem toList_tmpFile (id : ClientId) (pid : ℕ) : (tmpFile id pid).toList =
    (ackFile id).toList ++ '.' :: ((toString pid).toList ++ ".tmp".toList) := by
  simp [tmpFile]

theorem tmpFile_inj {id id' : ClientId} {pid pid' : ℕ} (h : tmpFile id pid = tmpFile id' pid') :
    id = id' ∧ pid = pid' := by
  rw [← String.toList_inj, toList_tmpFile, toList_tmpFile] at h
  obtain ⟨hid, hpid⟩ :=
    Split.append_inj_of_notMem h (dot_notMem_ackFile id) (dot_notMem_ackFile id')
  exact ⟨ackFile_inj (String.toList_inj.mp hid), toString_inj (List.append_cancel_right hpid)⟩

theorem dayFile_ne_tmpFile (d : ℕ) (id : ClientId) (pid : ℕ) : dayFile d ≠ tmpFile id pid := by
  intro h
  have hday : (dayFile d).toList.getLast? = some 'l' := by
    rw [dayFile, String.toList_append, List.getLast?_append]
    rfl
  have htmp : (tmpFile id pid).toList.getLast? = some 'p' := by
    rw [tmpFile, String.toList_append, List.getLast?_append]
    rfl
  rw [h, htmp] at hday
  cases hday

theorem dayFile_inj {d d' : ℕ} (h : dayFile d = dayFile d') : d = d' := by
  rw [← String.toList_inj, dayFile, dayFile, String.toList_append, String.toList_append] at h
  exact toString_inj (List.append_cancel_right h)

theorem name_injective : Function.Injective FileKey.name := by
  rintro (d | id | ⟨id, pid⟩) (d' | id' | ⟨id', pid'⟩) h <;> simp only [FileKey.name] at h
  · rw [UInt64.toNat_inj.mp (dayFile_inj h)]
  · exact absurd (h ▸ dot_mem_dayFile _) (dot_notMem_ackFile id')
  · exact absurd h (dayFile_ne_tmpFile _ _ _)
  · exact absurd (h ▸ dot_mem_dayFile _) (dot_notMem_ackFile id)
  · rw [ackFile_inj h]
  · exact absurd (h ▸ dot_mem_tmpFile _ _) (dot_notMem_ackFile id)
  · exact absurd h.symm (dayFile_ne_tmpFile _ _ _)
  · exact absurd (h ▸ dot_mem_tmpFile _ _) (dot_notMem_ackFile id')
  · obtain ⟨rfl, rfl⟩ := tmpFile_inj h
    rfl

end Names

section Listing

theorem digits_toString {n : ℕ} {c : Char} (h : c ∈ (toString n).toList) : c.isDigit = true := by
  have hlist : (toString n).toList = Nat.toDigits 10 n := Nat.toList_repr
  rw [hlist] at h
  exact Nat.isDigit_of_mem_toDigits (by decide) (by decide) h

theorem parseU64_toString {n : ℕ} (h : n < 2 ^ 64) : parseU64 (toString n).toList = some n := by
  have hhead : (toString n).toList.head? ≠ some '+' := fun hp =>
    absurd (digits_toString (List.mem_of_mem_head? hp)) (by decide)
  rw [parseU64, if_neg hhead, Json.readNat_toString, Option.filter_some, if_pos (by simpa using h)]

theorem stripSuffix_append (text suffix : List Char) :
    stripSuffix suffix (text ++ suffix) = some text := by
  rw [stripSuffix, if_pos (List.suffix_append text suffix)]
  simp

theorem dayOfName_dayFile (d : UInt64) : dayOfName (dayFile d.toNat) = some d.toNat := by
  rw [dayOfName, dayFile, String.toList_append, stripSuffix_append, Option.bind_some]
  exact parseU64_toString d.toNat_lt

theorem dayOfName_of_not_suffix {name : String} (h : ¬ ".jsonl".toList <:+ name.toList) :
    dayOfName name = none := by
  rw [dayOfName, stripSuffix, if_neg h]
  rfl

theorem dayOfName_name (k : FileKey) : dayOfName k.name = match k with
    | .day d => some d.toNat
    | _ => none := by
  cases k with
  | day d => exact dayOfName_dayFile d
  | ack id =>
    refine dayOfName_of_not_suffix fun h => dot_notMem_ackFile id (h.subset ?_)
    decide
  | tmp id pid =>
    refine dayOfName_of_not_suffix fun h => ?_
    have hlast : (tmpFile id pid).toList.getLast? = some 'p' := by
      rw [tmpFile, String.toList_append, List.getLast?_append]
      rfl
    obtain ⟨text, ht⟩ := h
    change text ++ _ = (tmpFile id pid).toList at ht
    rw [← ht, List.getLast?_append] at hlast
    cases hlast

theorem not_isWhiteSpace_of_isDigit {c : Char} (h : c.isDigit = true) :
    HookMap.isWhiteSpace c = false := by
  have hd : 48 ≤ c.toNat ∧ c.toNat ≤ 57 := by
    simpa [Char.isDigit, UInt32.le_iff_toNat_le] using h
  simp only [HookMap.isWhiteSpace, Bool.or_eq_false_iff, Bool.and_eq_false_iff,
    decide_eq_false_iff_not, List.mem_cons, List.not_mem_nil, or_false]
  omega

theorem trim_digits {text : List Char} (h : ∀ c ∈ text, c.isDigit = true) :
    HookMap.trim text = text := by
  have hdrop : ∀ l : List Char, (∀ c ∈ l, c.isDigit = true) →
      l.dropWhile HookMap.isWhiteSpace = l := by
    intro l hl
    cases l with
    | nil => rfl
    | cons c l =>
      rw [List.dropWhile_cons_of_neg]
      rw [not_isWhiteSpace_of_isDigit (hl c List.mem_cons_self)]
      decide
  rw [HookMap.trim, hdrop text h, hdrop _ fun c hc => h c (List.mem_reverse.mp hc),
    List.reverse_reverse]

theorem parse_cursorBytes (cursor : UInt64) : ((Utf8.decode? (cursorBytes cursor)).bind fun text =>
    parseU64 (HookMap.trim text.toList)) = some cursor.toNat := by
  rw [cursorBytes, Utf8.decode?_encode, Option.bind_some, trim_digits fun c => digits_toString]
  exact parseU64_toString cursor.toNat_lt

end Listing

section Simulation

variable {s : DirState} {a : Store} {tmps : ClientId → ℕ → Option (List UInt8)}

/-- What the files are for. -/
def Store.content (a : Store) (tmps : ClientId → ℕ → Option (List UInt8)) :
    FileKey → Option (List UInt8)
  | .day d => a.files[d.toNat]?
  | .ack id => (a.acks id).map cursorBytes
  | .tmp id pid => tmps id pid

/-- The directory holds the day files and the acknowledged cursors, and what is being written. -/
structure Sim (s : DirState) (a : Store) (tmps : ClientId → ℕ → Option (List UInt8)) : Prop where
  holds : Named.Holds FileKey.name s.dir (a.content tmps)
  writing : s.writing = a.writing
  written : ∀ pid id cursor, a.writing pid = some (id, cursor) →
    tmps id pid = some (cursorBytes cursor)
  days : ∀ d ∈ a.files, d < 2 ^ 64

theorem Sim.start : Sim .start .start fun _ _ => none where
  holds := by
    have h : Store.start.content (fun _ _ => none) = fun _ => none := by
      funext k
      cases k <;> simp [Store.content, Store.start]
    rw [h]
    exact .empty
  writing := rfl
  written _ _ _ h := by cases h
  days d h := by simp [Store.start] at h

theorem Sim.file (h : Sim s a tmps) (d : UInt64) : s.dir[dayFile d.toNat]? = a.files[d.toNat]? :=
  h.holds.file (.day d)

theorem Sim.loadAck (h : Sim s a tmps) (id : ClientId) :
    s.dir.loadAck id = ((a.acks id).map UInt64.toNat).getD 0 := by
  have hfile : s.dir[ackFile id]? = (a.acks id).map cursorBytes := h.holds.file (.ack id)
  rw [Dir.loadAck, hfile]
  cases a.acks id with
  | none => rfl
  | some cursor =>
    rw [Option.map_some, Option.bind_some, parse_cursorBytes]
    rfl

/-- The name of a day is that of a file of the day. -/
theorem Sim.named (h : Sim s a tmps) {name : String} (hn : name ∈ s.dir.keys) {d : ℕ}
    (hd : dayOfName name = some d) : name = dayFile d ∧ d ∈ a.files := by
  rw [ExtTreeMap.mem_keys] at hn
  obtain ⟨k, rfl⟩ := h.holds.names name hn
  rw [dayOfName_name] at hd
  cases k with
  | day d' =>
    cases hd
    refine ⟨rfl, ?_⟩
    rw [ExtTreeMap.mem_iff_isSome_getElem?, ← h.file]
    exact ExtTreeMap.mem_iff_isSome_getElem?.mp hn
  | ack id => cases hd
  | tmp id pid => cases hd

theorem Sim.mem_listed (h : Sim s a tmps) (d : ℕ) :
    d ∈ s.dir.keys.filterMap dayOfName ↔ d ∈ a.files.keys := by
  rw [List.mem_filterMap, ExtTreeMap.mem_keys]
  constructor
  · rintro ⟨name, hn, hd⟩
    exact (h.named hn hd).2
  · intro hd
    have hnat : (UInt64.ofNat d).toNat = d := UInt64.toNat_ofNat_of_lt' (h.days d hd)
    refine ⟨dayFile d, ?_, ?_⟩
    · rw [ExtTreeMap.mem_keys, ExtTreeMap.mem_iff_isSome_getElem?, ← hnat, h.file, hnat]
      exact ExtTreeMap.mem_iff_isSome_getElem?.mp hd
    · have := dayOfName_dayFile (UInt64.ofNat d)
      rwa [hnat] at this

/-- The days listed are those of the files that are meant. -/
theorem Sim.listed (h : Sim s a tmps) : s.dir.days = a.files.keys := by
  have hnodup : (s.dir.keys.filterMap dayOfName).Nodup := by
    rw [List.Nodup, List.pairwise_filterMap]
    refine ExtTreeMap.nodup_keys.imp_of_mem ?_
    intro name name' hn hn' hne d hd d' hd' heq
    exact hne ((h.named hn hd).1.trans (heq ▸ (h.named hn' hd').1.symm))
  have hperm : s.dir.days.Perm a.files.keys :=
    (List.mergeSort_perm ..).trans
      ((List.perm_ext_iff_of_nodup hnodup ExtTreeMap.nodup_keys).mpr h.mem_listed)
  refine List.Perm.eq_of_pairwise (fun d d' _ _ => Nat.le_antisymm) ?_ ?_ hperm
  · refine (List.pairwise_mergeSort (fun d d' d'' => ?_) (fun d d' => ?_) _).imp ?_
    · simpa using Nat.le_trans
    · simpa using Nat.le_total d d'
    · simp
  · exact (keys_sorted a.files).imp Nat.le_of_lt

theorem content_insert (a : Store) (tmps : ClientId → ℕ → Option (List UInt8)) (d : UInt64)
    (bytes : List UInt8) : Function.update (a.content tmps) (.day d) (some bytes) =
      { a with files := a.files.insert d.toNat bytes }.content tmps := by
  funext k
  cases k with
  | day d' =>
    simp only [Function.update_apply, FileKey.day.injEq, Store.content,
      ExtTreeMap.getElem?_insert, LawfulEqCmp.compare_eq_iff_eq, UInt64.toNat_inj]
    simp only [eq_comm]
  | ack id => rfl
  | tmp id pid => rfl

theorem content_erase (a : Store) (tmps : ClientId → ℕ → Option (List UInt8)) (d : UInt64) :
    Function.update (a.content tmps) (.day d) none =
      { a with files := a.files.erase d.toNat }.content tmps := by
  funext k
  cases k with
  | day d' =>
    simp only [Function.update_apply, FileKey.day.injEq, Store.content,
      ExtTreeMap.getElem?_erase, LawfulEqCmp.compare_eq_iff_eq, UInt64.toNat_inj]
    simp only [eq_comm]
  | ack id => rfl
  | tmp id pid => rfl

/-- A file that is being written. -/
def setTmp (tmps : ClientId → ℕ → Option (List UInt8)) (id : ClientId) (pid : ℕ)
    (bytes : Option (List UInt8)) : ClientId → ℕ → Option (List UInt8) :=
  fun id' pid' => if id' = id ∧ pid' = pid then bytes else tmps id' pid'

theorem content_tmp (a : Store) (tmps : ClientId → ℕ → Option (List UInt8)) (id : ClientId)
    (pid : ℕ) (bytes : Option (List UInt8)) :
    Function.update (a.content tmps) (.tmp id pid) bytes =
      a.content (setTmp tmps id pid bytes) := by
  funext k
  cases k with
  | tmp id' pid' => simp only [Function.update_apply, FileKey.tmp.injEq, Store.content, setTmp]
  | day d => rfl
  | ack id' => rfl

theorem content_ack (a : Store) (tmps : ClientId → ℕ → Option (List UInt8)) (id : ClientId)
    (cursor : UInt64) :
    Function.update (a.content tmps) (.ack id) (some (cursorBytes cursor)) =
      { a with acks := Function.update a.acks id (some cursor) }.content tmps := by
  funext k
  cases k with
  | ack id' =>
    simp only [Function.update_apply, FileKey.ack.injEq, Store.content]
    split_ifs <;> rfl
  | day d => rfl
  | tmp id' pid => rfl

theorem Sim.append (h : Sim s a tmps) (d : UInt64) (line : List UInt8) :
    Sim (s.step (.append d line)) (a.step (.append d line)) tmps where
  holds := by
    have hdir : (s.step (.append d line)).dir = s.dir.insert (FileKey.day d).name
        (a.files[d.toNat]?.getD [] ++ line) := by
      rw [← h.file]
      rfl
    have hinsert := h.holds.insert name_injective (.day d) (a.files[d.toNat]?.getD [] ++ line)
    rw [content_insert] at hinsert
    rw [hdir]
    exact hinsert
  writing := h.writing
  written := h.written
  days d' hd := by
    rw [Store.step, ExtTreeMap.mem_insert, LawfulEqCmp.compare_eq_iff_eq] at hd
    rcases hd with rfl | hd
    · exact d.toNat_lt
    · exact h.days d' hd

/-- A process that is not between its two steps any more. -/
theorem Sim.settle (h : Sim s a tmps) (pid : ℕ) :
    Sim { s with writing := Function.update s.writing pid none }
      { a with writing := Function.update a.writing pid none } tmps where
  holds := h.holds
  writing := by rw [h.writing]
  written pid' id cursor hw := by
    simp only [Function.update_apply] at hw
    split_ifs at hw
    exact h.written pid' id cursor hw
  days := h.days

theorem Sim.tear (h : Sim s a tmps) (pid : ℕ) (id : ClientId) (left : List UInt8) :
    Sim (s.step (.tear pid id left)) (a.step (.tear pid id left))
      (setTmp tmps id pid (some left)) where
  holds := by
    have hinsert := h.holds.insert name_injective (.tmp id pid) left
    rw [content_tmp] at hinsert
    exact hinsert
  writing := (h.settle pid).writing
  written pid' id' cursor hw := by
    simp only [Store.step, Function.update_apply] at hw
    split_ifs at hw with hp
    rw [setTmp, if_neg fun hand => hp hand.2]
    exact h.written pid' id' cursor hw
  days := h.days

theorem Sim.write (h : Sim s a tmps) (pid : ℕ) (id : ClientId) (cursor : UInt64) :
    Sim (s.step (.write pid id cursor)) (a.step (.write pid id cursor))
      (setTmp tmps id pid (some (cursorBytes cursor))) where
  holds := by
    have hinsert := h.holds.insert name_injective (.tmp id pid) (cursorBytes cursor)
    rw [content_tmp] at hinsert
    exact hinsert
  writing := by
    rw [DirState.step, Store.step, h.writing]
  written pid' id' cursor' hw := by
    simp only [Store.step, Function.update_apply] at hw
    split_ifs at hw with hp
    · cases hw
      rw [setTmp, if_pos ⟨rfl, hp⟩]
    · rw [setTmp, if_neg fun hand => hp hand.2]
      exact h.written pid' id' cursor' hw
  days := h.days

/-- The bytes that were written get the name of the client. -/
theorem Sim.rename (h : Sim s a tmps) (pid : ℕ) :
    ∃ tmps', Sim (s.step (.rename pid)) (a.step (.rename pid)) tmps' := by
  rw [DirState.step, Store.step, h.writing]
  cases hw : a.writing pid with
  | none => exact ⟨tmps, h⟩
  | some w =>
    obtain ⟨id, cursor⟩ := w
    have hfile : s.dir[tmpFile id pid]? = some (cursorBytes cursor) :=
      (h.holds.file (.tmp id pid)).trans (h.written pid id cursor hw)
    simp only [hfile]
    have hrename := (h.holds.erase name_injective (.tmp id pid)).insert name_injective (.ack id)
      (cursorBytes cursor)
    rw [content_tmp, content_ack] at hrename
    refine ⟨setTmp tmps id pid none, hrename, ?_, ?_, h.days⟩
    · rfl
    · intro pid' id' cursor' hw'
      simp only [Function.update_apply] at hw'
      split_ifs at hw' with hp
      rw [setTmp, if_neg fun hand => hp hand.2]
      exact h.written pid' id' cursor' hw'

theorem Sim.erase (h : Sim s a tmps) (d : UInt64) :
    Sim { s with dir := s.dir.erase (dayFile d.toNat) }
      { a with files := a.files.erase d.toNat } tmps where
  holds := by
    have herase := h.holds.erase name_injective (.day d)
    rw [content_erase] at herase
    exact herase
  writing := h.writing
  written := h.written
  days d' hd := h.days d' (ExtTreeMap.mem_of_mem_erase hd)

theorem Sim.eraseAll {days : List ℕ} (hd : ∀ d ∈ days, d < 2 ^ 64) (h : Sim s a tmps) :
    Sim { s with dir := days.foldl (fun dir day => dir.erase (dayFile day)) s.dir }
      { a with files := days.foldl (·.erase ·) a.files } tmps := by
  induction days generalizing s a with
  | nil => exact h
  | cons d days ih =>
    obtain ⟨hd, hdays⟩ := List.forall_mem_cons.mp hd
    have hnat : (UInt64.ofNat d).toNat = d := UInt64.toNat_ofNat_of_lt' hd
    have herase := h.erase (UInt64.ofNat d)
    rw [hnat] at herase
    exact ih hdays herase

theorem Sim.cleanup (h : Sim s a tmps) (now keepDays removed : ℕ) :
    Sim (s.step (.cleanup now keepDays removed)) (a.step (.cleanup now keepDays removed)) tmps := by
  rw [DirState.step, Store.step, h.listed]
  refine h.eraseAll fun d hd => h.days d ?_
  exact ExtTreeMap.mem_keys.mp (List.mem_filter.mp (List.mem_of_mem_take hd)).1

theorem Sim.step (h : Sim s a tmps) (e : DirStep) :
    ∃ tmps', Sim (s.step e) (a.step e) tmps' := by
  cases e with
  | append d line => exact ⟨_, h.append d line⟩
  | write pid id cursor => exact ⟨_, h.write pid id cursor⟩
  | tear pid id left => exact ⟨_, h.tear pid id left⟩
  | rename pid => exact h.rename pid
  | die pid => exact ⟨_, h.settle pid⟩
  | cleanup now keepDays removed => exact ⟨_, h.cleanup now keepDays removed⟩

theorem Sim.run (h : Sim s a tmps) (es : List DirStep) :
    ∃ tmps', Sim (es.foldl DirState.step s) (es.foldl Store.step a) tmps' := by
  induction es generalizing s a tmps with
  | nil => exact ⟨tmps, h⟩
  | cons e es ih =>
    obtain ⟨tmps', h'⟩ := h.step e
    exact ih h'

end Simulation

/-- Whatever the processes do and wherever they die, the directory is read as the files by day
and the cursor that each client stored last; what a client or a process writes, whole or torn,
changes no other client's cursor and no day. -/
theorem dir_refines (es : List DirStep) :
    let s := es.foldl DirState.step .start
    let a := es.foldl Store.step .start
    s.dir.days = a.files.keys ∧
      (∀ d : UInt64, s.dir[dayFile d.toNat]? = a.files[d.toNat]?) ∧
      ∀ client, s.dir.loadAck (clientId client) =
        ((a.acks (clientId client)).map UInt64.toNat).getD 0 := by
  obtain ⟨tmps, h⟩ := Sim.start.run es
  exact ⟨h.listed, h.file, fun client => h.loadAck _⟩

end MultiAi.Spool
