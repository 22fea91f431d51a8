import MultiAi.Terms.Basic
import Mathlib.Logic.Relation

/-! # A local PTY

Three threads bridge a program in a PTY to the channels of the app: one applies input, one waits
for the program, one reads its output. They share a flag that says that the program was waited
for, and any of their steps may come between any two of the app or the program.
-/

namespace MultiAi.LocalPty

/-- The most that one read takes. -/
def bufLen : ℕ := 8192

/-- Where the input thread is; it drops the master when it is done. -/
inductive InputThread where
  | taking
  /-- Its loop is over; the flag is read next. -/
  | leaving
  | killing
  | done
  deriving DecidableEq

inductive Waiter where
  | waiting
  | reaped (status : Option ℕ)
  /-- The flag is set; the input thread is woken next. -/
  | flagged (status : Option ℕ)
  | done (status : Option ℕ)

inductive Reader where
  | reading
  /-- The app has no receiver any more; the flag is read next. -/
  | unheard
  | killing
  | joining
  /-- The waiter was joined. -/
  | joined (status : Option ℕ)
  | done (status : Option ℕ)

structure Pty where
  /-- The inputs that were sent and not taken. -/
  queue : List PtyIn
  /-- Whether the app has its sender, and its receiver. -/
  sender : Bool
  receiver : Bool
  /-- What was sent to the app. -/
  output : List PtyOut
  exited : Bool
  input : InputThread
  waiter : Waiter
  reader : Reader
  /-- The program has not ended. -/
  alive : Bool
  /-- What the program wrote and was not read, and whether that is the end of it. -/
  pending : List UInt8
  hup : Bool
  /-- Reading its output fails from now on, or waiting for it does. -/
  broken : Bool
  lost : Bool
  killed : Bool
  /-- All that the app sent, that was applied, and that the program wrote. -/
  asked : List PtyIn
  applied : List PtyIn
  produced : List UInt8
  writeFailed : Bool

def Pty.start : Pty where
  queue := []
  sender := true
  receiver := true
  output := []
  exited := false
  input := .taking
  waiter := .waiting
  reader := .reading
  alive := true
  pending := []
  hup := false
  broken := false
  lost := false
  killed := false
  asked := []
  applied := []
  produced := []
  writeFailed := false

/-- Steps of the app and of the program. -/
inductive Outside : Pty → Pty → Prop
  | send {s : Pty} (msg : PtyIn) : s.sender = true →
      Outside s { s with queue := s.queue ++ [msg], asked := s.asked ++ [msg] }
  | dropSender {s : Pty} : Outside s { s with sender := false }
  | dropReceiver {s : Pty} : Outside s { s with receiver := false }
  | writes {s : Pty} (d : List UInt8) : s.hup = false →
      Outside s { s with pending := s.pending ++ d, produced := s.produced ++ d }
  | hangsUp {s : Pty} : Outside s { s with hup := true }
  | ends {s : Pty} : Outside s { s with alive := false }
  | breaks {s : Pty} : Outside s { s with broken := true }
  | loses {s : Pty} : Outside s { s with lost := true }

/-- Steps of the three threads. -/
inductive Thread : Pty → Pty → Prop
  | write {s : Pty} {d : List UInt8} {queue : List PtyIn} : s.input = .taking →
      s.queue = .data d :: queue →
      Thread s { s with queue := queue, applied := s.applied ++ [.data d] }
  | writeFails {s : Pty} {d : List UInt8} {queue : List PtyIn} : s.input = .taking →
      s.queue = .data d :: queue →
      Thread s { s with queue := queue, input := .leaving, writeFailed := true }
  | resize {s : Pty} {size : TermSize} {queue : List PtyIn} : s.input = .taking →
      s.queue = .resize size :: queue →
      Thread s { s with queue := queue, applied := s.applied ++ [.resize size] }
  | close {s : Pty} {queue : List PtyIn} : s.input = .taking → s.queue = .close :: queue →
      Thread s { s with queue := queue, input := .leaving }
  | noSender {s : Pty} : s.input = .taking → s.queue = [] → s.sender = false →
      Thread s { s with input := .leaving }
  | checkInput {s : Pty} : s.input = .leaving →
      Thread s { s with input := if s.exited then .done else .killing }
  | killInput {s : Pty} : s.input = .killing → Thread s { s with input := .done, killed := true }
  | wait {s : Pty} (status : ℕ) : s.waiter = .waiting → s.alive = false →
      Thread s { s with waiter := .reaped (some status) }
  | waitFails {s : Pty} : s.waiter = .waiting → s.lost = true →
      Thread s { s with waiter := .reaped none }
  | flag {s : Pty} {status : Option ℕ} : s.waiter = .reaped status →
      Thread s { s with waiter := .flagged status, exited := true }
  /-- The input thread is woken by a sender that exists while the app has its own. -/
  | wake {s : Pty} {status : Option ℕ} : s.waiter = .flagged status →
      Thread s { s with
        waiter := .done status
        queue := if s.sender then s.queue ++ [.close] else s.queue }
  | read {s : Pty} {n : ℕ} : s.reader = .reading → 0 < n → n ≤ bufLen → n ≤ s.pending.length →
      s.receiver = true →
      Thread s { s with
        pending := s.pending.drop n
        output := s.output ++ [.data (s.pending.take n)] }
  | readUnheard {s : Pty} {n : ℕ} : s.reader = .reading → 0 < n → n ≤ bufLen →
      n ≤ s.pending.length → s.receiver = false →
      Thread s { s with pending := s.pending.drop n, reader := .unheard }
  | readEnd {s : Pty} : s.reader = .reading → s.pending = [] → s.hup = true →
      Thread s { s with reader := .joining }
  | readFails {s : Pty} : s.reader = .reading → s.broken = true →
      Thread s { s with reader := .joining }
  | checkReader {s : Pty} : s.reader = .unheard →
      Thread s { s with reader := if s.exited then .joining else .killing }
  | killReader {s : Pty} : s.reader = .killing →
      Thread s { s with reader := .joining, killed := true }
  | joinWaiter {s : Pty} {status : Option ℕ} : s.reader = .joining → s.waiter = .done status →
      Thread s { s with reader := .joined status }
  | joinInput {s : Pty} {status : Option ℕ} : s.reader = .joined status → s.input = .done →
      Thread s { s with
        reader := .done status
        output := if s.receiver then s.output ++ [.exit status] else s.output }

def Step (s s' : Pty) : Prop := Outside s s' ∨ Thread s s'

def Reachable (s : Pty) : Prop := Relation.ReflTransGen Step .start s

/-- No thread can go on. -/
def Stuck (s : Pty) : Prop := ∀ s', ¬Thread s s'

/-- All three threads are over. -/
def Over (s : Pty) : Prop :=
  s.input = .done ∧ ∃ status, s.waiter = .done status ∧ s.reader = .done status

/-- The bytes that the app was sent. -/
def bytesOf (output : List PtyOut) : List UInt8 := output.flatMap fun
  | .data d => d
  | .exit _ => []

/-- What may kill the program: the app closes it or drops an end, or a write fails. -/
def GivenUp (s : Pty) : Prop :=
  .close ∈ s.asked ∨ s.sender = false ∨ s.receiver = false ∨ s.writeFailed = true

/-- A property that every step keeps holds of every reachable state. -/
theorem Reachable.induct {P : Pty → Prop} (hstart : P .start)
    (hstep : ∀ s s', P s → Step s s' → P s') {s : Pty} (h : Reachable s) : P s := by
  induction h with
  | refl => exact hstart
  | tail _ hs ih => exact hstep _ _ ih hs

section Output

/-- The app was sent what the program wrote, up to what is not read yet. -/
def Sends (s : Pty) : Prop :=
  bytesOf s.output ++ s.pending = s.produced ∨
    s.receiver = false ∧ bytesOf s.output <+: s.produced

theorem Sends.prefix_produced {s : Pty} (h : Sends s) : bytesOf s.output <+: s.produced := by
  rcases h with h | h
  · exact ⟨_, h⟩
  · exact h.2

theorem bytesOf_append (output more : List PtyOut) :
    bytesOf (output ++ more) = bytesOf output ++ bytesOf more := List.flatMap_append

theorem Sends.step {s s' : Pty} (h : Sends s) (hs : Step s s') : Sends s' := by
  rcases hs with hs | hs
  · cases hs with
    | writes d =>
      rcases h with h | ⟨hr, h⟩
      · exact .inl (by rw [← List.append_assoc, h])
      · exact .inr ⟨hr, h.trans (List.prefix_append _ _)⟩
    | dropReceiver => exact .inr ⟨rfl, h.prefix_produced⟩
    | _ => exact h
  · cases hs with
    | @read n _ _ _ _ hr =>
      rcases h with h | ⟨hr', -⟩
      · refine .inl ?_
        rw [← h, bytesOf_append, List.append_assoc]
        exact congrArg (_ ++ ·) (by simp [bytesOf])
      · cases hr.symm.trans hr'
    | readUnheard _ _ _ _ hr => exact .inr ⟨hr, h.prefix_produced⟩
    | joinInput hr hi =>
      cases hrec : s.receiver with
      | false => exact .inr ⟨rfl, h.prefix_produced⟩
      | true =>
        rcases h with h | h
        · exact .inl (by simpa [bytesOf_append, bytesOf] using h)
        · cases hrec.symm.trans h.1
    | _ => exact h

/-- Data only. -/
def OnlyData (output : List PtyOut) : Prop :=
  ∃ chunks : List (List UInt8), output = chunks.map .data

/-- The exit comes last, and with the status of the waiter, when all threads are over. -/
def Shaped (s : Pty) : Prop :=
  match s.reader with
  | .reading | .unheard | .killing | .joining => OnlyData s.output
  | .joined status => OnlyData s.output ∧ s.waiter = .done status
  | .done status => s.waiter = .done status ∧ s.input = .done ∧
      ∃ output, OnlyData output ∧
        (s.output = output ++ [.exit status] ∨ s.receiver = false ∧ s.output = output)

theorem OnlyData.concat {output : List PtyOut} (h : OnlyData output) (d : List UInt8) :
    OnlyData (output ++ [.data d]) := by
  obtain ⟨chunks, rfl⟩ := h
  exact ⟨chunks ++ [d], by simp⟩

theorem Shaped.onlyData {s : Pty} (h : Shaped s) (hr : ∀ status, s.reader ≠ .done status) :
    OnlyData s.output := by
  unfold Shaped at h
  cases hreader : s.reader with
  | done status => exact (hr status hreader).elim
  | joined status =>
    rw [hreader] at h
    exact h.1
  | _ =>
    rw [hreader] at h
    exact h

/-- A step that leaves the reader and the output alone. -/
theorem Shaped.frame {s s' : Pty} (h : Shaped s) (hreader : s'.reader = s.reader)
    (houtput : s'.output = s.output)
    (hwaiter : ∀ status, s.waiter = .done status → s'.waiter = .done status)
    (hinput : s.input = .done → s'.input = .done)
    (hreceiver : s.receiver = false → s'.receiver = false) : Shaped s' := by
  unfold Shaped at h ⊢
  rw [hreader, houtput]
  cases hr : s.reader with
  | joined status =>
    rw [hr] at h
    exact ⟨h.1, hwaiter status h.2⟩
  | done status =>
    rw [hr] at h
    obtain ⟨hw, hi, output, hdata, ho⟩ := h
    exact ⟨hwaiter status hw, hinput hi, output, hdata, ho.imp_right (.imp_left hreceiver)⟩
  | _ =>
    rw [hr] at h
    exact h

theorem Shaped.step {s s' : Pty} (h : Shaped s) (hs : Step s s') : Shaped s' := by
  rcases hs with hs | hs
  · cases hs with
    | dropReceiver => exact h.frame rfl rfl (fun _ hw => hw) id fun _ => rfl
    | _ => exact h.frame rfl rfl (fun _ hw => hw) id id
  · cases hs with
    | writeFails hi | close hi | noSender hi | checkInput hi | killInput hi =>
      exact h.frame rfl rfl (fun _ hw => hw) (fun hd => by cases hi.symm.trans hd) id
    | wait _ hw | waitFails hw | flag hw | wake hw =>
      exact h.frame rfl rfl (fun _ hd => by cases hw.symm.trans hd) id id
    | write | resize => exact h.frame rfl rfl (fun _ hw => hw) id id
    | read hr =>
      have hdata := (h.onlyData (by simp [hr])).concat
      unfold Shaped
      simp only [hr]
      exact hdata _
    | readUnheard hr | readEnd hr | readFails hr | killReader hr =>
      exact h.onlyData (by simp [hr])
    | checkReader hr =>
      have hdata := h.onlyData (by simp [hr])
      unfold Shaped
      cases s.exited <;> exact hdata
    | joinWaiter hr hw => exact ⟨h.onlyData (by simp [hr]), hw⟩
    | @joinInput status hr hi =>
      unfold Shaped at h
      rw [hr] at h
      refine ⟨h.2, hi, s.output, h.1, ?_⟩
      cases hrec : s.receiver with
      | false => exact .inr ⟨rfl, rfl⟩
      | true => exact .inl rfl

/-- The reader is still to read. -/
def Reading (s : Pty) : Prop := s.reader = .reading ∨ s.reader = .unheard ∨ s.reader = .killing

/-- A reader that is over has read all there is, unless reading failed or nobody listens. -/
def Drained (s : Pty) : Prop :=
  Reading s ∨ (s.pending = [] ∧ s.hup = true) ∨ s.broken = true ∨ s.receiver = false

theorem Drained.step {s s' : Pty} (h : Drained s) (hs : Step s s')
    (hunheard : s.reader = .unheard ∨ s.reader = .killing → s.receiver = false) : Drained s' := by
  rcases hs with hs | hs
  · cases hs with
    | writes d hhup =>
      refine h.imp_right (Or.imp_left ?_)
      rintro ⟨-, hup⟩
      cases hhup.symm.trans hup
    | hangsUp => exact h.imp_right (Or.imp_left fun hp => ⟨hp.1, rfl⟩)
    | breaks => exact .inr (.inr (.inl rfl))
    | dropReceiver => exact .inr (.inr (.inr rfl))
    | _ => exact h
  · cases hs with
    | read hr => exact .inl (.inl hr)
    | readUnheard => exact .inl (.inr (.inl rfl))
    | readEnd hr hp hup => exact .inr (.inl ⟨hp, hup⟩)
    | readFails hr hb => exact .inr (.inr (.inl hb))
    | checkReader hr => exact .inr (.inr (.inr (hunheard (.inl hr))))
    | killReader hr => exact .inr (.inr (.inr (hunheard (.inr hr))))
    | joinWaiter hr hw | joinInput hr hi =>
      refine .inr (h.resolve_left ?_)
      rintro (h | h | h) <;> cases hr.symm.trans h
    | _ => exact h

end Output

section Ending

/-- What is known once the program was waited for, by the flag and the status. -/
structure Flagged (s : Pty) : Prop where
  exited : s.exited = true ↔ ∃ status, s.waiter = .flagged status ∨ s.waiter = .done status
  ended : ∀ status,
    s.waiter = .reaped status ∨ s.waiter = .flagged status ∨ s.waiter = .done status →
      if status.isSome then s.alive = false else s.lost = true

theorem Flagged.step {s s' : Pty} (h : Flagged s) (hs : Step s s') : Flagged s' := by
  rcases hs with hs | hs
  · cases hs with
    | ends =>
      refine ⟨h.exited, fun status hw => ?_⟩
      have := h.ended status hw
      split_ifs at this ⊢
      · rfl
      · exact this
    | loses =>
      refine ⟨h.exited, fun status hw => ?_⟩
      have := h.ended status hw
      split_ifs at this ⊢
      · exact this
      · rfl
    | _ => exact ⟨h.exited, h.ended⟩
  · cases hs with
    | wait status hw ha =>
      refine ⟨?_, ?_⟩
      · rw [h.exited, hw]
        simp
      · rintro status' (hs' | hs' | hs') <;> cases hs'
        exact ha
    | waitFails hw hl =>
      refine ⟨?_, ?_⟩
      · rw [h.exited, hw]
        simp
      · rintro status' (hs' | hs' | hs') <;> cases hs'
        exact hl
    | @flag status hw =>
      refine ⟨iff_of_true rfl ⟨status, .inl rfl⟩, ?_⟩
      rintro status' (hs' | hs' | hs') <;> cases hs'
      exact h.ended status (.inl hw)
    | @wake status hw =>
      refine ⟨iff_of_true (h.exited.mpr ⟨status, .inl hw⟩) ⟨status, .inr rfl⟩, ?_⟩
      rintro status' (hs' | hs' | hs') <;> cases hs'
      exact h.ended status (.inr (.inl hw))
    | _ => exact ⟨h.exited, h.ended⟩

end Ending

section Inputs

/-- The inputs were applied in order, and while the input thread takes them those that were not
are in its channel, with the close by which the waiter wakes it. -/
structure Applies (s : Pty) : Prop where
  applied : s.applied <+: s.asked
  plain : .close ∉ s.applied
  taking : s.input = .taking → ∃ rest, s.asked = s.applied ++ rest ∧
    (s.queue = rest ∨ (∃ status, s.waiter = .done status) ∧ ∃ before after,
      rest = before ++ after ∧ s.queue = before ++ .close :: after)

/-- The next input of the app is applied, and what is left of the channel. -/
theorem Applies.next {s : Pty} {msg : PtyIn} {queue : List PtyIn} (h : Applies s)
    (hi : s.input = .taking) (hq : s.queue = msg :: queue) (hmsg : msg ≠ .close) :
    ∃ rest, s.asked = (s.applied ++ [msg]) ++ rest ∧
      (queue = rest ∨ (∃ status, s.waiter = .done status) ∧ ∃ before after,
        rest = before ++ after ∧ queue = before ++ .close :: after) := by
  obtain ⟨rest, hasked, hqueue | ⟨hdone, before, after, rfl, hqueue⟩⟩ := h.taking hi
  · rw [hq] at hqueue
    exact ⟨queue, by rw [hasked, ← hqueue]; simp, .inl rfl⟩
  · rw [hq] at hqueue
    cases before with
    | nil => exact (hmsg (List.cons.inj hqueue).1).elim
    | cons b before =>
      obtain ⟨rfl, rfl⟩ := List.cons.inj hqueue
      exact ⟨before ++ after, by rw [hasked]; simp, .inr ⟨hdone, before, after, rfl, rfl⟩⟩

theorem Applies.applies {s : Pty} {msg : PtyIn} {queue : List PtyIn} (h : Applies s)
    (hi : s.input = .taking) (hq : s.queue = msg :: queue) (hmsg : msg ≠ .close) :
    Applies { s with queue := queue, applied := s.applied ++ [msg] } where
  applied := by
    obtain ⟨rest, hasked, -⟩ := h.next hi hq hmsg
    exact ⟨rest, hasked.symm⟩
  plain hc := by
    rcases List.mem_append.mp hc with hc | hc
    · exact h.plain hc
    · exact hmsg (List.mem_singleton.mp hc).symm
  taking _ := h.next hi hq hmsg

theorem Applies.step {s s' : Pty} (h : Applies s) (hs : Step s s') : Applies s' := by
  rcases hs with hs | hs
  · cases hs with
    | send msg hsend =>
      refine ⟨h.applied.trans (List.prefix_append _ _), h.plain, fun hi => ?_⟩
      obtain ⟨rest, hasked, hqueue⟩ := h.taking hi
      refine ⟨rest ++ [msg], by simp [hasked], ?_⟩
      rcases hqueue with hqueue | ⟨hdone, before, after, rfl, hqueue⟩
      · exact .inl (by rw [← hqueue])
      · exact .inr ⟨hdone, before, after ++ [msg], by simp, by simp [hqueue]⟩
    | _ => exact ⟨h.applied, h.plain, h.taking⟩
  · cases hs with
    | write hi hq => exact h.applies hi hq (by simp)
    | resize hi hq => exact h.applies hi hq (by simp)
    | writeFails | close | noSender | killInput => exact ⟨h.applied, h.plain, nofun⟩
    | checkInput =>
      refine ⟨h.applied, h.plain, fun hi => ?_⟩
      simp only at hi
      split_ifs at hi
    | wait _ hw | waitFails hw | flag hw =>
      refine ⟨h.applied, h.plain, fun hi => ?_⟩
      obtain ⟨rest, hasked, hqueue | ⟨⟨_, hd⟩, -⟩⟩ := h.taking hi
      · exact ⟨rest, hasked, .inl hqueue⟩
      · cases hw.symm.trans hd
    | @wake status hw =>
      refine ⟨h.applied, h.plain, fun hi => ?_⟩
      obtain ⟨rest, hasked, rfl | ⟨⟨_, hd⟩, -⟩⟩ := h.taking hi
      · refine ⟨s.queue, hasked, ?_⟩
        cases s.sender with
        | false => exact .inl rfl
        | true => exact .inr ⟨⟨status, rfl⟩, s.queue, [], by simp, rfl⟩
      · cases hw.symm.trans hd
    | _ => exact ⟨h.applied, h.plain, h.taking⟩

/-- The next close is one that the app sent, or the waiter. -/
theorem Applies.close {s : Pty} {queue : List PtyIn} (h : Applies s) (hi : s.input = .taking)
    (hq : s.queue = .close :: queue) :
    .close ∈ s.asked ∨ ∃ status, s.waiter = .done status := by
  obtain ⟨rest, hasked, hqueue | ⟨hdone, -⟩⟩ := h.taking hi
  · exact .inl (by rw [hasked, ← hqueue, hq]; simp)
  · exact .inr hdone

end Inputs

section Kills

/-- The program is killed only if it was given up, and the input thread leaves it to itself only
if it was waited for. -/
structure Kills (s : Pty) : Prop where
  unheard : s.reader = .unheard ∨ s.reader = .killing → s.receiver = false
  leaving : s.input = .leaving → GivenUp s ∨ s.exited = true
  killing : s.input = .killing → GivenUp s
  killed : s.killed = true → GivenUp s
  done : s.input = .done → s.exited = true ∨ s.killed = true
  failed : s.writeFailed = true → s.input ≠ .taking

theorem GivenUp.step {s s' : Pty} (h : GivenUp s) (hs : Step s s') : GivenUp s' := by
  rcases hs with hs | hs
  · cases hs with
    | send msg => exact h.imp_left (List.mem_append_left _)
    | dropSender => exact .inr (.inl rfl)
    | dropReceiver => exact .inr (.inr (.inl rfl))
    | _ => exact h
  · cases hs with
    | writeFails => exact .inr (.inr (.inr rfl))
    | _ => exact h

/-- A step that leaves the reader, the input thread and the kill alone. -/
theorem Kills.frame {s s' : Pty} (h : Kills s) (hg : GivenUp s → GivenUp s')
    (hreader : s'.reader = s.reader) (hreceiver : s.receiver = false → s'.receiver = false)
    (hinput : s'.input = s.input) (hexited : s.exited = true → s'.exited = true)
    (hkilled : s'.killed = s.killed) (hfailed : s'.writeFailed = s.writeFailed) : Kills s' where
  unheard hr := hreceiver (h.unheard (hreader ▸ hr))
  leaving hi := (h.leaving (hinput ▸ hi)).imp hg hexited
  killing hi := hg (h.killing (hinput ▸ hi))
  killed hk := hg (h.killed (hkilled ▸ hk))
  done hi := (h.done (hinput ▸ hi)).imp hexited fun hk => hkilled ▸ hk
  failed hw := hinput ▸ h.failed (hfailed ▸ hw)

theorem Kills.step {s s' : Pty} (h : Kills s) (ha : Applies s) (hf : Flagged s) (hs : Step s s') :
    Kills s' := by
  have hg : GivenUp s → GivenUp s' := fun hg => hg.step hs
  have hkilled : s.killed = true → GivenUp s' := fun hk => hg (h.killed hk)
  rcases hs with hs | hs
  · cases hs with
    | dropReceiver => exact h.frame hg rfl (fun _ => rfl) rfl id rfl rfl
    | _ => exact h.frame hg rfl id rfl id rfl rfl
  · cases hs with
    | writeFails =>
      exact ⟨h.unheard, fun _ => .inl (.inr (.inr (.inr rfl))), nofun, hkilled, nofun, nofun⟩
    | close hi hq =>
      refine ⟨h.unheard, fun _ => ?_, nofun, hkilled, nofun, nofun⟩
      rcases ha.close hi hq with hc | ⟨status, hd⟩
      · exact .inl (.inl hc)
      · exact .inr (hf.exited.mpr ⟨status, .inr hd⟩)
    | noSender _ _ hs =>
      exact ⟨h.unheard, fun _ => .inl (.inr (.inl hs)), nofun, hkilled, nofun, nofun⟩
    | checkInput hi =>
      refine ⟨h.unheard, fun hi' => ?_, fun hi' => ?_, hkilled, fun hi' => ?_, fun _ hi' => ?_⟩ <;>
        (simp only at hi'; split_ifs at hi' with he)
      · exact hg ((h.leaving hi).resolve_right he)
      · exact .inl he
    | killInput hi =>
      exact ⟨h.unheard, nofun, nofun, fun _ => hg (h.killing hi), fun _ => .inr rfl, nofun⟩
    | flag => exact h.frame hg rfl id rfl (fun _ => rfl) rfl rfl
    | readUnheard _ _ _ _ hr =>
      exact ⟨fun _ => hr, fun hi => (h.leaving hi).imp_left hg, fun hi => hg (h.killing hi),
        hkilled, h.done, h.failed⟩
    | checkReader hr =>
      exact ⟨fun _ => h.unheard (.inl hr), fun hi => (h.leaving hi).imp_left hg,
        fun hi => hg (h.killing hi), hkilled, h.done, h.failed⟩
    | killReader hr =>
      refine ⟨?_, fun hi => (h.leaving hi).imp_left hg, fun hi => hg (h.killing hi),
        fun _ => .inr (.inr (.inl (h.unheard (.inr hr)))), fun _ => .inr rfl, h.failed⟩
      rintro (hr | hr) <;> cases hr
    | readEnd | readFails | joinWaiter | joinInput =>
      refine ⟨?_, fun hi => (h.leaving hi).imp_left hg, fun hi => hg (h.killing hi), hkilled,
        h.done, h.failed⟩
      rintro (hr | hr) <;> cases hr
    | _ => exact h.frame hg rfl id rfl id rfl rfl

end Kills

section Threads

/-- A waiter that is over has woken the input thread. -/
def Woken (s : Pty) : Prop := ∀ status, s.waiter = .done status → s.input = .taking →
  s.sender = false ∨ .close ∈ s.queue

theorem Woken.step {s s' : Pty} (h : Woken s) (hs : Step s s') : Woken s' := by
  rcases hs with hs | hs
  · cases hs with
    | send msg => exact fun status hw hi => (h status hw hi).imp_right (List.mem_append_left _)
    | dropSender => exact fun _ _ _ => .inl rfl
    | _ => exact h
  · cases hs with
    | write hi hq | resize hi hq =>
      refine fun status hw hi => (h status hw hi).imp_right fun hc => ?_
      rw [hq] at hc
      exact (List.mem_cons.mp hc).resolve_left nofun
    | checkInput =>
      intro status hw hi
      simp only at hi
      split_ifs at hi
    | writeFails | close | noSender | killInput => exact fun _ _ hi => by cases hi
    | wait | waitFails | flag => exact fun _ hw => by cases hw
    | wake =>
      intro status hw hi
      cases hs : s.sender with
      | false => exact .inl rfl
      | true => exact .inr (by simp)
    | _ => exact h

/-- What the threads have left to do, if nobody else does anything. -/
def work (s : Pty) : ℕ :=
  3 * s.queue.length + s.pending.length +
    (match s.input with
      | .taking => 3
      | .leaving => 2
      | .killing => 1
      | .done => 0) +
    (match s.waiter with
      | .waiting => 6
      | .reaped _ => 5
      | .flagged _ => 4
      | .done _ => 0) +
    match s.reader with
    | .reading => 5
    | .unheard => 4
    | .killing => 3
    | .joining => 2
    | .joined _ => 1
    | .done _ => 0

theorem work_lt {s s' : Pty} (hs : Thread s s') : work s' < work s := by
  unfold work
  cases hs with
  | write hi hq | resize hi hq =>
    simp only [hq, List.length_cons]
    omega
  | writeFails hi hq | close hi hq =>
    simp only [hi, hq, List.length_cons]
    omega
  | noSender hi | killInput hi =>
    simp only [hi]
    omega
  | checkInput hi =>
    simp only [hi]
    split_ifs <;> simp
  | wait _ hw | waitFails hw | flag hw =>
    simp only [hw]
    omega
  | wake hw =>
    simp only [hw]
    split_ifs
    · simp only [List.length_append, List.length_singleton]
      omega
    · omega
  | read hr hn _ hlen =>
    simp only [List.length_drop]
    omega
  | readUnheard hr hn _ hlen =>
    simp only [hr, List.length_drop]
    omega
  | readEnd hr | readFails hr | killReader hr | joinWaiter hr | joinInput hr =>
    simp only [hr]
    omega
  | checkReader hr =>
    simp only [hr]
    split_ifs <;> simp

/-- An input thread that cannot go on is over, or waits for the app. -/
theorem Stuck.input {s : Pty} (h : Stuck s) :
    s.input = .done ∨ s.input = .taking ∧ s.queue = [] ∧ s.sender = true := by
  cases hi : s.input with
  | done => exact .inl rfl
  | leaving => exact (h _ (.checkInput hi)).elim
  | killing => exact (h _ (.killInput hi)).elim
  | taking =>
    cases hq : s.queue with
    | nil =>
      refine .inr ⟨rfl, rfl, ?_⟩
      by_contra hs
      exact h _ (.noSender hi hq (Bool.eq_false_iff.mpr hs))
    | cons msg queue =>
      cases msg with
      | data d => exact (h _ (.write hi hq)).elim
      | resize size => exact (h _ (.resize hi hq)).elim
      | close => exact (h _ (.close hi hq)).elim

/-- A reader that cannot go on waits for output, or for another thread. -/
theorem Stuck.reading {s : Pty} (h : Stuck s) (hr : s.reader = .reading) :
    s.pending = [] ∧ s.hup = false ∧ s.broken = false := by
  have hpending : s.pending = [] := by
    by_contra hne
    have hlen : 1 ≤ s.pending.length := List.length_pos_iff.mpr hne
    cases hrec : s.receiver with
    | true => exact h _ (.read hr Nat.one_pos (by decide) hlen hrec)
    | false => exact h _ (.readUnheard hr Nat.one_pos (by decide) hlen hrec)
  refine ⟨hpending, ?_, ?_⟩
  · by_contra hup
    exact h _ (.readEnd hr hpending (Bool.not_eq_false _ ▸ hup))
  · by_contra hb
    exact h _ (.readFails hr (Bool.not_eq_false _ ▸ hb))

/-- The threads are over, or wait for the program or for its output. -/
theorem Stuck.over {s : Pty} (h : Stuck s) (hshape : Shaped s) (hw : Woken s) :
    Over s ∨ s.waiter = .waiting ∧ s.alive = true ∧ s.lost = false ∨
      s.reader = .reading ∧ s.pending = [] ∧ s.hup = false ∧ s.broken = false := by
  cases hwaiter : s.waiter with
  | reaped status => exact (h _ (.flag hwaiter)).elim
  | flagged status => exact (h _ (.wake hwaiter)).elim
  | waiting =>
    refine .inr (.inl ⟨rfl, ?_, ?_⟩)
    · by_contra ha
      exact h _ (.wait 0 hwaiter (Bool.eq_false_iff.mpr ha))
    · by_contra hl
      exact h _ (.waitFails hwaiter (Bool.not_eq_false _ ▸ hl))
  | done status =>
    have hinput : s.input = .done := by
      rcases h.input with hi | ⟨hi, hq, hs⟩
      · exact hi
      · rcases hw status hwaiter hi with hs' | hc
        · cases hs.symm.trans hs'
        · rw [hq] at hc
          cases hc
    cases hr : s.reader with
    | reading => exact .inr (.inr ⟨rfl, h.reading hr⟩)
    | unheard => exact (h _ (.checkReader hr)).elim
    | killing => exact (h _ (.killReader hr)).elim
    | joining => exact (h _ (.joinWaiter hr hwaiter)).elim
    | joined status => exact (h _ (.joinInput hr hinput)).elim
    | done status' =>
      unfold Shaped at hshape
      rw [hr] at hshape
      exact .inl ⟨hinput, status', hshape.1, hr⟩

end Threads

structure Inv (s : Pty) : Prop where
  sends : Sends s
  shaped : Shaped s
  drained : Drained s
  flagged : Flagged s
  applies : Applies s
  kills : Kills s
  woken : Woken s

theorem inv_start : Inv .start where
  sends := .inl rfl
  shaped := ⟨[], rfl⟩
  drained := .inl (.inl rfl)
  flagged := by
    refine ⟨iff_of_false nofun ?_, ?_⟩
    · rintro ⟨status, h | h⟩ <;> cases h
    · rintro status (h | h | h) <;> cases h
  applies := ⟨List.prefix_rfl, List.not_mem_nil, fun _ => ⟨[], rfl, .inl rfl⟩⟩
  kills := by
    refine ⟨?_, nofun, nofun, nofun, nofun, nofun⟩
    rintro (h | h) <;> cases h
  woken _ h := by cases h

theorem Reachable.inv {s : Pty} (h : Reachable s) : Inv s :=
  h.induct inv_start fun _ _ hi hs =>
    ⟨hi.sends.step hs, hi.shaped.step hs, hi.drained.step hs hi.kills.unheard, hi.flagged.step hs,
      hi.applies.step hs, hi.kills.step hi.applies hi.flagged hs, hi.woken.step hs⟩

/-- The exit, if it was sent, came last, after all of the output. -/
theorem Inv.exit {s : Pty} (h : Inv s) : OnlyData s.output ∨
    ∃ output status, OnlyData output ∧ s.output = output ++ [.exit status] ∧ Over s ∧
      (status.isSome = true → s.alive = false) ∧
      (s.receiver = true → s.pending = [] ∨ s.broken = true) := by
  by_cases hdone : ∃ status, s.reader = .done status
  · obtain ⟨status, hr⟩ := hdone
    have hshape := h.shaped
    unfold Shaped at hshape
    rw [hr] at hshape
    obtain ⟨hw, hi, output, hdata, ho | ⟨-, rfl⟩⟩ := hshape
    · refine .inr ⟨output, status, hdata, ho, ⟨hi, status, hw, hr⟩, fun hsome => ?_, fun hrec => ?_⟩
      · simpa [hsome] using h.flagged.ended status (.inr (.inr hw))
      · rcases h.drained with hd | ⟨hp, -⟩ | hb | hn
        · rcases hd with hd | hd | hd <;> cases hr.symm.trans hd
        · exact .inl hp
        · exact .inr hb
        · cases hrec.symm.trans hn
    · exact .inl hdata
  · exact .inl (h.shaped.onlyData fun status hr => hdone ⟨status, hr⟩)

/-- Where the threads cannot go on, a program that was to be stopped was killed or waited for. -/
theorem Inv.stopped {s : Pty} (h : Inv s) (hstuck : Stuck s)
    (hstop : .close ∈ s.asked ∨ s.sender = false ∨ s.writeFailed = true) :
    s.killed = true ∨ s.exited = true := by
  rcases hstuck.input with hi | ⟨hi, hq, hsender⟩
  · exact (h.kills.done hi).symm
  · rcases hstop with hc | hs | hf
    · obtain ⟨rest, hasked, hqueue | ⟨-, before, after, -, hqueue⟩⟩ := h.applies.taking hi
      · rw [hasked, ← hqueue, hq, List.append_nil] at hc
        exact (h.applies.plain hc).elim
      · rw [hq] at hqueue
        simp at hqueue
    · cases hsender.symm.trans hs
    · exact (h.kills.failed hf hi).elim

end MultiAi.LocalPty
