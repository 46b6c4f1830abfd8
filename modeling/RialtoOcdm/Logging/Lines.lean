import RialtoOcdm.Concurrency.Machine
import RialtoOcdm.Concurrency.SharedStream
import RialtoOcdm.Library.Logger

/-! The lines of a logger that threads share. A line is the one its statement meant if and
only if the statement was undisturbed: the stream was clear when it wrote its heading, and
nobody else wrote to it or cleared it before the line was handed over. -/

namespace RialtoOcdm.Logger

open Concurrency SharedStream

/-! ### What was meant -/

/-- What an event does to the stream. -/
def streamEvent : LogEvent → Option (SharedStream.Event ℕ String)
  | .begins n _ heading => some (.begins n heading)
  | .writes n text => some (.writes n text)
  | .flushes .. => none
  | .clears _ => some .clears

def streamEvents (journal : List LogEvent) : List (SharedStream.Event ℕ String) :=
  journal.filterMap streamEvent

/-- The heading and the fragments of the statement with this number. -/
def pieces (n : ℕ) : List LogEvent → List (ℕ × String)
  | [] => []
  | .begins m statement heading :: journal =>
    if m = n then (heading :: statement.fragments).map (n, ·) else pieces n journal
  | _ :: journal => pieces n journal

/-- The statements that have come to their flush. -/
def flushed : List LogEvent → List ℕ
  | [] => []
  | .flushes n _ _ :: journal => n :: flushed journal
  | _ :: journal => flushed journal

/-- A flush hands over a line of its own. -/
def Emits (severity : Severity) (environment : Environment) : Prop :=
  severity.value ≤ environment.getLogLevel.value

instance (severity : Severity) (environment : Environment) : Decidable (Emits severity environment) :=
  inferInstanceAs (Decidable (_ ≤ _))

/-- One line for every flush within the log level, made of `of n journal` for the
statement `n`. -/
def linesOf (of : ℕ → List LogEvent → List (ℕ × String)) : List LogEvent → List Line
  | [] => []
  | .flushes n severity environment :: journal =>
    if Emits severity environment then
      ⟨Flusher.sink environment severity, of n journal⟩ :: linesOf of journal
    else linesOf of journal
  | _ :: journal => linesOf of journal

/-- The lines are one for every statement within the log level at its flush, and each is
the heading of its statement and its fragments. -/
def Faithful (w : Logging) : Prop := (flushed w.journal).Nodup ∧ w.lines = linesOf pieces w.journal

/-- Every statement that was within the log level at its flush was undisturbed until then. -/
def Undisturbed : List LogEvent → Prop
  | [] => True
  | .flushes n severity environment :: journal =>
    (Emits severity environment → SharedStream.Undisturbed n (streamEvents journal)) ∧ Undisturbed journal
  | _ :: journal => Undisturbed journal

instance decidableUndisturbed : (journal : List LogEvent) → Decidable (Undisturbed journal)
  | [] => inferInstanceAs (Decidable True)
  | .flushes n severity environment :: journal =>
    have := decidableUndisturbed journal
    inferInstanceAs (Decidable ((Emits severity environment →
      SharedStream.Undisturbed n (streamEvents journal)) ∧ Undisturbed journal))
  | .begins .. :: journal => decidableUndisturbed journal
  | .writes .. :: journal => decidableUndisturbed journal
  | .clears _ :: journal => decidableUndisturbed journal

/-! ### What is recorded -/

/-- Every statement that comes to its flush has written all of its pieces. -/
def Complete : List LogEvent → Prop
  | [] => True
  | .flushes n _ _ :: journal =>
    Begun n (streamEvents journal) ∧ own n (streamEvents journal) = pieces n journal ∧ Complete journal
  | _ :: journal => Complete journal

/-- The invariant of the shared state. -/
structure Recorded (w : Logging) : Prop where
  stream : w.stream = content (streamEvents w.journal)
  lines : w.lines = linesOf (fun _ journal => content (streamEvents journal)) w.journal
  complete : Complete w.journal
  nodup : (flushed w.journal).Nodup
  unwritten : ∀ n, w.begun < n → own n (streamEvents w.journal) = []
  unflushed : ∀ n, w.begun < n → n ∉ flushed w.journal

/-- What was handed over is what was meant where the statements were undisturbed, and only
there. -/
theorem linesOf_eq_iff {journal : List LogEvent} (h : Complete journal) :
    linesOf (fun _ journal => content (streamEvents journal)) journal = linesOf pieces journal ↔
      Undisturbed journal := by
  induction journal with
  | nil => exact iff_of_true rfl trivial
  | cons e journal ih =>
    cases e with
    | begins n statement heading => exact ih h
    | writes n text => exact ih h
    | clears n => exact ih h
    | flushes n severity environment =>
      obtain ⟨hbegun, hown, h⟩ := h
      unfold linesOf Undisturbed
      by_cases he : Emits severity environment
      · rw [if_pos he, if_pos he, List.cons.injEq, ih h, Line.mk.injEq, ← hown, content_eq_own_iff hbegun]
        simp [he]
      · rw [if_neg he, if_neg he, ih h]
        simp [he]

theorem Recorded.faithful_iff {w : Logging} (h : Recorded w) : Faithful w ↔ Undisturbed w.journal := by
  rw [Faithful, and_iff_right h.nodup, h.lines]
  exact linesOf_eq_iff h.complete

/-! ### What a statement does -/

/-- The statement an event is about. -/
def number : LogEvent → ℕ
  | .begins n _ _ => n
  | .writes n _ => n
  | .flushes n _ _ => n
  | .clears n => n

/-- Statement `n` has still to write `rest`. -/
structure Writing (n : ℕ) (journal : List LogEvent) (rest : List String) : Prop where
  begun : Begun n (streamEvents journal)
  written : own n (streamEvents journal) ++ rest.map (n, ·) = pieces n journal
  unflushed : n ∉ flushed journal

section

variable {n m : ℕ} {journal : List LogEvent} {rest : List String} {text heading : String}
  {statement : Statement} {severity : Severity} {environment : Environment} {e : LogEvent}

@[simp] theorem streamEvents_begins : streamEvents (.begins n statement heading :: journal) =
    .begins n heading :: streamEvents journal := rfl

@[simp] theorem streamEvents_writes : streamEvents (.writes n text :: journal) =
    .writes n text :: streamEvents journal := rfl

@[simp] theorem streamEvents_flushes : streamEvents (.flushes n severity environment :: journal) =
    streamEvents journal := rfl

@[simp] theorem streamEvents_clears : streamEvents (.clears n :: journal) =
    .clears :: streamEvents journal := rfl

theorem own_of_ne (hn : number e ≠ n) :
    own n (streamEvents (e :: journal)) = own n (streamEvents journal) := by
  cases e <;> simp_all [number, own]

theorem begun_of_ne (hn : number e ≠ n) :
    Begun n (streamEvents (e :: journal)) ↔ Begun n (streamEvents journal) := by
  cases e <;> simp_all [number, Begun]

theorem pieces_of_ne (hn : number e ≠ n) : pieces n (e :: journal) = pieces n journal := by
  cases e <;> simp_all [number, pieces]

theorem mem_flushed_of_ne (hn : number e ≠ n) : n ∈ flushed (e :: journal) ↔ n ∈ flushed journal := by
  cases e with
  | flushes m severity environment => simp [flushed, (Ne.symm hn : n ≠ m)]
  | begins | writes | clears => exact Iff.rfl

namespace Writing

/-- The other statements do not change where a statement is. -/
theorem frame (h : Writing n journal rest) (hn : number e ≠ n) : Writing n (e :: journal) rest where
  begun := (begun_of_ne hn).mpr h.begun
  written := by rw [own_of_ne hn, pieces_of_ne hn, h.written]
  unflushed := (mem_flushed_of_ne hn).not.mpr h.unflushed

theorem begin (hown : own n (streamEvents journal) = []) (hflushed : n ∉ flushed journal) :
    Writing n (.begins n statement heading :: journal) statement.fragments where
  begun := by simpa [Begun] using hown
  written := by simp [own, pieces, hown]
  unflushed := hflushed

theorem append (h : Writing n journal (text :: rest)) : Writing n (.writes n text :: journal) rest where
  begun := h.begun
  written := by simpa [own, pieces] using h.written
  unflushed := h.unflushed

end Writing

namespace Recorded

variable {w : Logging}

theorem begin (h : Recorded w) (statement : Statement) (heading : String) :
    Recorded { w with
      stream := w.stream ++ [(w.begun + 1, heading)]
      begun := w.begun + 1
      journal := .begins (w.begun + 1) statement heading :: w.journal } where
  stream := by simp [content, h.stream]
  lines := h.lines
  complete := h.complete
  nodup := h.nodup
  unwritten n hn := by
    have hne : number (.begins (w.begun + 1) statement heading) ≠ n := Nat.ne_of_lt hn
    exact (own_of_ne hne).trans (h.unwritten n (Nat.lt_of_succ_lt hn))
  unflushed n hn := h.unflushed n (Nat.lt_of_succ_lt hn)

theorem append (h : Recorded w) (hn : n ≤ w.begun) (text : String) :
    Recorded { w with
      stream := w.stream ++ [(n, text)]
      journal := .writes n text :: w.journal } where
  stream := by simp [content, h.stream]
  lines := h.lines
  complete := h.complete
  nodup := h.nodup
  unwritten m hm := by
    have hne : number (.writes n text) ≠ m := Nat.ne_of_lt (lt_of_le_of_lt hn hm)
    exact (own_of_ne hne).trans (h.unwritten m hm)
  unflushed := h.unflushed

theorem flush (h : Recorded w) (hn : n ≤ w.begun) (hwriting : Writing n w.journal [])
    (severity : Severity) :
    Recorded { w with
      lines := if severity.value ≤ w.environment.getLogLevel.value then
          ⟨Flusher.sink w.environment severity, w.stream⟩ :: w.lines
        else w.lines
      journal := .flushes n severity w.environment :: w.journal } where
  stream := h.stream
  lines := by
    rw [linesOf, ← h.lines, ← h.stream]
    rfl
  complete := ⟨hwriting.begun, by simpa using hwriting.written, h.complete⟩
  nodup := List.nodup_cons.mpr ⟨hwriting.unflushed, h.nodup⟩
  unwritten := h.unwritten
  unflushed m hm := by
    have hne : number (.flushes n severity w.environment) ≠ m := Nat.ne_of_lt (lt_of_le_of_lt hn hm)
    exact (mem_flushed_of_ne hne).not.mpr (h.unflushed m hm)

theorem clear (h : Recorded w) (n : ℕ) :
    Recorded { w with stream := [], journal := .clears n :: w.journal } where
  stream := rfl
  lines := h.lines
  complete := h.complete
  nodup := h.nodup
  unwritten := h.unwritten
  unflushed := h.unflushed

theorem change (h : Recorded w) (environment : Environment) :
    Recorded { w with environment := environment } :=
  ⟨h.stream, h.lines, h.complete, h.nodup, h.unwritten, h.unflushed⟩

end Recorded

end

/-! ### Interleavings -/

/-- Where a call is, with the number of the statement it is about to go on with. -/
inductive Stage (componentName : String) (journal : List LogEvent) : Option ℕ → LogCall → LogCode Unit → Prop
  | start (call : LogCall) : Stage componentName journal none call (entry componentName call)
  | writing {n : ℕ} {statement : Statement} {rest : List String} (h : Writing n journal rest) :
      Stage componentName journal (some n) (.log statement) do
        rest.forM (Flusher.append ⟨n, statement.severity⟩)
        Flusher.destruct ⟨n, statement.severity⟩
  | clearing {n : ℕ} {statement : Statement} :
      Stage componentName journal (some n) (.log statement) (Flusher.clear ⟨n, statement.severity⟩)
  | done {call : LogCall} : Stage componentName journal none call (.ret ())

variable {componentName : String} {journal : List LogEvent} {k next : Option ℕ} {c : LogCall}
  {code : LogCode Unit} {e : LogEvent} {w w' : Logging}

theorem Stage.frame (h : Stage componentName journal k c code) (he : k ≠ some (number e)) :
    Stage componentName (e :: journal) k c code := by
  cases h with
  | start => exact .start c
  | writing h => exact .writing (h.frame fun hn => he (hn ▸ rfl))
  | clearing => exact .clearing
  | done => exact .done

/-- Code that logs acts or returns. -/
theorem Stage.acts_or_returns (h : Stage componentName journal k c code) :
    (∃ f g, code = .act f g) ∨ code = .ret () := by
  cases h with
  | start c => cases c <;> exact .inl ⟨_, _, rfl⟩
  | @writing n statement rest h => cases rest <;> exact .inl ⟨_, _, rfl⟩
  | clearing => exact .inl ⟨_, _, rfl⟩
  | done => exact .inr rfl

/-- What a step of the call at `k`, which goes to `next`, may do: it writes to the journal
about its own statement, or about a new one. -/
structure Advances (w w' : Logging) (k next : Option ℕ) : Prop where
  recorded : Recorded w'
  journal : w'.journal = w.journal ∨ ∃ e, w'.journal = e :: w.journal ∧
    (k = some (number e) ∨ w.begun < number e)
  begun : w.begun ≤ w'.begun
  next : ∀ n, next = some n → n ≤ w'.begun ∧ (k = some n ∨ w.begun < n)

theorem Stage.act {f : Logging → Logging} {g : Logging → LogCode Unit}
    (h : Stage componentName w.journal k c (.act f g)) (hw : Recorded w)
    (hk : ∀ n, k = some n → n ≤ w.begun) : ∃ next, Advances w (f w) k next ∧
      Stage componentName (f w).journal next c (g w) := by
  generalize hcode : Prog.act f g = code at h
  cases h with
  | start c =>
    cases c with
    | log statement =>
      obtain ⟨rfl, rfl⟩ := Prog.act.inj hcode
      refine ⟨some (w.begun + 1), ⟨hw.begin statement _, .inr ⟨_, rfl, .inr (Nat.lt_succ_self _)⟩,
        Nat.le_succ _, ?_⟩, ?_⟩
      · rintro n ⟨⟩
        exact ⟨le_rfl, .inr (Nat.lt_succ_self _)⟩
      · exact .writing (.begin (hw.unwritten _ (Nat.lt_succ_self _)) (hw.unflushed _ (Nat.lt_succ_self _)))
    | change environment =>
      obtain ⟨rfl, rfl⟩ := Prog.act.inj hcode
      exact ⟨none, ⟨hw.change environment, .inl rfl, le_rfl, nofun⟩, .done⟩
  | @writing n statement rest h =>
    have hn := hk n rfl
    cases rest with
    | nil =>
      obtain ⟨rfl, rfl⟩ := Prog.act.inj hcode
      refine ⟨some n, ⟨hw.flush hn h _, .inr ⟨_, rfl, .inl rfl⟩, le_rfl, ?_⟩, .clearing⟩
      rintro m ⟨⟩
      exact ⟨hn, .inl rfl⟩
    | cons text rest =>
      obtain ⟨rfl, rfl⟩ := Prog.act.inj hcode
      refine ⟨some n, ⟨hw.append hn text, .inr ⟨_, rfl, .inl rfl⟩, le_rfl, ?_⟩, .writing h.append⟩
      rintro m ⟨⟩
      exact ⟨hn, .inl rfl⟩
  | @clearing n statement =>
    obtain ⟨rfl, rfl⟩ := Prog.act.inj hcode
    exact ⟨none, ⟨hw.clear n, .inr ⟨_, rfl, .inl rfl⟩, le_rfl, nofun⟩, .done⟩
  | done => cases hcode

section

variable {ι : Type} {cfg cfg' : Config Logging Empty Empty ι LogCall Unit} {num : ι → Option ℕ} {t : ι}
  {th : Thread Logging Empty Empty LogCall Unit}

/-- Every thread is at a stage of its call, and no two write for one statement. -/
structure Orderly (componentName : String) (cfg : Config Logging Empty Empty ι LogCall Unit)
    (num : ι → Option ℕ) : Prop where
  recorded : Recorded cfg.shared
  running : ∀ t th, cfg.thread t = some th → th.blocked = false
  stage : ∀ t th, cfg.thread t = some th →
    Stage componentName cfg.shared.journal (num t) th.call th.code
  begun : ∀ t n, num t = some n → n ≤ cfg.shared.begun
  distinct : ∀ t u n, num t = some n → num u = some n → t = u

theorem Orderly.idle (environment : Environment) :
    Orderly componentName (Config.idle (.start environment) [] : Config _ Empty Empty ι _ _) fun _ => none where
  recorded := ⟨rfl, rfl, trivial, List.nodup_nil, fun _ _ => rfl, fun _ _ => List.not_mem_nil⟩
  running t th ht := by cases ht
  stage t th ht := by cases ht
  begun t n hn := by cases hn
  distinct t u n hn := by cases hn

variable [DecidableEq ι]

/-- The threads still write for different statements when one of them has turned to a
statement that no other thread writes for. -/
theorem distinct_update (h : ∀ t u n, num t = some n → num u = some n → t = u)
    (hnext : ∀ u n, next = some n → num u = some n → u = t) (u v : ι) (n : ℕ)
    (hu : Function.update num t next u = some n) (hv : Function.update num t next v = some n) :
    u = v := by
  obtain ⟨hut, hun⟩ | ⟨hut, hun⟩ := Config.update_eq_some hu <;>
    obtain ⟨hvt, hvn⟩ | ⟨hvt, hvn⟩ := Config.update_eq_some hv
  · rw [hut, hvt]
  · exact absurd (hnext v n hun hvn) hvt
  · exact absurd (hnext u n hvn hun) hut
  · exact h u v n hun hvn

theorem Orderly.call (h : Orderly componentName cfg num) (t : ι) (call : LogCall) :
    Orderly componentName (cfg.put t ⟨call, entry componentName call, [], false⟩)
      (Function.update num t none) where
  recorded := h.recorded
  running u tu hu := by
    obtain ⟨-, ⟨⟩⟩ | ⟨-, hu⟩ := Config.update_eq_some hu
    · rfl
    · exact h.running u tu hu
  stage u tu hu := by
    obtain ⟨rfl, ⟨⟩⟩ | ⟨hne, hu⟩ := Config.update_eq_some hu
    · rw [Function.update_self]
      exact .start call
    · rw [Function.update_of_ne hne]
      exact h.stage u tu hu
  begun u n hu := by
    obtain ⟨-, ⟨⟩⟩ | ⟨-, hu⟩ := Config.update_eq_some hu
    exact h.begun u n hu
  distinct := distinct_update h.distinct fun _ _ hn => by cases hn

/-- Thread `t` acts. The statements of the others stay where they are. -/
theorem Orderly.act (h : Orderly componentName cfg num) (ht : cfg.thread t = some th)
    (hb : th.blocked = false) (hadvances : Advances cfg.shared w (num t) next)
    (hstage : Stage componentName w.journal next th.call code) :
    Orderly componentName { cfg.put t { th with code := code } with shared := w }
      (Function.update num t next) where
  recorded := hadvances.recorded
  running u tu hu := by
    obtain ⟨-, ⟨⟩⟩ | ⟨-, hu⟩ := Config.update_eq_some hu
    · exact hb
    · exact h.running u tu hu
  stage u tu hu := by
    obtain ⟨rfl, ⟨⟩⟩ | ⟨hne, hu⟩ := Config.update_eq_some hu
    · rw [Function.update_self]
      exact hstage
    · rw [Function.update_of_ne hne]
      have hu' := h.stage u tu hu
      rcases hadvances.journal with hj | ⟨e, hj, he⟩
      · exact hj ▸ hu'
      · apply hj ▸ hu'.frame
        intro hn
        rcases he with he | he
        · exact hne (h.distinct u t _ hn he)
        · exact absurd (h.begun u _ hn) (not_le.mpr he)
  begun u n hu := by
    rcases Config.update_eq_some hu with ⟨-, hu⟩ | ⟨-, hu⟩
    · exact (hadvances.next n hu).1
    · exact (h.begun u n hu).trans hadvances.begun
  distinct := distinct_update h.distinct fun u n hnext hu => by
    rcases (hadvances.next n hnext).2 with ht | ht
    · exact h.distinct u t n hu ht
    · exact absurd (h.begun u n hu) (not_le.mpr ht)

/-- The step lemma. -/
theorem Orderly.step {a : Action ι LogCall} (h : Orderly componentName cfg num)
    (hm : Moves (entry componentName) cfg a cfg') : ∃ num', Orderly componentName cfg' num' := by
  cases hm with
  | call t c ht => exact ⟨_, h.call t c⟩
  | @ret t th r ht hb hr =>
    refine ⟨num, h.recorded, fun u tu hu => ?_, fun u tu hu => ?_, h.begun, h.distinct⟩
    · exact h.running u tu (Config.thread_of_remove hu)
    · exact h.stage u tu (Config.thread_of_remove hu)
  | @act t th f g ht hb hact =>
    obtain ⟨next, hadvances, hstage⟩ := (hact ▸ h.stage t th ht).act h.recorded (h.begun t)
    exact ⟨_, h.act ht hb hadvances hstage⟩
  | lock ht hb hc
  | unlock ht hb hc
  | goOn ht hb hc
  | block ht hb hc
  | notifyNobody ht hb hc
  | notify ht hb hc =>
    obtain ⟨f, g, hcode⟩ | hcode := (h.stage _ _ ht).acts_or_returns <;> rw [hcode] at hc <;> cases hc
  | wake ht hb | timeout ht hb =>
    rw [h.running _ _ ht] at hb
    cases hb

variable [Fintype ι] {environment : Environment}

/-- The run lemma. -/
theorem orderly_of_reaches
    (hr : Reaches (entry componentName) (Config.idle (.start environment) []) cfg) :
    ∃ num, Orderly componentName cfg num := by
  induction hr with
  | refl => exact ⟨_, .idle environment⟩
  | tail _ hstep ih =>
    obtain ⟨a, hp⟩ := hstep
    obtain ⟨num, h⟩ := ih
    exact h.step (moves_of_perform hp)

/-- For every logger, any threads and any interleaving of their statements, with any
severities and any number of fragments, in an environment that changes in any way: the
lines are one for every statement within the log level at its flush, each its own heading
and fragments, if and only if all these statements were undisturbed. -/
theorem lines_faithful_iff
    (hr : Reaches (entry componentName) (Config.idle (.start environment) []) cfg) :
    Faithful cfg.shared ↔ Undisturbed cfg.shared.journal := by
  obtain ⟨num, h⟩ := orderly_of_reaches hr
  exact h.recorded.faithful_iff

end

/-- The log level is the default, and lines go to `syslog`. -/
def plain : Environment := ⟨none, none, false, "[2023-01-01 00:00:00]"⟩

/-- A statement of a thread, and `n` of its steps. -/
def logs (t : Fin 2) (severity : Severity) (fragments : List String) (n : ℕ) : List (Action (Fin 2) LogCall) :=
  .call t (.log ⟨severity, fragments⟩) :: List.replicate n (.run t)

/-- One that is not within the log level comes before one that is. -/
def apart : List (Action (Fin 2) LogCall) := logs 0 .debug ["a", "b"] 6 ++ logs 1 .error ["c"] 4

theorem lines_faithful_iff_apart : ∃ cfg : Config Logging Empty Empty (Fin 2) LogCall Unit,
    Reaches (entry "open_cdm") (Config.idle (.start plain) []) cfg ∧ cfg.shared.lines.length = 1 ∧
      Faithful cfg.shared := by
  obtain ⟨cfg, hf, hlines, hjournal⟩ : ∃ cfg, follow (entry "open_cdm") apart
      (Config.idle (.start plain) []) = some cfg ∧ cfg.shared.lines.length = 1 ∧
      Undisturbed cfg.shared.journal := ⟨_, rfl, rfl, by decide⟩
  have hr := reaches_of_follow hf
  exact ⟨cfg, hr, hlines, (lines_faithful_iff hr).mpr hjournal⟩

/-- A statement that is not within the log level comes between the heading and the flush of
one that is: the line of the one begins with the other's heading. -/
def mixed : List (Action (Fin 2) LogCall) :=
  logs 0 .debug ["a"] 1 ++ logs 1 .error ["b"] 3

theorem lines_mixed : ¬ ∀ cfg : Config Logging Empty Empty (Fin 2) LogCall Unit,
    Reaches (entry "open_cdm") (Config.idle (.start plain) []) cfg → Faithful cfg.shared := by
  intro h
  obtain ⟨cfg, hf, hjournal⟩ : ∃ cfg, follow (entry "open_cdm") mixed
      (Config.idle (.start plain) []) = some cfg ∧ ¬ Undisturbed cfg.shared.journal :=
    ⟨_, rfl, by decide⟩
  have hr := reaches_of_follow hf
  obtain ⟨num, ho⟩ := orderly_of_reaches hr
  exact hjournal (ho.recorded.faithful_iff.mp (h cfg hr))

end RialtoOcdm.Logger
