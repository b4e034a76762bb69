import FileCensus.Census.Step
import FileCensus.Proofs.Printing

/-!
What one turn of the main thread of a census can do. The program of the main thread is cut into its
outcomes once; whatever a census keeps is shown by going through these, with the stage of the main
thread before the turn and after it in plain sight.
-/

namespace FileCensus
namespace Census

/-- The outcomes of a turn of the main thread, in the order of its program. -/
inductive Proceeds (p : Plan) : Census → Census → Prop where
  | rests (c : Census) (still : c.isWaiting = true ∨ c.isEnded = true) : Proceeds p c c
  | submitted (c : Census) (submission : Submission FileEntry) :
      Proceeds p (c.go (.submitting [] submission)) (c.go .grouping)
  | accepts (c : Census) (root : Path) (rest : List Path) (n : Nat) :
      Proceeds p (c.go (.submitting (root :: rest) (.accepted n)))
        ({ c with accepted := c.accepted ++ [n] }.go (.submitting rest .asking))
  | refuses (c : Census) (root : Path) (rest : List Path) (f : Failure) :
      Proceeds p (c.go (.submitting (root :: rest) (.refused f)))
        (c.go (.stopping .leaving .marking (some f)))
  | submits (c : Census) (root : Path) (rest : List Path) (submission : Submission FileEntry)
      (unanswered : ∀ n, submission ≠ .accepted n) (willing : ∀ f, submission ≠ .refused f) :
      Proceeds p (c.go (.submitting (root :: rest) submission))
        ({ c with scanner := (c.scanner.submitStep p.surroundings root submission).2 }.go
          (.submitting (root :: rest) (c.scanner.submitStep p.surroundings root submission).1))
  | groups (c : Census) :
      Proceeds p (c.go .grouping)
        ({ c with scanner := (c.scanner.startGroup c.accepted.length).1 }.go
          (.registering c.accepted (c.scanner.startGroup c.accepted.length).2))
  | registered (c : Census) (group : Nat) :
      Proceeds p (c.go (.registering [] group)) (c.go .waiting)
  | registers (c : Census) (n : Nat) (left : List Nat) (group : Nat) :
      Proceeds p (c.go (.registering (n :: left) group))
        ({ c with scanner := (c.scanner.addCallback n (.countDown group)).1 }.go
          (.telling (c.scanner.addCallback n (.countDown group)).2 left group))
  | told (c : Census) (left : List Nat) (group : Nat) :
      Proceeds p (c.go (.telling [] left group)) (c.go (.registering left group))
  | tells (c : Census) (call : Call) (rest : List Call) (left : List Nat) (group : Nat) :
      Proceeds p (c.go (.telling (call :: rest) left group))
        ({ c with scanner := (c.scanner.perform call).1 }.go
          (.telling ((c.scanner.perform call).2 ++ rest) left group))
  | signalled (c : Census) (l : Latch) (n : Nat) (latch : c.scanner.channel.latch = some l)
      (pending : l.pending = n + 1) :
      Proceeds p (c.go .waiting)
        ({ c with scanner := { c.scanner with channel := { c.scanner.channel with
          latch := some { l with pending := n } } } }.go .taking)
  | exhausts (c : Census)
      (exhausted : ∀ l, c.scanner.channel.latch = some l → l.isExhausted = true) :
      Proceeds p (c.go .waiting) (c.go (.closing none))
  | takes (c : Census) (e : FileEntry) (rest : List FileEntry)
      (items : c.scanner.channel.items = e :: rest) :
      Proceeds p (c.go .taking)
        ({ c with scanner := { c.scanner with channel := { c.scanner.channel with items := rest } } }.go
          (.writing e))
  | prints (c : Census) (e : FileEntry) (willing : p.refusal c.writes.length = none)
      (writer : c.writer = none) :
      Proceeds p (c.go (.writing e)) ({ c with writes := e :: c.writes }.go .waiting)
  | appends (c : Census) (e : FileEntry) (w w' : Json.ArrayWriter)
      (willing : p.refusal c.writes.length = none) (writer : c.writer = some w)
      (wrote : w.write e.fields = .ok w') :
      Proceeds p (c.go (.writing e))
        ({ c with writes := e :: c.writes, writer := some w' }.go .waiting)
  | fails (c : Census) (e : FileEntry) (f : Failure)
      (fault : p.refusal c.writes.length = some f ∨
        ∃ w, c.writer = some w ∧ w.write e.fields = .error (f, w)) :
      Proceeds p (c.go (.writing e)) (c.go (.closing (some f)))
  | closes (c : Census) :
      Proceeds p (c.go (.closing none))
        ({ c with writer := c.writer.map Json.ArrayWriter.close }.go .summarising)
  | blames (c : Census) (f : Failure) :
      Proceeds p (c.go (.closing (some f)))
        ({ c with writer := c.writer.map Json.ArrayWriter.close }.go
          (.stopping (.onFailure f) .marking (some f)))
  | summarises (c : Census) :
      Proceeds p (c.go .summarising)
        ({ c with summary := c.summarise.summary }.go (.stopping .closing .marking none))
  | handled (c : Census) (idle : List Nat) (cause : Option Failure) :
      Proceeds p (c.go (.stopping .handling (.over idle) cause))
        (c.go (.stopping .leaving .marking cause))
  | left (c : Census) (idle : List Nat) (cause : Option Failure) :
      Proceeds p (c.go (.stopping .leaving (.over idle) cause))
        (c.go (.stopping .closing .marking cause))
  | closed (c : Census) (idle : List Nat) (cause : Option Failure) :
      Proceeds p (c.go (.stopping .closing (.over idle) cause)) (c.go (.joining cause))
  | stops (c : Census) (exit : Exit) (progress : Stopping) (cause : Option Failure)
      (going : ∀ idle, progress ≠ .over idle)
      (quiet : (c.scanner.stopStep exit.kind progress).2.2 = []) :
      Proceeds p (c.go (.stopping exit progress cause))
        ({ c with scanner := (c.scanner.stopStep exit.kind progress).2.1 }.go
          (.stopping exit (c.scanner.stopStep exit.kind progress).1 cause))
  | dismisses (c : Census) (exit : Exit) (progress : Stopping) (cause : Option Failure)
      (going : ∀ idle, progress ≠ .over idle)
      (loud : (c.scanner.stopStep exit.kind progress).2.2 ≠ []) :
      Proceeds p (c.go (.stopping exit progress cause))
        ({ c with scanner := (c.scanner.stopStep exit.kind progress).2.1 }.go
          (.dismissing (c.scanner.stopStep exit.kind progress).2.2 exit
            (c.scanner.stopStep exit.kind progress).1 cause))
  | dismissed (c : Census) (exit : Exit) (progress : Stopping) (cause : Option Failure) :
      Proceeds p (c.go (.dismissing [] exit progress cause)) (c.go (.stopping exit progress cause))
  | informs (c : Census) (call : Call) (rest : List Call) (exit : Exit) (progress : Stopping)
      (cause : Option Failure) :
      Proceeds p (c.go (.dismissing (call :: rest) exit progress cause))
        ({ c with scanner := (c.scanner.perform call).1 }.go
          (.dismissing ((c.scanner.perform call).2 ++ rest) exit progress cause))
  | joins (c : Census) (cause : Option Failure) (idle : c.scanner.isIdle = true) :
      Proceeds p (c.go (.joining cause)) (c.go (.ended cause))

variable {p : Plan}

theorem proceeds_wait (c : Census) : Proceeds p (c.go .waiting) (c.go .waiting).wait := by
  cases latch : c.scanner.channel.latch with
  | none =>
      simp only [wait, go, latch]
      exact .exhausts c fun l found => by rw [latch] at found; cases found
  | some l =>
      cases pending : l.pending with
      | succ n =>
          simp only [wait, go, latch, Latch.take, pending]
          exact .signalled c l n latch pending
      | zero =>
          simp only [wait, go, latch, Latch.take, pending]
          cases blocks : l.blocks with
          | true => exact .rests _ (.inl (by simp [isWaiting, latch, blocks]))
          | false =>
              refine .exhausts c fun l' found => ?_
              cases latch.symm.trans found
              simpa [Latch.blocks, Latch.isExhausted, pending] using blocks

theorem proceeds_take (c : Census) : Proceeds p (c.go .taking) (c.go .taking).take := by
  cases items : c.scanner.channel.items with
  | nil =>
      simp only [take, go, Channel.get?, items]
      exact .rests _ (.inl (by simp [isWaiting, items]))
  | cons e rest =>
      simp only [take, go, Channel.get?, items]
      exact .takes c e rest items

theorem proceeds_write (c : Census) (e : FileEntry) :
    Proceeds p (c.go (.writing e)) ((c.go (.writing e)).write p e) := by
  cases willing : p.refusal c.writes.length with
  | some f =>
      have step : (c.go (.writing e)).write p e = c.go (.closing (some f)) := by
        simp only [write, go, willing]
      exact step ▸ .fails c e f (.inl willing)
  | none =>
      cases writer : c.writer with
      | none =>
          have step : (c.go (.writing e)).write p e =
              { c with writes := e :: c.writes }.go .waiting := by
            simp only [write, go, willing, writer]
          exact step ▸ .prints c e willing writer
      | some w =>
          have written := w.write_of_isPrintable e.isPrintable
          split at written
          · have step : (c.go (.writing e)).write p e = c.go (.closing (some .fileClosed)) := by
              simp only [write, go, willing, writer, written]
            exact step ▸ .fails c e .fileClosed (.inr ⟨w, writer, written⟩)
          · obtain ⟨w', wrote⟩ : ∃ w', w.write e.fields = .ok w' := ⟨_, written⟩
            have step : (c.go (.writing e)).write p e =
                { c with writes := e :: c.writes, writer := some w' }.go .waiting := by
              simp only [write, go, willing, writer, wrote]
            exact step ▸ .appends c e w w' willing writer wrote

theorem proceeds_stopStep (c : Census) (exit : Exit) (progress : Stopping)
    (cause : Option Failure) :
    Proceeds p (c.go (.stopping exit progress cause))
      ((c.go (.stopping exit progress cause)).stopStep exit progress cause) := by
  have goes (going : ∀ idle, progress ≠ .over idle) :
      Proceeds p (c.go (.stopping exit progress cause))
        (let stopped := { c with scanner := (c.scanner.stopStep exit.kind progress).2.1 }
        if (c.scanner.stopStep exit.kind progress).2.2.isEmpty then
          stopped.go (.stopping exit (c.scanner.stopStep exit.kind progress).1 cause)
        else stopped.go (.dismissing (c.scanner.stopStep exit.kind progress).2.2 exit
          (c.scanner.stopStep exit.kind progress).1 cause)) := by
    split
    · next quiet => exact .stops c exit progress cause going (List.isEmpty_iff.mp quiet)
    · next loud => exact .dismisses c exit progress cause going (loud ∘ List.isEmpty_iff.mpr)
  cases progress with
  | «over» idle =>
      cases exit with
      | handling => exact .handled c idle cause
      | leaving => exact .left c idle cause
      | closing => exact .closed c idle cause
  | marking | looking _ _ _ | confirming _ _ _ _ | choosing _ _ | cancelling _ _ _ _ | halting _
  | withdrawing _ => exact goes fun _ same => by cases same

theorem proceeds_go (c : Census) (stage : Stage) :
    Proceeds p (c.go stage) ((c.go stage).mainStep p) := by
  cases stage with
  | submitting left submission =>
      cases left with
      | nil => exact .submitted c submission
      | cons root rest =>
          cases submission with
          | accepted n => exact .accepts c root rest n
          | refused f => exact .refuses c root rest f
          | asking | preparing | entering _ =>
              exact .submits c root rest _ (fun _ same => by cases same) fun _ same => by cases same
  | grouping => exact .groups c
  | registering left group =>
      cases left with
      | nil => exact .registered c group
      | cons n left => exact .registers c n left group
  | telling calls left group =>
      cases calls with
      | nil => exact .told c left group
      | cons call rest => exact .tells c call rest left group
  | waiting => exact c.proceeds_wait
  | taking => exact c.proceeds_take
  | writing e => exact c.proceeds_write e
  | closing cause =>
      cases cause with
      | none => exact .closes c
      | some f => exact .blames c f
  | summarising => exact .summarises c
  | stopping exit progress cause => exact c.proceeds_stopStep exit progress cause
  | dismissing calls exit progress cause =>
      cases calls with
      | nil => exact .dismissed c exit progress cause
      | cons call rest => exact .informs c call rest exit progress cause
  | joining cause =>
      cases idle : c.scanner.isIdle with
      | true =>
          simp only [mainStep, go, idle, if_true]
          exact .joins c cause idle
      | false =>
          simp only [mainStep, go, idle, Bool.false_eq_true, if_false]
          exact .rests _ (.inl (by simp [isWaiting, idle]))
  | ended cause => exact .rests _ (.inr rfl)

theorem proceeds (p : Plan) (c : Census) : Proceeds p c (c.mainStep p) :=
  c.proceeds_go c.stage

end Census
end FileCensus
