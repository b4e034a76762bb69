import FileCensus.Proofs.Breakdown
import FileCensus.Proofs.Output
import FileCensus.Proofs.Report

/-!
What a command leaves behind when it cannot write, and what it means that no job is left behind. A
write may be refused at any point, and the output may not open at all; besides, anybody may leave a
scanner on account of an exception, whatever else goes on around it. How the array is closed is not
looked at: a close is never refused here.
-/

namespace FileCensus

open Json

namespace Command

/-- What a command leaves behind when a write is refused after these entries. -/
structure Report.Breaks (report : Report) (output : Option Place) (entries : List FileEntry)
    (fault : Fault) : Prop where
  code : report.code = 1
  holds : report.Holds output entries []
  reason : ∃ before, report.err = before ++ complaint ("cannot write entries: " ++ fault.message)

variable {env : Environment} {before fs : FileSystem} {log : Log} {r : Request}
  {settings : Settings} {output : Option Place} {shares : List Share} {c : Census} {k : Nat}
  {fault : Fault}

/-- A census in which a write was refused, when it is over. -/
theorem breaks_of_blamed (recorded : c.Recorded) (ended : c.isEnded = true)
    (cause : c.stage.cause = some (.system fault)) (writer : c.writer.isSome = output.isSome) :
    ∃ report, reportOf env fs log r output c = .ok report ∧
      report.Breaks output c.written fault := by
  have stage : c.stage = .ended (some (.system fault)) := by
    rw [Census.stage_of_isEnded ended, cause]
  have decided (refusal : Option Failure) : verdict refusal c =
      .ok (1, "", complaint ("cannot write entries: " ++ fault.message)) := by
    simp only [verdict, stage]
  have nothing : Lists "" [] := ⟨[], rfl, List.forall_mem_nil _, .nil⟩
  refine ⟨_, by rw [reportOf, decided]; rfl, rfl, ?_, ⟨_, rfl⟩⟩
  exact holds_of_recorded recorded (by rw [stage]; rfl) writer nothing rfl rfl

/-- What becomes of a request whose output cannot be opened. The scanner is left at once, and no root
has been submitted or ever is. -/
structure Unopened (env : Environment) (before : FileSystem) (log : Log) (r : Request)
    (settings : Settings) (path : Path) (f : Failure) : Prop where
  unsubmitted : ∀ turns, ((Census.abandoned (scannerOf r settings) f).follow
    (planOf env before r none) turns).scanner.jobs = []
  released : ∀ turns, ((Census.abandoned (scannerOf r settings) f).follow
      (planOf env before r none) turns).stage.isReleased = true →
    ((Census.abandoned (scannerOf r settings) f).follow
      (planOf env before r none) turns).scanner.IsReleased
  ends : ∀ turns, Census.IsFair turns → ∃ n, ∀ m, n ≤ m →
    ((Census.abandoned (scannerOf r settings) f).after (planOf env before r none) turns m).stage =
      .ended (some f)
  answer : ∀ fault, f = .system fault → ∃ n, ∀ m, n ≤ m → carryOut m env before log r =
    .ok (.refused before ("cannot open output " ++ path.text ++ ": " ++ fault.message))

theorem unopened {path : Path} {f : Failure} (set : settingsOf before r = .ok settings)
    (asked : r.output = some path) (failed : before.createFile path 0 = .error f) :
    Unopened env before log r settings path f := by
  have vacant : (Census.abandoned (scannerOf r settings) f).Vacant f :=
    Census.vacant_abandoned _ settings f
  have lively := Census.lively_vacant (planOf env before r none) loopTree f
  have ended {c : Census} (vacant : c.Vacant f) (ended : c.isEnded = true) :
      c.stage = .ended (some f) := by
    rw [Census.stage_of_isEnded ended, vacant.cause]
  constructor
  · exact fun turns => (lively.follow vacant turns).jobs
  · intro turns past
    have vacant := lively.follow vacant turns
    exact ((Census.shut_abandoned _ f).follow turns).released vacant.heeded vacant.orderly past
  · intro turns fair
    obtain ⟨n, ends⟩ := lively.ends_of_fair vacant loopTree_wellFormed fair
    exact ⟨n, fun m le => ended (lively.follow vacant _) (ends m le)⟩
  · rintro fault rfl
    obtain ⟨n, ends⟩ := lively.run_ends vacant loopTree_wellFormed
    refine ⟨n, fun m le => ?_⟩
    have refused : openOutput before r = .error (.system fault) := by
      simp only [openOutput, asked, failed]
      rfl
    obtain ⟨turns, same⟩ := Census.run_eq_follow (planOf env before r none) m
      (Census.abandoned (scannerOf r settings) (.system fault))
    have stage := ended (lively.follow vacant turns) (same ▸ ends m le)
    simp only [carryOut, set, refused, same, refusalOf, stage, asked, Option.map_some,
      Option.getD_some]

/-- What a command answers in the end when the write after `k` others is refused, if it comes to
that: nothing is to be seen of a write that is never made. -/
def Settles (env : Environment) (k : Nat) (output : Option Place) (shares : List Share)
    (fault : Fault) (answer : Except Failure Report) : Prop :=
    if k < (Share.concat shares).length then
      ∃ report, answer = .ok report ∧ report.Breaks output ((Share.concat shares).take k) fault
    else Concludes env output shares answer

/-- The census of a request after some turns. -/
def censusAfter (env : Environment) (fs : FileSystem) (r : Request) (settings : Settings)
    (output : Option Place) (turns : List Census.Turn) : Census :=
    (censusOf r settings output).follow (planOf env fs r output) turns

/-- What becomes of a request when the write after `k` others is refused. Only the entries before it
are ever written. The scanner is left then, and released before its worker is waited for. -/
structure BreaksOff (env : Environment) (fs : FileSystem) (log : Log) (r : Request)
    (settings : Settings) (output : Option Place) (k : Nat) (shares : List Share) (fault : Fault) :
    Prop where
  front : ∀ turns, (censusAfter env fs r settings output turns).written <+:
    (Share.concat shares).take k
  blamed : ∀ turns f, (censusAfter env fs r settings output turns).stage.cause = some f →
    f = .system fault ∧
      (censusAfter env fs r settings output turns).written = (Share.concat shares).take k
  leaves : ∀ turns, (censusAfter env fs r settings output turns).isEnded = true →
    k < (Share.concat shares).length →
      (censusAfter env fs r settings output turns).stage.isReleased = true
  released : ∀ turns, (censusAfter env fs r settings output turns).stage.isReleased = true →
    (censusAfter env fs r settings output turns).scanner.IsReleased
  ends : ∀ turns, Census.IsFair turns → ∃ n, ∀ m, n ≤ m →
    ((censusOf r settings output).after (planOf env fs r output) turns m).isEnded = true
  settles : ∀ turns, (censusAfter env fs r settings output turns).isEnded = true →
    Settles env k output shares fault
      (reportOf env fs log r output (censusAfter env fs r settings output turns))

theorem breaksOff (wf : fs.WellFormed)
    (sound : ∀ root ∈ r.roots, ∀ name ∈ root.names, '\x00' ∉ name.toList)
    (positive : 0 < r.queueSize)
    (willing : ∀ j < k, (planOf env fs r output).refusal j = none)
    (refused : (planOf env fs r output).refusal k = some (.system fault))
    (given : List.Forall₂ (IsShare settings (surroundingsOf env fs r)) r.roots shares) :
    BreaksOff env fs log r settings output k shares fault := by
  have reads : (surroundingsOf env fs r).probe.Reads fs := fs.probe_reads _
  have plans : ∀ root ∈ r.roots, ∃ q, settings.plan (surroundingsOf env fs r) root = .ok q :=
    plans_of_sound sound
  have clean := clean_censusOf env fs settings output positive
  have fails (turns : List Census.Turn) :
      (censusAfter env fs r settings output turns).Fails (planOf env fs r output) settings fs
        (Share.concat shares) k (.system fault) :=
    (Census.Fails.coming clean (Nat.zero_le k)).follow wf reads plans given willing refused turns
  have whole {c : Census} (clean : c.Clean (planOf env fs r output) settings fs)
      (few : c.written.length ≤ k) (ended : c.isEnded = true) :
      ¬k < (Share.concat shares).length := by
    have all : c.written = Share.concat shares :=
      (clean.delivers (Census.Stage.isReported_of_isEnded ended) given).1
    exact Nat.not_lt_of_ge (all ▸ few)
  constructor
  · exact fun turns => (fails turns).front given
  · exact fun turns f cause => (fails turns).of_cause cause
  · intro turns ended more
    cases fails turns with
    | coming clean few => exact absurd more (whole clean few ended)
    | blamed _ _ cause _ _ =>
        rw [Census.stage_of_isEnded ended, cause]
        rfl
  · intro turns past
    have runs := (fails turns).runs
    exact ((Census.shut_start _ _ _).follow turns).released runs.heeded runs.orderly past
  · exact fun turns fair => clean.runs.ends_of_fair wf reads fair
  · intro turns ended
    have writer := writer_censusOf (planOf env fs r output) r settings output turns
    cases fails turns with
    | coming clean few =>
        have tallies := given.imp fun _ _ share => IsShare.tallies share wf reads
        rw [Settles, if_neg (whole clean few ended)]
        exact concludes_of_clean clean ended writer given (total_queued tallies)
    | blamed runs recorded cause written more =>
        rw [Settles, if_pos more]
        exact written ▸ breaks_of_blamed recorded ended cause writer

/-- No job is left behind. A scanner that is left on account of an exception is released before its
worker is waited for, whatever else goes on; no root has been submitted when the output cannot be
opened; and when a write is refused the command ends with the entries before it, in every order of
turns and with every queue. -/
theorem strands_no_job :
    (∀ {ε : Type} (w : Surroundings ε) (capacity : Option Nat) (latched : Bool) turns,
      ((Departure.fresh capacity latched).follow w turns).leaving.hasStopped = true →
        ((Departure.fresh capacity latched).follow w turns).reception.scanner.IsReleased) ∧
    (∀ {env before log r settings path f}, settingsOf before r = .ok settings →
      r.output = some path → before.createFile path 0 = .error f →
        Unopened env before log r settings path f) ∧
    ∀ {env before fs log r settings output k fault}, settingsOf before r = .ok settings →
      openOutput before r = .ok (fs, output) → fs.WellFormed →
      (∀ root ∈ r.roots, ∀ name ∈ root.names, '\x00' ∉ name.toList) →
      (∀ j < k, (planOf env fs r output).refusal j = none) →
      (planOf env fs r output).refusal k = some (.system fault) →
        ∃ shares, List.Forall₂ (IsShare settings (surroundingsOf env fs r)) r.roots shares ∧
          ∀ size, 0 < size →
            BreaksOff env fs log { r with queueSize := size } settings output k shares fault ∧
            ∃ n, ∀ m, n ≤ m → Settles env k output shares fault
              (carryOut m env before log { r with queueSize := size }) := by
  refine ⟨fun w capacity latched turns past => ?_, unopened, ?_⟩
  · exact ((Departure.kept_fresh w capacity latched).follow turns).released past
  intro env before fs log r settings output k fault set opened wf sound willing refused
  have reads : (surroundingsOf env fs r).probe.Reads fs := fs.probe_reads _
  obtain ⟨shares, given⟩ := exists_shares wf reads (plans_of_sound sound)
  refine ⟨shares, given, fun size positive => ?_⟩
  have breaks : BreaksOff env fs log { r with queueSize := size } settings output k shares fault :=
    breaksOff wf sound positive willing refused given
  have clean := clean_censusOf (r := { r with queueSize := size }) env fs settings output positive
  obtain ⟨n, ends⟩ := clean.runs.run_ends wf reads
  refine ⟨breaks, n, fun m le => ?_⟩
  obtain ⟨turns, carried, same⟩ :=
    carryOut_eq env log (r := { r with queueSize := size }) set opened m
  rw [carried]
  exact breaks.settles turns (by rw [censusAfter, ← same]; exact ends m le)

/-- Two jobs with a file each and a queue for one entry, so that the second job cannot put its own. -/
def crowding : List Departure.Turn :=
    let scans (i : Nat) : List Reception.Turn :=
      .outside (.scan ⟨.here, ["a"]⟩) ::
        List.replicate 3 (.outside (.submit i)) ++ List.replicate 8 .enter
    let works : List Reception.Turn := List.replicate 40 (.outside .work)
    (scans 0 ++ scans 1 ++ works).map .other

/-- An output that is full at once. -/
def fullEnvironment : Environment :=
    { loopEnvironment with streamRefusal := fun _ => some (.system (.plain "full")) }

/-- A request for an output below a file. -/
def misplacedRequest : Request :=
    { loopRequest with output := some ⟨.here, ["a", "b"]⟩ }

theorem loop_strands_no_job :
    (((Departure.fresh (some 1) false).follow Reception.plain crowding).reception.scanner.isBlocked =
        true ∧
      ((Departure.fresh (some 1) false).follow Reception.plain
        (crowding ++ List.replicate 21 .leave)).reception.scanner.IsReleased) ∧
    (∃ f, misplacedRequest.output = some ⟨.here, ["a", "b"]⟩ ∧
      loopTree.createFile ⟨.here, ["a", "b"]⟩ 0 = .error f ∧
      Unopened loopEnvironment loopTree (.toStream .info) misplacedRequest .usual
        ⟨.here, ["a", "b"]⟩ f) ∧
    ∃ shares, List.Forall₂
        (IsShare .usual (surroundingsOf fullEnvironment loopTree loopRequest)) loopRequest.roots
        shares ∧
      BreaksOff fullEnvironment loopTree (.toStream .info) loopRequest .usual none 0 shares
        (.plain "full") := by
  obtain ⟨departs, refuses, breaks⟩ := strands_no_job
  have failed : loopTree.createFile ⟨.here, ["a", "b"]⟩ 0 =
      .error (.system (.coded 17 "File exists" (some "a"))) := by cbv
  refine ⟨⟨by decide +kernel, departs _ _ _ _ (by decide +kernel)⟩,
    ⟨_, rfl, failed, refuses rfl rfl failed⟩, ?_⟩
  have whole := @breaks fullEnvironment loopTree loopTree (.toStream .info) loopRequest .usual none 0
    (.plain "full") rfl rfl loopTree_wellFormed (by simp [loopRequest]) (by simp) rfl
  obtain ⟨shares, given, all⟩ := whole
  exact ⟨shares, given, (all 1024 (by decide)).1⟩

end Command
end FileCensus
