import ChipEight.CommandLine.Run
import ChipEight.Proofs.FrameLoop
import ChipEight.Proofs.Loading
import Mathlib.Data.List.TakeWhile

/-!
# How a run ends

There are many ways to the end of a run, and each part of the program looks after some of them: the
arguments, the file, the machine, the window, the session. What they report is said once (`Ended`):
one message for what went wrong, or none. So the exit code, the output and the error messages of any
run can be told from the way it went. Three ways lead past all of that (`BreaksOff`), and a run that
takes one of them has no exit code.

Only the window knows how a session went. It keeps the fault of the tick that it stopped at, and no
earlier tick can have had one, so this fault stands for all of them (`fault_run_eq_none`). What it
has not kept yet when the user interrupts the session is lost.
-/

namespace ChipEight

/-- A regular file that has the size of a program. -/
def Found.HoldsProgram (found : Found) : Prop :=
  ∃ data, found = .file data ∧ 1 ≤ data.length ∧ data.length ≤ 3584

theorem Found.HoldsProgram.isFile {found : Found} (h : found.HoldsProgram) :
    found.isFile = true := by
  obtain ⟨data, rfl, -⟩ := h
  rfl

namespace ProgramFile

variable {found : Found}

theorem read_eq_ok_iff (path : String) :
    (∃ data, read path found = .ok data) ↔ found.HoldsProgram := by
  constructor
  · rintro ⟨data, hread⟩
    cases found with
    | file bytes =>
      rcases refused_or_accepted path bytes with ⟨e, he⟩ | ⟨hempty, hfits⟩
      · rw [read_of_refused he] at hread
        cases hread
      · exact ⟨bytes, rfl, List.length_pos_of_ne_nil hempty, hfits⟩
    | _ => cases hread
  · rintro ⟨data, rfl, hpos, hfits⟩
    exact ⟨data, read_of_accepted path (List.ne_nil_of_length_pos hpos) hfits⟩

/-- What begins by reading and succeeds has read a program. -/
theorem read_bind_eq_ok {α : Type} {path : String} {next : List UInt8 → Except LoadError α} {a : α}
    (h : (read path found >>= next) = .ok a) :
    ∃ data, read path found = .ok data ∧ next data = .ok a := by
  cases hread : read path found with
  | error e =>
    rw [hread] at h
    cases h
  | ok data =>
    rw [hread] at h
    exact ⟨data, rfl, h⟩

theorem holdsProgram_of_describe {path : String} {d : Description}
    (h : describe path found = .ok d) : found.HoldsProgram := by
  obtain ⟨data, hread, -⟩ := read_bind_eq_ok h
  exact (read_eq_ok_iff path).mp ⟨data, hread⟩

theorem build_of_create {σ : Type} {path : String} {speed : Value} {source : σ} {m : Machine σ}
    (h : create path found speed source = .ok m) :
    found.HoldsProgram ∧ ∃ image, Machine.build image speed source = .ok m := by
  obtain ⟨data, hread, hmade⟩ := read_bind_eq_ok h
  refine ⟨(read_eq_ok_iff path).mp ⟨data, hread⟩, .bytes data, ?_⟩
  cases hbuild : Machine.build (.bytes data) speed source with
  | error e =>
    rw [hbuild] at hmade
    cases hmade
  | ok built =>
    rw [hbuild] at hmade
    cases hmade
    rfl

end ProgramFile

namespace Window

variable {σ : Type}

/-- A session in which nothing went wrong: no failure has left it, and no tick ran into a fault,
unless it was cut short before the window could keep that. -/
structure Session.Clean (s : Session σ) : Prop where
  failure : s.failure = none
  goes : ∀ w ∈ s.trace, w.machine.fault = none
  last : s.final.machine.fault = none ∨ s.CutEarly

theorem Session.failure_of_disrupted {s : Session σ} {stage : Stage} {d : Disruption}
    (h : s.disruption = some (stage, d)) : s.failure = if d = .interrupt then none else some d := by
  rw [failure, h]
  by_cases hd : d = .interrupt <;> simp [hd]

variable [RandomSource σ] {w : Window σ} {dt : Float}

section

variable {m : Machine σ} {image : Image} {speed : Value} {source : σ} {scale : Option Int}
  {title : Option String} {mixer : Mixer}

/-- A window ends without a fault if its machine was without one after every tick, and is so in the
end. -/
theorem fault_run_eq_none (hm : Machine.build image speed source = .ok m)
    (hw : create m scale title mixer = .ok w) (dt : Float) (frames : List Frame) :
    (w.run dt frames).final.fault = none ↔
      (∀ v ∈ (w.run dt frames).trace, v.machine.fault = none) ∧
        ((w.run dt frames).final.machine.fault = none ∨ (w.run dt frames).CutEarly) := by
  obtain ⟨hearly, hlate⟩ := fault_run hm hw dt frames
  constructor
  · intro hnone
    refine ⟨fun v hv => ?_, ?_⟩
    · obtain ⟨before, later, h⟩ := List.append_of_mem hv
      obtain ⟨f, -, -, hrunning, rfl, hlast⟩ := Session.loop_trace h
      have htally := (accounted_before hm hw h).tallied hrunning dt f
      cases hruns : ((before.getLastD w.start).next dt f).running with
      | true => exact (htally.accounted hruns).goes
      | false =>
        -- a window that has stopped is the last, and has kept the fault of its machine
        have hfinal : (w.run dt frames).final = ((before.getLastD w.start).next dt f).shutdown :=
          congrArg shutdown (hlast hruns).2.1
        rw [← htally.fault]
        rwa [hfinal] at hnone
    · by_cases hcut : (w.run dt frames).CutEarly
      · exact .inr hcut
      · exact .inl ((hlate hcut).symm.trans hnone)
  · rintro ⟨-, hgoes⟩
    by_cases hcut : (w.run dt frames).CutEarly
    · exact hearly hcut
    · exact (hlate hcut).trans (hgoes.resolve_right hcut)

end

end Window

namespace CommandLine

/-! ## What a run finds -/

/-- Where a line cannot be encoded, not all lines are printed. -/
theorem Encoding.takeWhile_ne_of_strange {e : Encoding} {lines : List String} {line : String}
    (h : e.strange? lines = some line) : lines.takeWhile e.encodes ≠ lines := by
  intro hall
  have hencoded := List.takeWhile_eq_self_iff.mp hall line (List.mem_of_find?_eq_some h)
  have hstrange := List.find?_some h
  rw [hencoded] at hstrange
  cases hstrange

/-- An output that has all characters can encode everything. -/
theorem Encoding.strange?_of_has_all {e : Encoding} (h : ∀ c, e.has c = true) (lines : List String) :
    e.strange? lines = none := by
  refine List.find?_eq_none.mpr fun line _ => ?_
  have hencodes : e.encodes line = true := List.all_eq_true.mpr fun c _ => h c
  rw [hencodes]
  exact Bool.false_ne_true

namespace Environment

/-- The path that a command line names. -/
def path (env : Environment) (o : Options) : String := Path.expandHome env.home o.program

def found (env : Environment) (o : Options) : Found := env.find (env.path o)

/-- The random source of a machine. -/
def sourceFor (env : Environment) (o : Options) : RandomStream :=
  ((o.seed.bind Setting.value?).map RandomStream.ofSeed).getD env.source

/-- The machine that is to be played. -/
def built (env : Environment) (o : Options) : Except LoadError (Machine RandomStream) :=
  ProgramFile.create (env.path o) (env.found o) (speedValue o) (env.sourceFor o)

/-- The window that it is to be played in. -/
def opened (env : Environment) (o : Options) (m : Machine RandomStream) :
    Except OpenError (Window RandomStream) :=
  Window.create m o.scale.value? (some (Path.baseName (env.path o)))
    (if o.audio then env.mixer else .off)

end Environment

variable {env : Environment} {o : Options} {dt : Float} {frames : List Frame}

/-- A null character stands in the name of the user whose home directory is asked for. -/
def Options.BadUser (o : Options) : Prop :=
  ∃ user, Path.user? o.program = some user ∧ Char.ofNat 0 ∈ user.toList

theorem Options.badUser_iff (o : Options) :
    ((Path.user? o.program).any fun user => !Path.isPath user) = true ↔ o.BadUser := by
  simp [BadUser, Path.isPath, Option.any_eq_true]

/-- What a run may come upon that nothing in the program takes care of: the home directory of such a
user, a description that the output cannot encode, or a program that is to be played with a seed
that was set to nothing. -/
inductive BreaksOff (env : Environment) (o : Options) : Breakdown → Prop where
  | badUser (huser : o.BadUser) : BreaksOff env o .badUser
  | unencodable (huser : ¬ o.BadUser) (hinfo : o.info = true) {d : ProgramFile.Description}
      (hdescribe : ProgramFile.describe (env.path o) (env.found o) = .ok d) {line : String}
      (hline : env.output.strange? (descriptionLines d) = some line) :
    BreaksOff env o (.unencodable (env.output.complaint line))
  | noSeed (huser : ¬ o.BadUser) (hfound : (env.found o).HoldsProgram) (hinfo : o.info = false)
      (hseed : o.seed = some .blank) : BreaksOff env o .noSeed

/-- The machine and the window of a run that gets as far as to open one. -/
structure Opens (env : Environment) (o : Options) (m : Machine RandomStream)
    (w : Window RandomStream) : Prop where
  machine : env.built o = .ok m
  window : env.opened o m = .ok w

/-! ## The ways to the end -/

/-- **How a run ends**, by the way it takes, with what it reports. -/
inductive Ended (env : Environment) (o : Options) (dt : Float) (frames : List Frame) :
    Report → Prop where
  | broken {b : Breakdown} (hbreaks : BreaksOff env o b)
      (hprints : ∀ complaint, b ≠ .unencodable complaint) (log : List Record) :
    Ended env o dt frames (.broken log b)
  | missing (hfound : (env.found o).isFile = false) :
    Ended env o dt frames (.failed [] ("Error: program file not found: " ++ env.path o))
  | described (hinfo : o.info = true) {d : ProgramFile.Description}
      (hdescribe : ProgramFile.describe (env.path o) (env.found o) = .ok d)
      (hline : env.output.strange? (descriptionLines d) = none) :
    Ended env o dt frames ⟨.program 0, descriptionLines d, [], [], none⟩
  | unprinted (hinfo : o.info = true) {d : ProgramFile.Description}
      (hdescribe : ProgramFile.describe (env.path o) (env.found o) = .ok d) {line : String}
      (hline : env.output.strange? (descriptionLines d) = some line)
      (hbreaks : BreaksOff env o (.unencodable (env.output.complaint line))) :
    Ended env o dt frames
      ⟨.none (.unencodable (env.output.complaint line)),
        (descriptionLines d).takeWhile env.output.encodes, [env.output.complaint line], [], none⟩
  | undescribed (hinfo : o.info = true) {e : LoadError}
      (hdescribe : ProgramFile.describe (env.path o) (env.found o) = .error e) :
    Ended env o dt frames (.failed [] ("Error reading program: " ++ e.message))
  | unbuilt (hinfo : o.info = false) {e : LoadError} (hbuilt : env.built o = .error e)
      (log : List Record) :
    Ended env o dt frames (.failed log ("Error: " ++ e.message))
  | unopened (hinfo : o.info = false) {m : Machine RandomStream} (hbuilt : env.built o = .ok m)
      {e : OpenError} (hopened : env.opened o m = .error e) (log : List Record) :
    Ended env o dt frames (.failed log ("Fatal error: " ++ e.message))
  | lost (hinfo : o.info = false) {m : Machine RandomStream} {w : Window RandomStream}
      (hopens : Opens env o m w) {text : String}
      (houtcome : (outcome (w.run dt frames)).1 = some text) (log : List Record) :
    Ended env o dt frames
      ⟨.program 1, [], ["Fatal error: " ++ text], log, some ⟨w, w.run dt frames⟩⟩
  | played (hinfo : o.info = false) {m : Machine RandomStream} {w : Window RandomStream}
      (hopens : Opens env o m w) (houtcome : (outcome (w.run dt frames)).1 = none)
      (log : List Record) :
    Ended env o dt frames ⟨.program 0, [], [], log, some ⟨w, w.run dt frames⟩⟩

theorem ended_play (hinfo : o.info = false) {m : Machine RandomStream}
    (hbuilt : env.built o = .ok m) (created : List Record) :
    Ended env o dt frames (play env o (env.path o) m created dt frames) := by
  have hopens : Window.create m o.scale.value? (some (Path.baseName (env.path o)))
    (if o.audio then env.mixer else .off) = env.opened o m := rfl
  unfold play
  dsimp only
  rw [hopens]
  cases hopened : env.opened o m with
  | error e => exact .unopened hinfo hbuilt hopened _
  | ok w =>
    dsimp only
    cases houtcome : (outcome (w.run dt frames)).1 with
    | some text => exact .lost hinfo ⟨hbuilt, hopened⟩ houtcome _
    | none => exact .played hinfo ⟨hbuilt, hopened⟩ houtcome _

theorem ended_start (huser : ¬ o.BadUser) (hinfo : o.info = false) :
    Ended env o dt frames (start env o (env.path o) (env.found o) dt frames) := by
  have hbuilds : ProgramFile.create (env.path o) (env.found o) (speedValue o)
    (((o.seed.bind Setting.value?).map RandomStream.ofSeed).getD env.source) = env.built o := rfl
  unfold start
  dsimp only
  rw [hbuilds]
  split
  · rename_i data hread hseed
    have hfound := (ProgramFile.read_eq_ok_iff _).mp ⟨data, hread⟩
    exact .broken (.noSeed huser hfound hinfo hseed) (fun _ => Breakdown.noConfusion) _
  · cases hbuilt : env.built o with
    | error e => exact .unbuilt hinfo hbuilt _
    | ok m => exact ended_play hinfo hbuilt _

theorem runOptions_of_badUser (huser : o.BadUser) :
    runOptions env o dt frames = .broken [] .badUser :=
  if_pos (o.badUser_iff.mpr huser)

/-- Every run takes one of these ways. -/
theorem ended (env : Environment) (o : Options) (dt : Float) (frames : List Frame) :
    Ended env o dt frames (runOptions env o dt frames) := by
  by_cases huser : o.BadUser
  · rw [runOptions_of_badUser huser]
    exact .broken (.badUser huser) (fun _ => Breakdown.noConfusion) []
  · have hpath : Path.expandHome env.home o.program = env.path o := rfl
    have hfound : env.find (env.path o) = env.found o := rfl
    unfold runOptions
    dsimp only
    rw [hpath, hfound, if_neg (mt o.badUser_iff.mp huser)]
    cases hfile : (env.found o).isFile with
    | false => exact .missing hfile
    | true =>
      rw [if_pos rfl]
      cases hinfo : o.info with
      | false => exact ended_start huser hinfo
      | true =>
        rw [if_pos rfl]
        cases hdescribe : ProgramFile.describe (env.path o) (env.found o) with
        | error e => exact .undescribed hinfo hdescribe
        | ok d =>
          dsimp only [Report.described]
          cases hline : env.output.strange? (descriptionLines d) with
          | none => exact .described hinfo hdescribe hline
          | some line =>
            exact .unprinted hinfo hdescribe hline (.unencodable huser hinfo hdescribe hline)

/-- A run breaks off without a code if it has a reason to. -/
theorem code_of_breaksOff {b : Breakdown} (h : BreaksOff env o b) :
    (runOptions env o dt frames).code = .none b := by
  cases h with
  | badUser huser =>
    rw [runOptions_of_badUser huser]
    rfl
  | unencodable huser hinfo hdescribe hline =>
    have hfile := (ProgramFile.holdsProgram_of_describe hdescribe).isFile
    have hpath : Path.expandHome env.home o.program = env.path o := rfl
    have hfound : env.find (env.path o) = env.found o := rfl
    unfold runOptions
    dsimp only
    rw [hpath, hfound, if_neg (mt o.badUser_iff.mp huser), if_pos hfile, if_pos hinfo, hdescribe]
    dsimp only [Report.described]
    rw [hline]
  | noSeed huser hfound hinfo hseed =>
    obtain ⟨data, hread⟩ := (ProgramFile.read_eq_ok_iff (env.path o)).mpr hfound
    have hrun : runOptions env o dt frames = start env o (env.path o) (env.found o) dt frames :=
      ((if_neg (mt o.badUser_iff.mp huser)).trans (if_pos hfound.isFile)).trans
        (if_neg (Bool.eq_false_iff.mp hinfo))
    rw [hrun]
    unfold start
    dsimp only
    rw [hread, hseed]
    rfl

/-! ## Sessions -/

section

variable {σ : Type} {s : Window.Session σ}

/-- A session has a message unless it went without a failure and ended without a fault. -/
theorem outcome_eq_none (h : s.failure ≠ some .interrupt) :
    (outcome s).1 = none ↔ s.failure = none ∧ s.final.fault = none := by
  unfold outcome
  cases hfailure : s.failure with
  | none =>
    cases hfault : s.final.fault with
    | none => simp
    | some f => simp
  | some d =>
    cases d with
    | interrupt => exact absurd hfailure h
    | known text => simp
    | unknown text => simp

end

namespace Opens

variable {m m' : Machine RandomStream} {w w' : Window RandomStream}

/-- There is one machine and one window at most. -/
theorem unique (h : Opens env o m w) (h' : Opens env o m' w') : m = m' ∧ w = w' := by
  obtain rfl : m = m' := Except.ok.inj (h.machine.symm.trans h'.machine)
  exact ⟨rfl, Except.ok.inj (h.window.symm.trans h'.window)⟩

theorem outcome_eq_none (h : Opens env o m w) :
    (outcome (w.run dt frames)).1 = none ↔ (w.run dt frames).Clean := by
  obtain ⟨-, image, hbuild⟩ := ProgramFile.build_of_create h.machine
  have hinterrupt : (w.run dt frames).failure ≠ some .interrupt := by
    intro h
    have := Option.filter_eq_some_iff.mp h
    simp at this
  rw [CommandLine.outcome_eq_none hinterrupt, Window.fault_run_eq_none hbuild h.window]
  exact ⟨fun ⟨hfailure, hgoes, hlast⟩ => ⟨hfailure, hgoes, hlast⟩,
    fun h => ⟨h.failure, h.goes, h.last⟩⟩

end Opens

/-! ## What is reported -/

namespace Ended

variable {r : Report}

/-- A run that does not break off has one message, unless its code says that all went well. -/
theorem code_cases (h : Ended env o dt frames r) :
    (∃ b, r.code = .none b ∧ BreaksOff env o b) ∨ (r.code = .program 0 ∧ r.errors = []) ∨
      (r.code = .program 1 ∧ ∃ message, r.errors = [message]) := by
  cases h with
  | broken hbreaks => exact .inl ⟨_, rfl, hbreaks⟩
  | unprinted _ _ _ hbreaks => exact .inl ⟨_, rfl, hbreaks⟩
  | described => exact .inr (.inl ⟨rfl, rfl⟩)
  | played => exact .inr (.inl ⟨rfl, rfl⟩)
  | _ => exact .inr (.inr ⟨rfl, _, rfl⟩)

theorem code_eq_zero_iff (h : Ended env o dt frames r) (hsafe : ∀ b, ¬ BreaksOff env o b) :
    r.code = .program 0 ↔ (env.found o).HoldsProgram ∧
      (o.info = true ∨ ∃ m w, Opens env o m w ∧ (w.run dt frames).Clean) := by
  cases h with
  | broken hbreaks => exact absurd hbreaks (hsafe _)
  | unprinted _ _ _ hbreaks => exact absurd hbreaks (hsafe _)
  | missing hfound =>
    refine ⟨nofun, ?_⟩
    rintro ⟨hholds, -⟩
    cases hfound.symm.trans hholds.isFile
  | described hinfo hdescribe =>
    exact ⟨fun _ => ⟨ProgramFile.holdsProgram_of_describe hdescribe, .inl hinfo⟩, fun _ => rfl⟩
  | undescribed hinfo hdescribe =>
    refine ⟨nofun, ?_⟩
    rintro ⟨hfound, -⟩
    obtain ⟨data, hread⟩ := (ProgramFile.read_eq_ok_iff (env.path o)).mpr hfound
    cases hread.symm.trans (ProgramFile.describe_eq_error.mp hdescribe)
  | unbuilt hinfo hbuilt =>
    refine ⟨nofun, ?_⟩
    rintro ⟨-, hinfo' | ⟨m, w, hopens, -⟩⟩
    · cases hinfo.symm.trans hinfo'
    · cases hbuilt.symm.trans hopens.machine
  | unopened hinfo hbuilt hopened =>
    refine ⟨nofun, ?_⟩
    rintro ⟨-, hinfo' | ⟨m, w, hopens, -⟩⟩
    · cases hinfo.symm.trans hinfo'
    · cases hbuilt.symm.trans hopens.machine
      cases hopened.symm.trans hopens.window
  | lost hinfo hopens houtcome =>
    refine ⟨nofun, ?_⟩
    rintro ⟨-, hinfo' | ⟨m, w, hopens', hclean⟩⟩
    · cases hinfo.symm.trans hinfo'
    · obtain ⟨-, rfl⟩ := hopens.unique hopens'
      cases houtcome.symm.trans (hopens.outcome_eq_none.mpr hclean)
  | played hinfo hopens houtcome =>
    have hfound := (ProgramFile.build_of_create hopens.machine).1
    exact ⟨fun _ => ⟨hfound, .inr ⟨_, _, hopens, hopens.outcome_eq_none.mp houtcome⟩⟩, fun _ => rfl⟩

/-- There is an output only where a program is described: all of the description if the code is 0,
and its lines up to the first that cannot be encoded if the run breaks off in it. -/
theorem output_cases (h : Ended env o dt frames r) :
    (o.info = true ∧ ∃ d, ProgramFile.describe (env.path o) (env.found o) = .ok d ∧
      (r.code = .program 0 ∧ r.output = descriptionLines d ∨
        (∃ complaint, r.code = .none (.unencodable complaint)) ∧
          r.output = (descriptionLines d).takeWhile env.output.encodes ∧
          r.output ≠ descriptionLines d)) ∨
    ((o.info = true → r.code ≠ .program 0) ∧
      (∀ complaint, r.code ≠ .none (.unencodable complaint)) ∧ r.output = []) := by
  cases h with
  | described hinfo hdescribe => exact .inl ⟨hinfo, _, hdescribe, .inl ⟨rfl, rfl⟩⟩
  | unprinted hinfo hdescribe hline =>
    have hpartly := Encoding.takeWhile_ne_of_strange hline
    exact .inl ⟨hinfo, _, hdescribe, .inr ⟨⟨_, rfl⟩, rfl, hpartly⟩⟩
  | broken _ hprints =>
    exact .inr ⟨fun _ => nofun, fun complaint h => hprints complaint (ExitCode.none.inj h), rfl⟩
  | played hinfo =>
    exact .inr ⟨fun h => absurd (hinfo.symm.trans h) Bool.false_ne_true, fun _ => nofun, rfl⟩
  | _ => exact .inr ⟨fun _ => nofun, fun _ => nofun, rfl⟩

end Ended

/--
**The exit code tells how a run went.** Take a command line that can be read, whatever its path leads
to, whatever happens in the frames, and in whatever order the keys are let go that are held when the
focus is lost. Unless the run breaks off, its code is 0 and there is no error message, or it is 1 and
there is exactly one. It is 0 if the path leads to a regular file of 1 to 3584 bytes, and either the
program is only to be described, or it is played and neither a failure leaves the session nor the
machine faults in any of its ticks, and it is 0 in no other case. (A fault does not count if the user
interrupts the session before the window has kept it.) A run that is to describe the program has the
description as its output exactly if the code is 0, and else no output, unless it breaks off in the
description; there is no other output.

A run breaks off without a code only where a null character stands in the name of a user, where the
description of a program has a line that the output cannot encode, or where a program would be played
with a seed that was set to nothing. If it breaks off in the description, the output has the lines
before that one. This cannot happen if the output has all characters, as names and arguments are
texts here.
-/
theorem exit_code_tells (env : Environment) {args : List String} {o : Options}
    (hparse : Options.parse args = .ok o) (dt : Float) (frames : List Frame) :
    let report := run env args dt frames
    (∀ b, report.code = .none b ↔ BreaksOff env o b) ∧
    ((∀ b, ¬ BreaksOff env o b) →
      (report.code = .program 0 ∧ report.errors = [] ∨
        report.code = .program 1 ∧ ∃ message, report.errors = [message]) ∧
      (report.code = .program 0 ↔ (env.found o).HoldsProgram ∧
        (o.info = true ∨ ∃ m w, Opens env o m w ∧ (w.run dt frames).Clean))) ∧
    (o.info = true →
      (report.code = .program 0 ↔ ∃ d,
        ProgramFile.describe (env.path o) (env.found o) = .ok d ∧
          report.output = descriptionLines d) ∧
      (report.code ≠ .program 0 →
        (∀ complaint, report.code ≠ .none (.unencodable complaint)) → report.output = []) ∧
      (∀ complaint, report.code = .none (.unencodable complaint) → ∃ d,
        ProgramFile.describe (env.path o) (env.found o) = .ok d ∧
          report.output = (descriptionLines d).takeWhile env.output.encodes)) ∧
    (o.info = false → report.output = []) ∧
    ((∀ c, env.output.has c = true) →
      ∀ complaint, report.code ≠ .none (.unencodable complaint)) := by
  intro report
  have hrun : report = runOptions env o dt frames := by
    show run env args dt frames = _
    rw [run, hparse]
  have hended : Ended env o dt frames report := hrun ▸ ended env o dt frames
  have hcodeless : ∀ b, report.code = .none b ↔ BreaksOff env o b := by
    intro b
    constructor
    · intro hcode
      rcases hended.code_cases with ⟨b', hcode', hbreaks⟩ | ⟨hcode', -⟩ | ⟨hcode', -⟩
      · cases hcode.symm.trans hcode'
        exact hbreaks
      · cases hcode.symm.trans hcode'
      · cases hcode.symm.trans hcode'
    · intro hbreaks
      rw [hrun]
      exact code_of_breaksOff hbreaks
  refine ⟨hcodeless, fun hsafe => ⟨?_, ?_⟩, fun hinfo => ?_, fun hinfo => ?_,
    fun hall complaint hcode => ?_⟩
  · rcases hended.code_cases with ⟨b, -, hbreaks⟩ | hcode
    · exact absurd hbreaks (hsafe b)
    · exact hcode
  · exact hended.code_eq_zero_iff hsafe
  · rcases hended.output_cases with
      ⟨-, d, hdescribe, ⟨hcode, houtput⟩ | ⟨⟨complaint, hcode⟩, houtput, hpartly⟩⟩ |
      ⟨hcode, hprints, houtput⟩
    · refine ⟨⟨fun _ => ⟨d, hdescribe, houtput⟩, fun _ => hcode⟩, fun h => absurd hcode h,
        fun _ h => ?_⟩
      cases hcode.symm.trans h
    · refine ⟨⟨fun h => ?_, ?_⟩, fun _ h => absurd hcode (h complaint),
        fun _ _ => ⟨d, hdescribe, houtput⟩⟩
      · cases hcode.symm.trans h
      · -- there is one description, and not all of it has been printed
        rintro ⟨d', hdescribe', houtput'⟩
        cases hdescribe.symm.trans hdescribe'
        exact absurd houtput' hpartly
    · refine ⟨⟨fun h => absurd h (hcode hinfo), ?_⟩, fun _ _ => houtput,
        fun complaint h => absurd h (hprints complaint)⟩
      rintro ⟨d, -, hlines⟩
      cases houtput.symm.trans hlines
  · rcases hended.output_cases with ⟨hinfo', -⟩ | ⟨-, -, houtput⟩
    · cases hinfo.symm.trans hinfo'
    · exact houtput
  · cases (hcodeless _).mp hcode with
    | unencodable _ _ _ hline => cases (Encoding.strange?_of_has_all hall _).symm.trans hline

/-- A session that is interrupted behind its first frame ends well; one that fails does not. -/
theorem exit_code_tells_interrupted :
    let env : Environment := ⟨fun _ => .file [0x12, 0x00], fun _ => none, .off, .utf8, .ofBytes []⟩
    let interrupted := [Frame.ofEvents [], ⟨[], [], some (.events, .interrupt)⟩]
    let disturbed : List Frame := [⟨[], [], some (.sound, .unknown "out of memory")⟩]
    (∃ o, Options.parse ["x.ch8", "--speed=60"] = .ok o ∧ ∀ b, ¬ BreaksOff env o b) ∧
      (run env ["x.ch8", "--speed=60"] 0.0 interrupted).code = .program 0 ∧
      (run env ["x.ch8", "--speed=60"] 0.0 interrupted).errors = [] ∧
      (run env ["x.ch8", "--speed=60"] 0.0 interrupted).output = [] ∧
      (run env ["x.ch8", "--speed=60"] 0.0 disturbed).code = .program 1 ∧
      ∃ message, (run env ["x.ch8", "--speed=60"] 0.0 disturbed).errors = [message] := by
  intro env interrupted disturbed
  let o : Options := ⟨"x.ch8", .value ⟨60, by decide⟩, .value 10, none, true, false, 0⟩
  have hparse : Options.parse ["x.ch8", "--speed=60"] = .ok o := rfl
  have hnobody : Path.user? "x.ch8" = none := by decide
  have hpath : env.path o = "x.ch8" := by
    show Path.expandHome _ "x.ch8" = _
    rw [Path.expandHome, hnobody]
    rfl
  have hsafe : ∀ b, ¬ BreaksOff env o b := by
    intro b hbreaks
    cases hbreaks with
    | badUser huser =>
      obtain ⟨user, huser, -⟩ := huser
      cases hnobody.symm.trans huser
    | unencodable _ hinfo => cases hinfo
    | noSeed _ _ _ hseed => cases hseed
  obtain ⟨m, hm⟩ : ∃ m : Machine RandomStream,
      m = .new ⟨[0x12, 0x00], by decide⟩ ⟨60, by decide⟩ (.ofBytes []) := ⟨_, rfl⟩
  -- the first frame is the only one of which the machine has to be looked at
  obtain ⟨hframe, hgoes⟩ : (m.frame frameRate).2 = .ok false ∧ (m.frame frameRate).1.fault = none := by
    rw [hm]
    decide +kernel
  let w := Window.new m 10 (some "x.ch8") .silent
  have hread : ProgramFile.read "x.ch8" (.file [0x12, 0x00]) = .ok [0x12, 0x00] :=
    ProgramFile.read_of_accepted "x.ch8" (by decide) (by decide)
  have hbuild : Machine.build (.bytes [0x12, 0x00]) (.int 60) (.ofBytes []) = .ok m :=
    hm ▸ Machine.build_new ⟨[0x12, 0x00], by decide⟩ ⟨60, by decide⟩ _
  have hcreate : ProgramFile.create "x.ch8" (.file [0x12, 0x00]) (.int 60) (.ofBytes []) =
      .ok m := by
    rw [ProgramFile.create, hread]
    exact congrArg (Except.mapError LoadError.setup) hbuild
  have hname : Path.baseName "x.ch8" = "x.ch8" := by decide
  have hwindow : Window.create m (some 10) (some "x.ch8") .off = .ok w := rfl
  have hopens : Opens env o m w := by
    constructor
    · rw [Environment.built, hpath]
      exact hcreate
    · rw [Environment.opened, hpath, hname]
      exact hwindow
  let w₁ := w.start.next 0.0 (.ofEvents [])
  have hfirst : Window.Completed { w.start with machine := (m.frame frameRate).1 } w₁ := by
    have hnext : w₁ = { w.start with machine := (m.frame frameRate).1 }.complete 0.0 false :=
      Window.next_of_frame rfl rfl 0.0 (Prod.ext rfl hframe)
    rw [hnext]
    exact Window.completed _ _ _
  have hrunning : w₁.running = true := hfirst.running
  have hloop : Window.Session.loop 0.0 w.start interrupted =
      ⟨[w₁], w₁, some (.events, .interrupt)⟩ := by
    rw [Window.Session.loop_cons rfl rfl, Window.Session.loop_cons_of_disrupted hrunning rfl]
    rfl
  have hclean : (w.run 0.0 interrupted).Clean := by
    rw [Window.run, hloop]
    refine ⟨(Window.Session.failure_of_disrupted rfl).trans (if_pos rfl), fun v hv => ?_, .inr ⟨_, _, rfl, rfl⟩⟩
    rw [List.mem_singleton.mp hv, hfirst.machine]
    exact hgoes
  have hfound : (env.found o).HoldsProgram := ⟨_, rfl, by decide, by decide⟩
  obtain ⟨-, hends, -, hsilent, -⟩ := exit_code_tells env hparse 0.0 interrupted
  obtain ⟨hcases, hzero⟩ := hends hsafe
  have hcode : (run env ["x.ch8", "--speed=60"] 0.0 interrupted).code = .program 0 :=
    hzero.mpr ⟨hfound, .inr ⟨m, w, hopens, hclean⟩⟩
  have herrors : (run env ["x.ch8", "--speed=60"] 0.0 interrupted).errors = [] := by
    rcases hcases with ⟨-, herrors⟩ | ⟨hone, -⟩
    · exact herrors
    · cases hcode.symm.trans hone
  obtain ⟨-, hends', -, -⟩ := exit_code_tells env hparse 0.0 disturbed
  obtain ⟨hcases', hzero'⟩ := hends' hsafe
  have houtput : (run env ["x.ch8", "--speed=60"] 0.0 interrupted).output = [] := hsilent rfl
  refine ⟨⟨o, hparse, hsafe⟩, ?_⟩
  refine ⟨hcode, ?_⟩
  refine ⟨herrors, ?_⟩
  refine ⟨houtput, ?_⟩
  rcases hcases' with ⟨hcode', -⟩ | hone
  · obtain ⟨-, hinfo | ⟨m', w', hopens', hclean'⟩⟩ := hzero'.mp hcode'
    · cases hinfo
    · obtain ⟨-, rfl⟩ := hopens.unique hopens'
      have hlost : (w.run 0.0 disturbed).failure = some (.unknown "out of memory") := by
        rw [Window.run, Window.Session.loop_cons_of_disrupted rfl rfl]
        exact (Window.Session.failure_of_disrupted rfl).trans (if_neg Disruption.noConfusion)
      cases hlost.symm.trans hclean'.failure
  · exact hone

/-- A null character in the name of a user is found out before anything looks after failures. Anywhere
else in a path it has the run end with code 1, as there is no such file. -/
theorem no_code_for_null_user :
    let env : Environment := ⟨fun _ => .missing, fun _ => none, .off, .utf8, .ofBytes []⟩
    let args := [String.ofList ['~', 'a', Char.ofNat 0, 'b', '/', 'x']]
    let report := run env args 0.0 []
    (∃ o, Options.parse args = .ok o) ∧
      report.code = .none .badUser ∧ report.code ≠ .program 0 ∧ report.code ≠ .program 1 := by
  intro env args report
  have hcode : report.code = .none .badUser := rfl
  exact ⟨⟨_, rfl⟩, hcode, hcode ▸ nofun, hcode ▸ nofun⟩

end CommandLine

end ChipEight
