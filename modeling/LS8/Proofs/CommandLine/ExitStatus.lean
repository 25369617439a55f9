import LS8.Proofs.CommandLine.Running
import LS8.Proofs.CommandLine.Tracing
import LS8.Proofs.Machine.Driving
import LS8.Proofs.Machine.StraightLine

/-!
# Exit codes of a run

A run starts a machine if its arguments name one file, and what is in it can be read, parsed and
loaded. The exit code then says how this machine ends, and the standard output holds everything
that it prints; everything else is an error of its own code, which prints nothing
(`run_exit_status`).
-/
namespace LS8

/-- What a collecting machine has at its end is what the instructions before it print. -/
theorem Machine.Ends.collected {m last after : Machine (Array UInt8)} {path : List State}
    {ending : Ending} (h : m.Ends path last after ending) :
    after.channel.toList = m.channel.toList ++ path.flatMap State.printed := by
  have hlast : last.channel.toList = m.channel.toList ++ path.flatMap State.printed := by
    have hemit := h.executes.emitAll
    rw [Channel.emitAll_array] at hemit
    simp [← (Prod.mk.inj hemit).1]
  cases h with
  | halted => exact hlast
  | faulted _ hstep =>
    obtain ⟨cause, rfl⟩ := instruction_of_step_faulted hstep
    rw [((atomicFault_of_step hstep).silent failsAsOutput_array nofun).1]
    exact hlast

namespace CommandLine

/-! ## Arguments that name a file -/

/-- One argument does not look like a flag, and every other one is the flag for a trace. -/
def Names (arguments : List String) (name : String) : Prop :=
  arguments.filter (!isFlag ·) = [name] ∧
    ∀ argument ∈ arguments, isFlag argument = true → argument = "--trace"

/-- Arguments are read without an error if each of them is the flag or a name, and there is at most
one name. -/
theorem exists_flaggedInput_iff {flag : String} (hflag : isFlag flag = true)
    (input found : Option String) (given : Bool) (arguments : List String) :
    (∃ given', flaggedInput flag input given arguments = .ok (found, given')) ↔
      input.toList ++ arguments.filter (!isFlag ·) = found.toList ∧
        ∀ argument ∈ arguments, isFlag argument = true → argument = flag := by
  fun_induction flaggedInput flag input given arguments with
  | case1 input given => cases input <;> cases found <;> simp
  | case2 input given rest ih => simp [ih, hflag]
  | case3 input given argument rest hne hother => simp [hother, hne]
  | case4 given argument rest hne hname ih => simp [ih, hname]
  | case5 given argument rest hne hname first => cases found <;> simp [hname]

theorem exists_ofArguments_run_iff {arguments : List String} {name : String} :
    (∃ trace, Request.ofArguments ("run" :: arguments) = .ok (.run name trace)) ↔
      Names arguments name := by
  have hrun : Request.ofArguments ("run" :: arguments) =
      flagged .run "--trace" Request.run arguments := rfl
  have hflag : isFlag "--trace" = true := by decide
  rw [hrun, flagged]
  refine Iff.trans ?_ (exists_flaggedInput_iff hflag none (some name) false arguments)
  rcases flaggedInput "--trace" none false arguments with e | ⟨_ | input, trace⟩
  · simp [bind, Except.bind]
  · simp [bind, Except.bind]
  · simp [bind, Except.bind, pure, Except.pure]

/-! ## The machine that a run starts -/

/-- The arguments name a file with a listing that fits into memory, and this is the machine with the
image loaded. -/
def Starts (files : Files) (arguments : List String) (m : Machine (Array UInt8)) : Prop :=
  ∃ name listing image, Names arguments name ∧ files.read name = .ok listing ∧
    Listing.parse listing = .ok image ∧ image.length ≤ memorySize ∧
    Machine.load { channel := #[] } image = .ok m

variable {files : Files} {arguments : List String} {m : Machine (Array UInt8)}

theorem Starts.unique {m' : Machine (Array UInt8)} (h : Starts files arguments m)
    (h' : Starts files arguments m') : m = m' := by
  obtain ⟨name, listing, image, hname, hread, hparse, -, hload⟩ := h
  obtain ⟨name', listing', image', hname', hread', hparse', -, hload'⟩ := h'
  obtain rfl : name = name' := by simpa using hname.1.symm.trans hname'.1
  obtain rfl : listing = listing' := by simpa using hread.symm.trans hread'
  obtain rfl : image = image' := by simpa using hparse.symm.trans hparse'
  simpa using hload.symm.trans hload'

theorem Starts.initial (h : Starts files arguments m) :
    m.status = .running ∧ m.channel.toList = [] := by
  obtain ⟨name, listing, image, -, -, -, hfits, hload⟩ := h
  obtain ⟨m', hload', hrun, -, hchannel⟩ := Machine.exists_load hfits
  obtain rfl : m' = m := by simpa using hload'.symm.trans hload
  exact ⟨hrun, hchannel⟩

/-- What is reported is what the machine comes to, and perhaps a log. -/
theorem Starts.rel_perform (h : Starts files arguments m) (limit : Nat) (coloured : Bool)
    (reason : String) :
    Option.Rel (OnlyLogs coloured)
      (perform limit { files, coloured, output := { reason } } ("run" :: arguments))
      (endReport? files (m.run limit)) := by
  obtain ⟨name, listing, image, hname, hread, hparse, hfits, hload⟩ := h
  obtain ⟨trace, hrequest⟩ := exists_ofArguments_run_iff.mpr hname
  obtain ⟨result, hexecute, hreport⟩ :=
    runReport_of_parse hread hparse hfits limit coloured reason
  obtain rfl : m.run limit = result := by
    rw [execute, hload] at hexecute
    exact Except.ok.inj hexecute
  rw [← hreport, perform_of_request hrequest]
  exact runReport_trace limit { files, coloured, output := { reason } } name trace

/-- A report of an error that prints nothing and changes no file. -/
structure IsError (files : Files) (report : Report) : Prop where
  code_eq : report.code = 1
  stdout_eq : report.stdout = ""
  files_eq : report.files = files

/-- There is no image to be run, or it does not fit into memory. -/
theorem exists_runReport_error {name : String} (h : ∀ listing image,
      files.read name = .ok listing → Listing.parse listing = .ok image →
      ¬ image.length ≤ memorySize) (limit : Nat) (coloured : Bool) (reason : String) :
    ∃ report, runReport limit { files, coloured, output := { reason } } name false = some report ∧
      IsError files report := by
  rw [runReport, readImage]
  cases hread : files.read name with
  | error e => exact ⟨.failed files (.unreadable name e), rfl, rfl, rfl, rfl⟩
  | ok listing =>
    cases hparse : Listing.parse listing with
    | error e =>
      simp only [hparse]
      exact ⟨.failed files (.listing name e), rfl, rfl, rfl, rfl⟩
    | ok image =>
      have hload := Machine.load_eq_error (h listing image hread hparse)
        ({ channel := { reason } } : Machine LineWriter)
      simp only [hparse, executionReport, Surroundings.scene, hload]
      exact ⟨_, rfl, rfl, rfl, rfl⟩

theorem perform_of_not_starts (h : ∀ m, ¬ Starts files arguments m) (limit : Nat) (coloured : Bool)
    (reason : String) :
    ∃ report, perform limit { files, coloured, output := { reason } } ("run" :: arguments) =
      some report ∧ IsError files report := by
  rcases ofArguments_run_filter arguments with ⟨e, herror, -⟩ | ⟨name, trace, hrequest, -⟩
  · rw [perform_of_error herror]
    exact ⟨.failed files (.usage e), rfl, rfl, rfl, rfl⟩
  · have hname := exists_ofArguments_run_iff.mp ⟨trace, hrequest⟩
    have hunfit : ∀ listing image, files.read name = .ok listing →
        Listing.parse listing = .ok image → ¬ image.length ≤ memorySize := by
      intro listing image hread hparse hfits
      obtain ⟨m, hload, -⟩ := Machine.exists_load hfits
      exact h m ⟨name, listing, image, hname, hread, hparse, hfits, hload⟩
    obtain ⟨plain, hplain, herror⟩ := exists_runReport_error hunfit limit coloured reason
    have hlog := runReport_trace limit { files, coloured, output := { reason } } name trace
    rw [hplain] at hlog
    obtain ⟨traced, htraced, hlogs⟩ := exists_of_rel_some hlog
    rw [perform_of_request hrequest]
    exact ⟨traced, htraced, hlogs.code_eq.trans herror.code_eq,
      hlogs.stdout_eq.trans herror.stdout_eq, hlogs.files_eq.trans herror.files_eq⟩

/-! ## Exit codes -/

/-- What the exit code and the standard output of a run say. -/
structure ExitStatus (files : Files) (arguments : List String) (report : Report) : Prop where
  zero_iff : report.code = 0 ↔
    ∃ m path last after, Starts files arguments m ∧ m.Ends path last after .halted
  three_iff : report.code = 3 ↔
    ∃ m path last after fault, Starts files arguments m ∧ m.Ends path last after (.faulted fault)
  one : report.code ≠ 0 → report.code ≠ 3 → report.code = 1 ∧ report.stdout = ""
  /-- Each value that was printed has its line, also if a fault comes afterwards. -/
  stdout_eq : ∀ m path last after ending, Starts files arguments m →
    m.Ends path last after ending → report.stdout = decimalLines (path.flatMap State.printed)
  files_eq : report.files = files

theorem IsError.exitStatus {report : Report} (h : IsError files report)
    (hnone : ∀ m, ¬ Starts files arguments m) : ExitStatus files arguments report where
  zero_iff := by simp [h.code_eq, hnone]
  three_iff := by simp [h.code_eq, hnone]
  one _ _ := ⟨h.code_eq, h.stdout_eq⟩
  stdout_eq m _ _ _ _ hstarts := absurd hstarts (hnone m)
  files_eq := h.files_eq

/-- The report of a machine, taken apart. -/
theorem endReport?_eq_some {m : Machine (Array UInt8)} {ending : Ending} {report : Report}
    (h : endReport? files (m, ending) = some report) :
    (ending = .halted ∧ report.code = 0 ∨ (∃ fault, ending = .faulted fault) ∧ report.code = 3) ∧
      report.stdout = decimalLines m.channel.toList ∧ report.files = files := by
  cases ending with
  | unfinished => cases h
  | halted =>
    obtain rfl := Option.some.inj h
    exact ⟨.inl ⟨rfl, rfl⟩, rfl, rfl⟩
  | faulted fault =>
    obtain rfl := Option.some.inj h
    exact ⟨.inr ⟨⟨fault, rfl⟩, rfl⟩, rfl, rfl⟩

theorem exists_endReport?_iff {m : Machine (Array UInt8)} {ending : Ending} :
    (∃ report, endReport? files (m, ending) = some report) ↔ ending ≠ .unfinished := by
  cases ending <;> simp [endReport?]

/-- A run has a report if the limit suffices for the machine that it starts. -/
theorem Starts.exists_report_iff (h : Starts files arguments m) (limit : Nat) (coloured : Bool)
    (reason : String) :
    (∃ report, perform limit { files, coloured, output := { reason } }
      ("run" :: arguments) = some report) ↔ (m.run limit).2 ≠ .unfinished := by
  have hlogs := h.rel_perform limit coloured reason
  rw [← exists_endReport?_iff]
  constructor
  · rintro ⟨report, hreport⟩
    rw [hreport] at hlogs
    cases hplain : endReport? files (m.run limit) with
    | none =>
      rw [hplain] at hlogs
      cases hlogs
    | some plain => exact ⟨plain, rfl⟩
  · rintro ⟨plain, hplain⟩
    rw [hplain] at hlogs
    obtain ⟨report, hreport, -⟩ := exists_of_rel_some hlogs
    exact ⟨report, hreport⟩

/-- A machine that is started and comes to an end decides about the report. -/
theorem Starts.exitStatus {path : List State} {last after : Machine (Array UInt8)} {ending : Ending}
    {coloured : Bool} {plain report : Report} (h : Starts files arguments m)
    (hends : m.Ends path last after ending)
    (hplain : endReport? files (after, ending) = some plain)
    (hlogs : OnlyLogs coloured report plain) : ExitStatus files arguments report := by
  have hunique : ∀ m' path' last' after' ending', Starts files arguments m' →
      m'.Ends path' last' after' ending' → after' = after ∧ ending' = ending := by
    intro m' path' last' after' ending' hstarts' hends'
    obtain rfl := h.unique hstarts'
    exact hends'.unique hends
  obtain ⟨hcode, hstdout, hfiles⟩ := endReport?_eq_some hplain
  rw [← hlogs.code_eq] at hcode
  have hlines : ∀ m' path' last' after' ending', Starts files arguments m' →
      m'.Ends path' last' after' ending' →
      report.stdout = decimalLines (path'.flatMap State.printed) := by
    intro m' path' last' after' ending' hstarts' hends'
    obtain ⟨rfl, -⟩ := hunique m' path' last' after' ending' hstarts' hends'
    rw [hlogs.stdout_eq, hstdout, hends'.collected, hstarts'.initial.2, List.nil_append]
  rcases hcode with ⟨rfl, hzero⟩ | ⟨⟨fault, rfl⟩, hthree⟩
  · refine ⟨iff_of_true hzero ⟨m, path, last, after, h, hends⟩, iff_of_false (by simp [hzero]) ?_,
      fun hnonzero => absurd hzero hnonzero, hlines, hlogs.files_eq.trans hfiles⟩
    rintro ⟨m', path', last', after', fault, hstarts', hends'⟩
    cases (hunique m' path' last' after' _ hstarts' hends').2
  · refine ⟨iff_of_false (by simp [hthree]) ?_, iff_of_true hthree ⟨m, path, last, after, fault, h,
      hends⟩, fun _ hother => absurd hthree hother, hlines, hlogs.files_eq.trans hfiles⟩
    rintro ⟨m', path', last', after', hstarts', hends'⟩
    cases (hunique m' path' last' after' _ hstarts' hends').2

/-- **Exit codes of a run.** With a standard output that works, a run has a report unless it starts
a machine that runs for ever. Its exit code is 0 if it starts a machine that comes to a HLT, 3 if it
starts one that fails, and 1 if it starts none. -/
theorem run_exit_status (files : Files) (coloured : Bool) (reason : String)
    (arguments : List String) :
    ((∃ limit report, perform limit { files, coloured, output := { reason } }
        ("run" :: arguments) = some report) ↔
      ∀ m, Starts files arguments m → ¬ m.RunsForever) ∧
    ∀ limit report, perform limit { files, coloured, output := { reason } }
      ("run" :: arguments) = some report → ExitStatus files arguments report := by
  by_cases hstarts : ∃ m, Starts files arguments m
  · obtain ⟨m, h⟩ := hstarts
    constructor
    · have hforever : (∀ m, Starts files arguments m → ¬ m.RunsForever) ↔ ¬ m.RunsForever :=
        ⟨fun hall => hall m h, fun hnot m' h' => h.unique h' ▸ hnot⟩
      rw [hforever, Machine.runsForever_iff h.initial.1, not_forall]
      exact exists_congr fun limit => h.exists_report_iff limit coloured reason
    · intro limit report hreport
      rcases hrun : m.run limit with ⟨after, ending⟩
      have hends : ending ≠ .unfinished := by
        have hreports := (h.exists_report_iff limit coloured reason).mp ⟨report, hreport⟩
        rwa [hrun] at hreports
      have hlogs := h.rel_perform limit coloured reason
      obtain ⟨plain, hplain⟩ := exists_endReport?_iff.mpr hends
      rw [hreport, hrun, hplain] at hlogs
      cases hlogs with
      | some hlogs =>
        obtain ⟨path, last, hlast, -⟩ := Machine.exists_ends_of_run h.initial.1 hrun hends
        exact h.exitStatus hlast hplain hlogs
  · have hnone : ∀ m, ¬ Starts files arguments m := fun m h => hstarts ⟨m, h⟩
    constructor
    · obtain ⟨report, hreport, -⟩ := perform_of_not_starts hnone 0 coloured reason
      exact iff_of_true ⟨0, report, hreport⟩ fun m h => absurd h (hnone m)
    · intro limit report hreport
      obtain ⟨report', hreport', herror⟩ := perform_of_not_starts hnone limit coloured reason
      obtain rfl : report' = report := by simpa using hreport'.symm.trans hreport
      exact herror.exitStatus hnone

/-- A directory with one listing, which prints ten and then divides it by zero. -/
def stumblingFiles : Files := .ofList [("ten.ls8", .text
  "10000010\n00000000\n00001010\n01000111\n00000000\n10100100\n00000000\n00000001\n")]

/-- A trace asked for twice changes nothing in how the run of this listing ends. -/
theorem run_exit_status_stumbling :
    ∃ limit report, perform limit { files := stumblingFiles, coloured := false, output := {} }
        ["run", "--trace", "ten.ls8", "--trace"] = some report ∧
      report.code = 3 ∧ report.stdout = "10\n" ∧ report.files = stumblingFiles := by
  have hstarts : Starts stumblingFiles ["--trace", "ten.ls8", "--trace"] Machine.stumbling := by
    have hname : Names ["--trace", "ten.ls8", "--trace"] "ten.ls8" := ⟨by decide, by decide⟩
    exact ⟨"ten.ls8", _, [0x82, 0, 10, 0x47, 0, 0xA4, 0, 1], hname, rfl, rfl, by decide, rfl⟩
  obtain ⟨after, h, -, hvalues⟩ := Machine.run_stumbling
  obtain ⟨path, last, hends, -⟩ := Machine.exists_ends_of_run hstarts.initial.1 h nofun
  have hstops : ¬ Machine.stumbling.RunsForever := by
    rw [Machine.runsForever_iff hstarts.initial.1]
    intro hforever
    have hunfinished := hforever 7
    rw [h] at hunfinished
    cases hunfinished
  obtain ⟨hreports, hstatus⟩ :=
    run_exit_status stumblingFiles false "" ["--trace", "ten.ls8", "--trace"]
  obtain ⟨limit, report, hreport⟩ := hreports.mpr fun m hm => hstarts.unique hm ▸ hstops
  obtain ⟨-, hthree, -, hlines, hfiles⟩ := hstatus limit report hreport
  refine ⟨limit, report, hreport, hthree.mpr ⟨_, _, _, _, _, hstarts, hends⟩, ?_, hfiles⟩
  have hprinted := hends.collected
  rw [hvalues] at hprinted
  rw [hlines _ _ _ _ _ hstarts hends, ← hprinted.trans (List.nil_append _)]
  decide

end CommandLine
end LS8
