import LS8.CommandLine.Session
import LS8.Proofs.Machine.Records

/-!
# What an invocation reports

The report of each command in closed form, without a host: a command is a function of the text of
its one input, and files are touched only by an `assemble` that has succeeded up to then. What a
session leaves is just that (`perform_of_request`), so its steps play no part in anything that
follows.

A run has no report if it reaches the limit. The lines of its log come before the diagnostic, and
without the flag that asks for a trace there are none.
-/
namespace LS8

/-! ## Records that are written -/

theorem Level.within_trace (level : Level) : level.within (some .trace) = true := by
  cases level <;> rfl

/-- What a logger writes for these records. -/
def Logger.lines (logger : Logger) (records : List Record) : String :=
  String.join (records.filterMap logger.line?)

/-- Such a record is written only if more than warnings are asked for. -/
def Record.OnRequest (r : Record) : Prop := r.level.within (some .warn) = false

theorem Machine.onRequest_of_mem_stepRecords {σ : Type} [Channel σ] {m : Machine σ} {r : Record}
    (h : r ∈ m.stepRecords) : r.OnRequest := by
  cases hs : m.status with
  | halted =>
    rw [stepRecords_of_halted hs] at h
    cases h
  | running =>
    rw [stepRecords_of_running hs] at h
    rcases List.mem_cons.mp h with rfl | hend
    · rfl
    · unfold endRecords at hend
      split at hend
      · cases hend
      · rw [List.mem_singleton.mp hend]
        rfl
      · rw [List.mem_singleton.mp hend]
        rfl

theorem Machine.onRequest_of_mem_runRecords {σ : Type} [Channel σ] {m : Machine σ} {limit : Nat}
    {records : Array Record} (hrecords : ∀ r ∈ records, r.OnRequest) :
    ∀ r ∈ m.runRecords limit records, r.OnRequest := by
  induction limit generalizing m records with
  | zero =>
    cases hs : m.status with
    | halted => rwa [runRecords_of_halted hs]
    | running => rwa [runRecords_zero hs]
  | succ limit ih =>
    cases hs : m.status with
    | halted => rwa [runRecords_of_halted hs]
    | running =>
      rw [runRecords_succ hs]
      refine ih fun r hr => ?_
      rw [← Array.mem_toList_iff, Array.toList_appendList] at hr
      rcases List.mem_append.mp hr with hr | hr
      · exact hrecords r (Array.mem_toList_iff.mp hr)
      · exact onRequest_of_mem_stepRecords hr

/-- Without a trace nothing is written of such records. -/
theorem Logger.lines_of_onRequest {records : List Record} (h : ∀ r ∈ records, r.OnRequest)
    (coloured : Bool) : (forTrace coloured false).lines records = "" := by
  have hnone : records.filterMap (forTrace coloured false).line? = [] := by
    rw [List.filterMap_eq_nil_iff]
    intro r hr
    have hthreshold : r.level.within (forTrace coloured false).threshold = false := h r hr
    exact if_neg (by rw [hthreshold]; exact Bool.false_ne_true)
  rw [lines, hnone, String.join_nil]

/-- With a trace every record has its line. -/
theorem Logger.lines_forTrace_true (coloured : Bool) (records : List Record) :
    (forTrace coloured true).lines records = String.join (records.map (Record.line coloured)) := by
  have hline : (forTrace coloured true).line? = some ∘ Record.line coloured :=
    funext fun r => if_pos r.level.within_trace
  rw [lines, hline, List.filterMap_eq_map]

theorem onRequest_of_mem_assembleRecords {source : String} {r : Record}
    (h : r ∈ assembleRecords source) : r.OnRequest := by
  unfold assembleRecords at h
  split at h
  · rw [List.mem_singleton.mp h]
    rfl
  · cases h

namespace CommandLine

/-! ## Reports -/

/-- The image that a command reads from a file. -/
def readImage (files : Files) (path : String) : Except Failure Image :=
  match files.read path with
  | .error e => .error (.unreadable path e)
  | .ok listing =>
    match Listing.parse listing with
    | .error e => .error (.listing path e)
    | .ok image => .ok image

theorem readImage_of_parse {files : Files} {name listing : String} {image : Image}
    (hread : files.read name = .ok listing) (hparse : Listing.parse listing = .ok image) :
    readImage files name = .ok image := by
  simp only [readImage, hread, hparse]

def Report.failed (files : Files) (failure : Failure) : Report :=
  { code := failure.code, stderr := failure.text, files := files }

/-- The report of a run of this image. -/
def executionReport (limit : Nat) (s : Surroundings) (logger : Logger) (image : Image) :
    Option Report :=
  let parsed := Listing.parsedRecord image
  match Machine.load { channel := s.scene.output } image with
  | .error fault =>
    let failure := Failure.load fault
    some { Report.failed s.files failure with stderr := logger.lines [parsed] ++ failure.text }
  | .ok m =>
    let records := [parsed, Machine.loadRecord image] ++ (m.runRecords limit #[]).toList
    let log := logger.lines records
    match m.run limit with
    | (last, .halted) => some { stdout := last.channel.text, stderr := log, files := s.files }
    | (last, .faulted fault) =>
      let failure := Failure.runtime fault
      some {
        code := failure.code
        stdout := last.channel.text
        stderr := log ++ failure.text
        files := s.files }
    | (_, .unfinished) => none

def runReport (limit : Nat) (s : Surroundings) (input : String) (trace : Bool) : Option Report :=
  match readImage s.files input with
  | .error failure => some (.failed s.files failure)
  | .ok image => executionReport limit s (.forTrace s.coloured trace) image

def assembleReport (files : Files) (input output : String) : Report :=
  match files.read input with
  | .error e => .failed files (.unreadable input e)
  | .ok source =>
    match assemble source with
    | .error e => .failed files (.source e)
    | .ok image =>
      match files.write output (Listing.render image) with
      | .error e => .failed files (.unwritable output e)
      | .ok files => { stderr := assembledText image output, files := files }

/-- What fits of the disassembly is printed. -/
def disassembleReport (s : Surroundings) (input : String) (addresses : Bool) : Report :=
  match readImage s.files input with
  | .error failure => .failed s.files failure
  | .ok image =>
    match s.scene.output.write (disassembly image addresses) with
    | (output, .ok ()) => { stdout := output.text, files := s.files }
    | (output, .error reason) =>
      { Report.failed s.files (.stdout reason) with stdout := output.text }

def Request.report? (limit : Nat) (s : Surroundings) : Request → Option Report
  | .help => some { stderr := usage, files := s.files }
  | .run input trace => runReport limit s input trace
  | .assemble input output => some (assembleReport s.files input output)
  | .disassemble input addresses => some (disassembleReport s input addresses)

/-! ## Sessions at a value -/

/-- A part of a command, at the host that is a value. -/
abbrev Deed (α : Type) := ExceptT Failure (OptionT (StateM Scene)) α

namespace Deed

variable {α β : Type}

/-- What comes of a part of a command, and what it leaves. -/
def on (x : Deed α) (scene : Scene) : Option (Except Failure α) × Scene := x.run.run.run scene

theorem on_bind (x : Deed α) (f : α → Deed β) (scene : Scene) :
    (x >>= f).on scene =
      match x.on scene with
      | (some (.ok a), next) => (f a).on next
      | (some (.error failure), next) => (some (.error failure), next)
      | (none, next) => (none, next) := by
  rw [on, ExceptT.run_bind, OptionT.run_bind, Option.elimM, StateT.run_bind, on]
  rcases x.run.run.run scene with ⟨_ | failure | a, next⟩ <;> rfl

/-- What the host does goes well for the command, or there is no end to it. -/
theorem on_lift (x : OptionT (StateM Scene) α) (scene : Scene) :
    (liftM x : Deed α).on scene =
      match x.run.run scene with
      | (some a, next) => (some (.ok a), next)
      | (none, next) => (none, next) := by
  change (ExceptT.lift x).run.run.run scene = _
  rw [ExceptT.run_lift, OptionT.run_map, StateT.run_map]
  rcases x.run.run scene with ⟨_ | a, next⟩ <;> rfl

theorem on_orFail_ok {ε : Type} (a : α) (failure : ε → Failure) (scene : Scene) :
    on (orFail (.ok a) failure) scene = (some (.ok a), scene) := rfl

theorem on_orFail_error {ε : Type} (e : ε) (failure : ε → Failure) (scene : Scene) :
    on (orFail (.error e) failure : Deed α) scene = (some (.error (failure e)), scene) := rfl

end Deed

/-! ### What is asked of the host -/

section Host

variable {limit : Nat} {scene : Scene} {logger : Logger}

namespace Scene

/-- What a logger adds for these records. -/
def logged (scene : Scene) (logger : Logger) (records : List Record) : Scene :=
  { scene with stderr := scene.stderr ++ logger.lines records }

@[simp] theorem logged_files (scene : Scene) (logger : Logger) (records : List Record) :
    (scene.logged logger records).files = scene.files := rfl

@[simp] theorem logged_output (scene : Scene) (logger : Logger) (records : List Record) :
    (scene.logged logger records).output = scene.output := rfl

@[simp] theorem logged_stderr (scene : Scene) (logger : Logger) (records : List Record) :
    (scene.logged logger records).stderr = scene.stderr ++ logger.lines records := rfl

@[simp] theorem logged_nil (scene : Scene) (logger : Logger) : scene.logged logger [] = scene := by
  rw [logged, Logger.lines, List.filterMap_nil, String.join_nil, String.append_empty]

theorem logged_append (scene : Scene) (logger : Logger) (records others : List Record) :
    scene.logged logger (records ++ others) =
      (scene.logged logger records).logged logger others := by
  simp only [logged, Logger.lines, List.filterMap_append, String.join_append, String.append_assoc]

/-- Without a trace the records of a command leave no line. -/
theorem logged_of_onRequest {records : List Record} (h : ∀ r ∈ records, r.OnRequest)
    (scene : Scene) (coloured : Bool) :
    scene.logged (.forTrace coloured false) records = scene := by
  rw [logged, Logger.lines_of_onRequest h, String.append_empty]

end Scene

@[simp] theorem Surroundings.scene_files (s : Surroundings) : s.scene.files = s.files := rfl

@[simp] theorem Surroundings.scene_stderr (s : Surroundings) : s.scene.stderr = "" := rfl

@[simp] theorem Surroundings.scene_text (s : Surroundings) : s.scene.output.text = "" := rfl

theorem run_bind_of_run {α β : Type} {x : OptionT (StateM Scene) α} {a : α} {next : Scene}
    (h : x.run.run scene = (some a, next)) (f : α → OptionT (StateM Scene) β) :
    (x >>= f).run.run scene = (f a).run.run next := by
  rw [OptionT.run_bind, Option.elimM, StateT.run_bind, h]
  rfl

@[simp] theorem run_read (limit : Nat) (path : String) :
    ((Scene.host limit).read path).run.run scene = (some (scene.files.read path), scene) := rfl

@[simp] theorem run_complain (limit : Nat) (text : String) :
    ((Scene.host limit).complain text).run.run scene =
      (some (), { scene with stderr := scene.stderr ++ text }) := rfl

@[simp] theorem run_lock (limit : Nat) :
    (Scene.host limit).lock.run.run scene = (some scene.output, scene) := rfl

@[simp] theorem run_unlock (limit : Nat) (output : LineWriter) :
    ((Scene.host limit).unlock output).run.run scene =
      (some (), { scene with output := output }) := rfl

@[simp] theorem run_print (limit : Nat) (output : LineWriter) (text : String) :
    ((Scene.host limit).print output text).run.run scene =
      (some (output.write text), scene) := rfl

theorem run_log (limit : Nat) (r : Record) :
    ((Scene.host limit).log logger r).run.run scene = (some (), scene.logged logger [r]) := by
  rw [Host.log, Scene.logged, Logger.lines, List.filterMap_cons, List.filterMap_nil]
  cases logger.line? r with
  | none =>
    rw [String.join_nil, String.append_empty]
    rfl
  | some line =>
    rw [String.join_cons, String.join_nil, String.append_empty]
    rfl

theorem run_forM_log (limit : Nat) (records : List Record) :
    (forM records ((Scene.host limit).log logger)).run.run scene =
      (some (), scene.logged logger records) := by
  induction records generalizing scene with
  | nil =>
    rw [Scene.logged_nil]
    rfl
  | cons r records ih =>
    rw [List.forM_cons, run_bind_of_run (run_log limit r), ih, ← Scene.logged_append,
      List.singleton_append]

theorem on_readText (limit : Nat) (path : String) :
    Deed.on ((Scene.host limit).readText path) scene =
      match scene.files.read path with
      | .error e => (some (.error (.unreadable path e)), scene)
      | .ok text => (some (.ok text), scene) := by
  rw [Host.readText, Deed.on_bind, Deed.on_lift, run_read]
  cases scene.files.read path <;> rfl

theorem on_readImage (limit : Nat) (path : String) :
    Deed.on ((Scene.host limit).readImage ((Scene.host limit).log logger) path) scene =
      match readImage scene.files path with
      | .error failure => (some (.error failure), scene)
      | .ok image => (some (.ok image), scene.logged logger [Listing.parsedRecord image]) := by
  rw [Host.readImage, Deed.on_bind, on_readText, readImage]
  cases scene.files.read path with
  | error e => rfl
  | ok listing =>
    simp only [Deed.on_bind]
    cases Listing.parse listing with
    | error e => rfl
    | ok image =>
      simp only [Deed.on_orFail_ok, Deed.on_lift, run_log]
      rfl

/-- A machine that does not come to an end within the limit is the end of the session. -/
theorem run_drive (m : Machine LineWriter) :
    ((Scene.host limit).drive
        { emit := (Scene.host limit).emit, log := (Scene.host limit).log logger } m).run.run scene =
      ((m.run limit).2.result?.map fun result => ((m.run limit).1, result),
        scene.logged logger (m.runRecords limit #[]).toList) := by
  have hrun :
      (m.runWith (.logging LineWriter ((Scene.host limit).log logger)) limit).run.run scene =
        (some (m.run limit), scene.logged logger (m.runRecords limit #[]).toList) := by
    rw [Machine.runWith_logging, run_bind_of_run (run_forM_log limit _)]
    rfl
  refine (run_bind_of_run hrun _).trans ?_
  rcases m.run limit with ⟨last, _ | fault | _⟩ <;> rfl

theorem run_write (limit : Nat) (path content : String) :
    ((Scene.host limit).write path content).run.run scene =
      match scene.files.write path content with
      | .error e => (some (.error e), scene)
      | .ok files => (some (.ok ()), { scene with files := files }) := by
  have hanswer (answer : Except FileError Unit × Scene) :
      ((modifyGet fun _ => answer : OptionT (StateM Scene) _).run.run scene) =
        (some answer.1, answer.2) := rfl
  refine (hanswer _).trans ?_
  cases scene.files.write path content <;> rfl

theorem on_execute_of_error {output : LineWriter} {image : Image} {fault : Fault}
    (houtput : scene.output = output)
    (hload : Machine.load { channel := output } image = .error fault) :
    Deed.on ((Scene.host limit).execute ((Scene.host limit).log logger) image) scene =
      (some (.error (.load fault)), scene) := by
  simp only [Host.execute, Deed.on_bind, Deed.on_lift, run_lock, houtput, hload,
    Deed.on_orFail_error]

theorem on_execute_of_ok {output : LineWriter} {image : Image} {m : Machine LineWriter}
    (houtput : scene.output = output) (hload : Machine.load { channel := output } image = .ok m) :
    Deed.on ((Scene.host limit).execute ((Scene.host limit).log logger) image) scene =
      let last := scene.logged logger (Machine.loadRecord image :: (m.runRecords limit #[]).toList)
      match m.run limit with
      | (m, .halted) => (some (.ok ()), { last with output := m.channel })
      | (m, .faulted fault) => (some (.error (.runtime fault)), { last with output := m.channel })
      | (_, .unfinished) => (none, last) := by
  have hlogged :=
    scene.logged_append logger [Machine.loadRecord image] (m.runRecords limit #[]).toList
  simp only [Host.execute, Deed.on_bind, Deed.on_lift, run_lock, houtput, hload,
    Deed.on_orFail_ok, run_log, run_drive, ← hlogged]
  rcases m.run limit with ⟨_, _ | fault | _⟩ <;> rfl

end Host

/-! ### What a session leaves -/

/-- The report of a command that has come to this. -/
def conclusion? : Option (Except Failure Unit) × Scene → Option Report
  | (some (.ok ()), scene) => some (scene.report 0)
  | (some (.error failure), scene) =>
    some { scene.report failure.code with stderr := scene.stderr ++ failure.text }
  | (none, _) => none

section

variable {limit : Nat} {s : Surroundings} {arguments : List String}

theorem perform_eq_conclusion? :
    perform limit s arguments = conclusion? (Deed.on (do
      let request ← orFail (Request.ofArguments arguments) .usage
      (Scene.host limit).obey s.coloured request) s.scene) := by
  generalize hdeed : (do
    let request ← orFail (Request.ofArguments arguments) .usage
    (Scene.host limit).obey s.coloured request : Deed Unit) = deed
  have hsession : ((Scene.host limit).session s.coloured arguments).run.run s.scene =
      match deed.on s.scene with
      | (some (.ok ()), next) => (some 0, next)
      | (some (.error failure), next) =>
        (some failure.code, { next with stderr := next.stderr ++ failure.text })
      | (none, next) => (none, next) := by
    rw [Host.session, hdeed, OptionT.run_bind, Option.elimM, StateT.run_bind, Deed.on]
    rcases deed.run.run.run s.scene with ⟨_ | failure | _, next⟩ <;> rfl
  rw [perform, hsession]
  rcases deed.on s.scene with ⟨_ | failure | _, next⟩ <;> rfl

/-- A failure before anything was printed. -/
theorem conclusion?_error (failure : Failure) (logger : Logger) (records : List Record) :
    conclusion? (some (.error failure), s.scene.logged logger records) =
      some { Report.failed s.files failure with
        stderr := logger.lines records ++ failure.text } := by
  simp [conclusion?, Scene.report, Report.failed]

/-- A failure that leaves everything as it was. -/
theorem conclusion?_failed (failure : Failure) :
    conclusion? (some (.error failure), s.scene) = some (.failed s.files failure) := by
  simp [conclusion?, Scene.report, Report.failed]

theorem perform_of_error {e : UsageError} (h : Request.ofArguments arguments = .error e) :
    perform limit s arguments = some (.failed s.files (.usage e)) := by
  rw [perform_eq_conclusion?, Deed.on_bind, h, Deed.on_orFail_error]
  exact conclusion?_failed (.usage e)

theorem perform_of_ok {request : Request} (h : Request.ofArguments arguments = .ok request) :
    perform limit s arguments =
      conclusion? (Deed.on ((Scene.host limit).obey s.coloured request) s.scene) := by
  rw [perform_eq_conclusion?, Deed.on_bind, h, Deed.on_orFail_ok]

theorem conclusion?_run (logger : Logger) (input : String) :
    conclusion? (Deed.on ((Scene.host limit).run ((Scene.host limit).log logger) input) s.scene) =
      match readImage s.files input with
      | .error failure => some (.failed s.files failure)
      | .ok image => executionReport limit s logger image := by
  rw [Host.run, Deed.on_bind, on_readImage, s.scene_files]
  cases readImage s.files input with
  | error failure => exact conclusion?_failed failure
  | ok image =>
    have houtput := s.scene.logged_output logger [Listing.parsedRecord image]
    simp only [executionReport]
    cases hload : Machine.load { channel := s.scene.output } image with
    | error fault =>
      simp only [on_execute_of_error houtput hload]
      exact conclusion?_error (.load fault) logger _
    | ok m =>
      simp only [on_execute_of_ok houtput hload, ← Scene.logged_append]
      rcases m.run limit with ⟨last, _ | fault | _⟩ <;>
        simp [conclusion?, Scene.report]

theorem conclusion?_assemble (coloured : Bool) (input output : String) :
    conclusion? (Deed.on ((Scene.host limit).assemble
        ((Scene.host limit).log (.forTrace coloured false)) input output) s.scene) =
      some (assembleReport s.files input output) := by
  rw [Host.assemble, Deed.on_bind, on_readText, s.scene_files, assembleReport]
  cases s.files.read input with
  | error e => exact conclusion?_failed _
  | ok source =>
    have hlogged : s.scene.logged (.forTrace coloured false) (assembleRecords source) = s.scene :=
      Scene.logged_of_onRequest (fun _ => onRequest_of_mem_assembleRecords) s.scene coloured
    simp only [Deed.on_bind, Deed.on_lift, run_forM_log, hlogged]
    cases LS8.assemble source with
    | error e => exact conclusion?_failed _
    | ok image =>
      simp only [Deed.on_orFail_ok, run_write, s.scene_files]
      cases s.files.write output (Listing.render image) with
      | error e => exact conclusion?_failed _
      | ok files =>
        simp [Deed.on_orFail_ok, conclusion?, Scene.report]

theorem conclusion?_disassemble (coloured : Bool) (input : String) (addresses : Bool) :
    conclusion? (Deed.on ((Scene.host limit).disassemble
        ((Scene.host limit).log (.forTrace coloured false)) input addresses) s.scene) =
      some (disassembleReport s input addresses) := by
  rw [Host.disassemble, Deed.on_bind, on_readImage, s.scene_files, disassembleReport]
  cases readImage s.files input with
  | error failure => exact conclusion?_failed failure
  | ok image =>
    have hrequest : (Listing.parsedRecord image).OnRequest := rfl
    have hlogged := s.scene.logged_of_onRequest (List.forall_mem_singleton.mpr hrequest) coloured
    simp only [hlogged, Deed.on_bind, Deed.on_lift, run_lock, run_print, run_unlock]
    rcases s.scene.output.write (disassembly image addresses) with ⟨output, reason | _⟩ <;>
      simp [Deed.on_orFail_ok, Deed.on_orFail_error, conclusion?, Scene.report, Report.failed]

theorem conclusion?_help :
    conclusion? (Deed.on (liftM ((Scene.host limit).complain usage)) s.scene) =
      some { stderr := usage, files := s.files } := by
  simp [Deed.on_lift, conclusion?, Scene.report]

/-- **Sessions and reports.** What a session leaves of an invocation that asks for something is the
report of this command. -/
theorem perform_of_request {request : Request} (h : Request.ofArguments arguments = .ok request) :
    perform limit s arguments = request.report? limit s := by
  rw [perform_of_ok h]
  cases request with
  | help => exact conclusion?_help
  | run input trace => exact conclusion?_run _ input
  | assemble input output => exact conclusion?_assemble s.coloured input output
  | disassemble input addresses => exact conclusion?_disassemble s.coloured input addresses

end

end CommandLine
end LS8
