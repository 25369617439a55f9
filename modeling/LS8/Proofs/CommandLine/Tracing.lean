import LS8.Proofs.CommandLine.Reports

/-!
# Tracing

The flag that asks for a trace may stand anywhere and be repeated. All it changes is that log lines
are written to the standard error, in front of the diagnostic; exit code, standard output and files
are those of the same arguments without it (`trace_only_logs`).
-/
namespace LS8.CommandLine

/-! ## Reports with and without a log -/

/-- The reports are the same except that lines of a log stand in front of the diagnostic. -/
structure OnlyLogs (coloured : Bool) (traced plain : Report) : Prop where
  code_eq : traced.code = plain.code
  stdout_eq : traced.stdout = plain.stdout
  files_eq : traced.files = plain.files
  stderr_eq : ∃ records : List Record, (∀ r ∈ records, r.OnRequest) ∧
    traced.stderr = String.join (records.map (Record.line coloured)) ++ plain.stderr
  diagnostic : plain.code = 0 ∧ plain.stderr = "" ∨
    ∃ failure : Failure, plain.code = failure.code ∧ plain.stderr = failure.text

theorem onlyLogs_failed (coloured : Bool) (files : Files) (failure : Failure) :
    OnlyLogs coloured (.failed files failure) (.failed files failure) where
  code_eq := rfl
  stdout_eq := rfl
  files_eq := rfl
  stderr_eq := ⟨[], by simp, by simp⟩
  diagnostic := .inr ⟨failure, rfl, rfl⟩

/-- What is written of the records of a command are lines of a log, or nothing. -/
theorem exists_lines_eq {records : List Record} (h : ∀ r ∈ records, r.OnRequest)
    (coloured trace : Bool) : ∃ written : List Record, (∀ r ∈ written, r.OnRequest) ∧
      (Logger.forTrace coloured trace).lines records =
        String.join (written.map (Record.line coloured)) := by
  cases trace with
  | false => exact ⟨[], List.forall_mem_nil _, Logger.lines_of_onRequest h coloured⟩
  | true => exact ⟨records, h, Logger.lines_forTrace_true coloured records⟩

theorem onRequest_of_execution (image : Image) (m : Machine LineWriter) (limit : Nat) :
    ∀ r ∈ [Listing.parsedRecord image, Machine.loadRecord image] ++ (m.runRecords limit #[]).toList,
      r.OnRequest := by
  intro r h
  rcases List.mem_append.mp h with hload | hrun
  · rw [List.mem_cons, List.mem_singleton] at hload
    rcases hload with rfl | rfl <;> rfl
  · exact Machine.onRequest_of_mem_runRecords (by simp) r (Array.mem_toList_iff.mp hrun)

/-- Two reports that differ in what a logger makes of the same records. -/
theorem onlyLogs_of_lines {records : List Record} (h : ∀ r ∈ records, r.OnRequest)
    {code : Nat} {diagnostic : String}
    (hdiagnostic : code = 0 ∧ diagnostic = "" ∨
      ∃ failure : Failure, code = failure.code ∧ diagnostic = failure.text)
    (coloured trace : Bool) (stdout : String) (files : Files) :
    OnlyLogs coloured
      { code, stdout, files,
        stderr := (Logger.forTrace coloured trace).lines records ++ diagnostic }
      { code, stdout, files,
        stderr := (Logger.forTrace coloured false).lines records ++ diagnostic } where
  code_eq := rfl
  stdout_eq := rfl
  files_eq := rfl
  stderr_eq := by
    obtain ⟨written, hwritten, hlines⟩ := exists_lines_eq h coloured trace
    refine ⟨written, hwritten, ?_⟩
    rw [hlines, Logger.lines_of_onRequest h, String.empty_append]
  diagnostic := by
    rw [Logger.lines_of_onRequest h, String.empty_append]
    exact hdiagnostic

theorem executionReport_trace (limit : Nat) (s : Surroundings) (image : Image) (trace : Bool) :
    Option.Rel (OnlyLogs s.coloured)
      (executionReport limit s (.forTrace s.coloured trace) image)
      (executionReport limit s (.forTrace s.coloured false) image) := by
  unfold executionReport
  cases Machine.load { channel := s.scene.output } image with
  | error fault =>
    have hparsed : (Listing.parsedRecord image).OnRequest := rfl
    exact .some (onlyLogs_of_lines (List.forall_mem_singleton.mpr hparsed)
      (.inr ⟨.load fault, rfl, rfl⟩) s.coloured trace "" s.files)
  | ok m =>
    have hrequest := onRequest_of_execution image m limit
    dsimp only
    rcases m.run limit with ⟨last, _ | fault | _⟩
    · have hlogs := onlyLogs_of_lines hrequest (.inl ⟨rfl, rfl⟩) s.coloured trace
        last.channel.text s.files
      simp only [String.append_empty] at hlogs
      exact .some hlogs
    · exact .some (onlyLogs_of_lines hrequest (.inr ⟨.runtime fault, rfl, rfl⟩) s.coloured trace
        last.channel.text s.files)
    · exact .none

theorem runReport_trace (limit : Nat) (s : Surroundings) (input : String) (trace : Bool) :
    Option.Rel (OnlyLogs s.coloured) (runReport limit s input trace)
      (runReport limit s input false) := by
  unfold runReport
  cases readImage s.files input with
  | error failure => exact .some (onlyLogs_failed _ _ failure)
  | ok image => exact executionReport_trace limit s image trace

/-- Where one of two related results is, there is the other. -/
theorem exists_of_rel_some {α β : Type} {R : α → β → Prop} {x : Option α} {b : β}
    (h : Option.Rel R x (some b)) : ∃ a, x = some a ∧ R a b := by
  cases h with
  | some h => exact ⟨_, rfl, h⟩

/-! ## The flag among the arguments -/

/-- Without the flag, arguments name the same input, or have the same error. -/
theorem flaggedInput_filter (flag : String) (input : Option String) (given given' : Bool)
    (arguments : List String) :
    flaggedInput flag input given' (arguments.filter (· ≠ flag)) =
      (flaggedInput flag input given arguments).map fun (found, _) => (found, given') := by
  fun_induction flaggedInput flag input given arguments with
  | case1 => rfl
  | case2 input given rest ih => simpa using ih
  | case3 input given argument rest hne hflag =>
    simp [hne, flaggedInput, hflag, Except.map]
  | case4 given argument rest hne hname ih => simpa [hne, flaggedInput, hname] using ih
  | case5 given argument rest hne hname first => simp [hne, flaggedInput, hname, Except.map]

/-- Without the flag, `run` is asked for the same, or the arguments have the same error. -/
theorem ofArguments_run_filter (arguments : List String) :
    (∃ e, Request.ofArguments ("run" :: arguments) = .error e ∧
      Request.ofArguments ("run" :: arguments.filter (· ≠ "--trace")) = .error e) ∨
    ∃ input trace, Request.ofArguments ("run" :: arguments) = .ok (.run input trace) ∧
      Request.ofArguments ("run" :: arguments.filter (· ≠ "--trace")) = .ok (.run input false) := by
  have hrun (arguments : List String) : Request.ofArguments ("run" :: arguments) =
      flagged .run "--trace" Request.run arguments := rfl
  rw [hrun, hrun, flagged, flagged, flaggedInput_filter "--trace" none false false]
  rcases flaggedInput "--trace" none false arguments with e | ⟨_ | input, trace⟩
  · exact .inl ⟨e, rfl, rfl⟩
  · exact .inl ⟨.missingInput .run, rfl, rfl⟩
  · exact .inr ⟨input, trace, rfl, rfl⟩

/-- **Tracing changes nothing but the log.** Whatever arguments `run` is given, and whatever its
surroundings are, an output that fails included: without the flag it comes to an end within the same
limits, and reports the same, the log apart. -/
theorem trace_only_logs (limit : Nat) (s : Surroundings) (arguments : List String) :
    Option.Rel (OnlyLogs s.coloured) (perform limit s ("run" :: arguments))
      (perform limit s ("run" :: arguments.filter (· ≠ "--trace"))) := by
  rcases ofArguments_run_filter arguments with ⟨e, herror, herror'⟩ | ⟨input, trace, hrun, hrun'⟩
  · rw [perform_of_error herror, perform_of_error herror']
    exact .some (onlyLogs_failed _ _ _)
  · rw [perform_of_request hrun, perform_of_request hrun']
    exact runReport_trace limit s input trace

end LS8.CommandLine
