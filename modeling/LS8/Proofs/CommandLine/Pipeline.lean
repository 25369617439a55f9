import LS8.Proofs.Assembly.Placement
import LS8.Proofs.CommandLine.Running
import LS8.Proofs.Listing.RoundTrip

/-!
# From a source to its results, through files

The listing that `assemble` writes is the only file that it touches, and it touches none unless
everything else has succeeded. What `run` and `disassemble` make of this listing is what the machine
and the disassembler make of the image, and the disassembly assembles to the same listing again
(`assembled_file_delivers`).
-/
namespace LS8

/-- All of the text can be written. -/
def LineWriter.HasRoom (w : LineWriter) (text : String) : Prop :=
  ∀ room, w.room = some room → text.length ≤ room

theorem LineWriter.write_of_hasRoom {w : LineWriter} {text : String} (h : w.HasRoom text) :
    ∃ room, w.write text = ({ w with text := w.text ++ text, room := room }, .ok ()) := by
  cases hroom : w.room with
  | none => exact ⟨none, by simp only [write, hroom]⟩
  | some room =>
    exact ⟨some (room - text.length), by simp only [write, hroom, if_pos (h room hroom)]⟩

theorem LineWriter.write_of_not_hasRoom {w : LineWriter} {text : String} (h : ¬ w.HasRoom text) :
    ∃ written, written <+: text.toList ∧ w.write text =
      ({ w with text := w.text ++ String.ofList written, room := some 0 }, .error w.reason) := by
  simp only [HasRoom, not_forall, Nat.not_le] at h
  obtain ⟨room, hroom, hshort⟩ := h
  refine ⟨text.toList.take room, List.take_prefix room text.toList, ?_⟩
  simp only [write, hroom, if_neg (Nat.not_le.mpr hshort)]

namespace CommandLine

/-! ## What is written -/

namespace Files

/-- Where the file with this name is. -/
def Leads (files : Files) (name : String) (place : Location) : Prop :=
  ∃ route, Route.ofName? name = some route ∧ files.locate route = .ok place

def Writable (files : Files) (name : String) : Prop :=
  ∃ content after, files.write name content = .ok after

/-- The file with this name has got this content, and all the other files are the same. -/
def OnlyWrites (files : Files) (name content : String) (after : Files) : Prop :=
  ∃ place, files.Leads name place ∧ ∀ other,
    after.find? other = if other = place then some (.text content) else files.find? other

variable {files after : Files} {name content : String}

theorem write_eq_ok_iff :
    files.write name content = .ok after ↔
      ∃ route place, Route.ofName? name = some route ∧ files.locate route = .ok place ∧
        route.closed = false ∧ files.find? place ≠ some .directory ∧
        files.put place (.text content) = after := by
  unfold write
  cases hroute : Route.ofName? name with
  | none => simp
  | some route =>
    cases hplace : files.locate route with
    | error e => simp [hplace]
    | ok place =>
      by_cases hclosed : route.closed = true <;>
        by_cases hfound : files.find? place = some .directory <;>
        simp [hplace, hclosed, hfound]

theorem onlyWrites_of_write (h : files.write name content = .ok after) :
    files.OnlyWrites name content after := by
  obtain ⟨route, place, hroute, hplace, -, hfound, rfl⟩ := write_eq_ok_iff.mp h
  have hnames : place.names ≠ [] := fun hnil => hfound (by rw [find?, if_pos hnil])
  exact ⟨place, ⟨route, hroute, hplace⟩, find?_put hnames files (.text content)⟩

/-- Whether a file can be written does not depend on what is to be written. -/
theorem Writable.exists_write (h : files.Writable name) (content : String) :
    ∃ after, files.write name content = .ok after := by
  obtain ⟨content', after', hwrite⟩ := h
  obtain ⟨route, place, hroute, hplace, hclosed, hfound, -⟩ := write_eq_ok_iff.mp hwrite
  exact ⟨_, write_eq_ok_iff.mpr ⟨route, place, hroute, hplace, hclosed, hfound, rfl⟩⟩

end Files

/-! ## What is read -/

/-- The commands that read a file make of it what the machine and the disassembler make of the
image. -/
structure Delivers (files : Files) (name : String) (image : Image) : Prop where
  listing : files.read name = .ok (Listing.render image)
  /-- Up to any limit, whatever colours and reasons the surroundings may have. -/
  runs (limit : Nat) (coloured : Bool) (reason : String) :
    ∃ result, execute limit image = .ok result ∧
      perform limit { files, coloured, output := { reason } } ["run", name] =
        endReport? files result
  disassembles (limit : Nat) (coloured : Bool) (output : LineWriter)
    (hroom : output.HasRoom (disassemble image)) :
    perform limit { files, coloured, output } ["disassemble", name] =
      some { code := 0, stdout := disassemble image, files := files }
  /-- An output that is full gets what fits, and no file changes. -/
  disassembles_in_part (limit : Nat) (coloured : Bool) (output : LineWriter)
    (hfull : ¬ output.HasRoom (disassemble image)) :
    ∃ report, perform limit { files, coloured, output } ["disassemble", name] = some report ∧
      report.code = 101 ∧ report.files = files ∧
      report.stdout.toList <+: (disassemble image).toList ∧
      report.stderr = (Failure.stdout output.reason).text
  /-- The other file may be anywhere, also among other files. -/
  reassembles (limit : Nat) (s : Surroundings) (arguments : List String) (input output : String)
    (hrequest : Request.ofArguments arguments = .ok (.assemble input output))
    (hread : s.files.read input = .ok (disassemble image)) (hwrite : s.files.Writable output) :
    ∃ report, perform limit s arguments = some report ∧ report.code = 0 ∧
      report.files.read output = files.read name

section Request

variable {name : String}

/-- A name that does not look like a flag is an input. -/
theorem flaggedInput_name {flag : String} (hflag : isFlag flag = true)
    (hname : isFlag name = false) :
    flaggedInput flag none false [name] = .ok (some name, false) := by
  have hne : name ≠ flag := by
    rintro rfl
    rw [hflag] at hname
    cases hname
  simp only [flaggedInput, if_neg hne, hname]
  rfl

theorem ofArguments_run (hname : isFlag name = false) :
    Request.ofArguments ["run", name] = .ok (.run name false) := by
  have hflag : isFlag "--trace" = true := by decide
  have hinput := flaggedInput_name hflag hname
  simp only [Request.ofArguments, Command.name, flagged, hinput]
  rfl

theorem ofArguments_disassemble (hname : isFlag name = false) :
    Request.ofArguments ["disassemble", name] = .ok (.disassemble name false) := by
  have hflag : isFlag "--addresses" = true := by decide
  have hinput := flaggedInput_name hflag hname
  simp only [Request.ofArguments, Command.name, flagged, hinput]
  rfl

end Request

theorem assembleReport_of_ok {files after : Files} {input output source : String} {image : Image}
    (hread : files.read input = .ok source) (hassemble : assemble source = .ok image)
    (hwrite : files.write output (Listing.render image) = .ok after) :
    assembleReport files input output =
      { code := 0, stderr := assembledText image output, files := after } := by
  simp only [assembleReport, hread, hassemble, hwrite]

theorem perform_of_assembles {limit : Nat} {s : Surroundings} {arguments : List String}
    {input output source : String} {image : Image}
    (hrequest : Request.ofArguments arguments = .ok (.assemble input output))
    (hread : s.files.read input = .ok source) (hassemble : assemble source = .ok image)
    (hwrite : s.files.Writable output) :
    ∃ after, s.files.write output (Listing.render image) = .ok after ∧
      perform limit s arguments =
        some { code := 0, stderr := assembledText image output, files := after } := by
  obtain ⟨after, hafter⟩ := hwrite.exists_write (Listing.render image)
  refine ⟨after, hafter, ?_⟩
  rw [perform_of_request hrequest, Request.report?, assembleReport_of_ok hread hassemble hafter]

theorem delivers_of_read {files : Files} {name : String} {image : Image}
    (hread : files.read name = .ok (Listing.render image)) (hfits : image.length ≤ memorySize)
    (hname : isFlag name = false) : Delivers files name image := by
  have hparse : Listing.parse (Listing.render image) = .ok image := by
    have hrows := Listing.forall₂_flatMap_rows (sweep image)
    rw [bytes_sweep] at hrows
    refine Listing.parse_of_forall₂ hrows fun text hmem => ?_
    obtain ⟨item, hitem, htext⟩ := List.mem_flatMap.mp hmem
    constructor
    all_goals
      exact Listing.not_mem_of_mem_rows hitem htext rfl rfl (by decide) (by decide) (by decide)
  have hassemble : assemble (disassemble image) = .ok image := by
    obtain ⟨rows, htext, hbytes⟩ := exists_rows_of_image image
    rw [disassemble, ← htext, Assembly.assemble_rows, hbytes, if_pos hfits]
  have himage := readImage_of_parse hread hparse
  refine ⟨hread, fun limit coloured reason => ?_, fun limit coloured output hroom => ?_,
    fun limit coloured output hfull => ?_,
    fun limit s arguments input output hrequest hinput hwrite => ?_⟩
  · obtain ⟨result, hexecute, hreport⟩ :=
      runReport_of_parse hread hparse hfits limit coloured reason
    refine ⟨result, hexecute, ?_⟩
    rw [perform_of_request (ofArguments_run hname)]
    exact hreport
  · rw [perform_of_request (ofArguments_disassemble hname)]
    obtain ⟨room, hwritten⟩ := LineWriter.write_of_hasRoom (w := { output with text := "" }) hroom
    simp only [Request.report?, disassembleReport, himage, Surroundings.scene, disassembly,
      Bool.false_eq_true, if_false, hwritten, String.empty_append]
  · rw [perform_of_request (ofArguments_disassemble hname)]
    obtain ⟨written, hprefix, hwritten⟩ :=
      LineWriter.write_of_not_hasRoom (w := { output with text := "" }) hfull
    simp only [Request.report?, disassembleReport, himage, Surroundings.scene, disassembly,
      Bool.false_eq_true, if_false, hwritten, String.empty_append]
    exact ⟨_, rfl, rfl, rfl, by simpa using hprefix, rfl⟩
  · obtain ⟨after, hafter, hreport⟩ := perform_of_assembles hrequest hinput hassemble hwrite
    exact ⟨_, hreport, rfl, (Files.read_write hafter).trans hread.symm⟩

/-! ## Success and failure -/

/-- What an `assemble` needs: arguments that name two files, a text that can be read and assembled,
and a place to write to. -/
def Assembles (s : Surroundings) (arguments : List String) : Prop :=
  ∃ input output source image, Request.ofArguments arguments = .ok (.assemble input output) ∧
    s.files.read input = .ok source ∧ assemble source = .ok image ∧ s.files.Writable output

theorem assembleReport_failed {files : Files} {input output : String}
    (h : ∀ source image after, files.read input = .ok source → assemble source = .ok image →
      files.write output (Listing.render image) ≠ .ok after) :
    ∃ failure, failure.code = 1 ∧ assembleReport files input output = .failed files failure := by
  unfold assembleReport
  cases hread : files.read input with
  | error e => exact ⟨.unreadable input e, rfl, rfl⟩
  | ok source =>
    cases hassemble : assemble source with
    | error e =>
      refine ⟨.source e, rfl, ?_⟩
      simp only [hassemble]
    | ok image =>
      cases hwrite : files.write output (Listing.render image) with
      | error e =>
        refine ⟨.unwritable output e, rfl, ?_⟩
        simp only [hassemble, hwrite]
      | ok after => exact absurd hwrite (h source image after hread hassemble)

theorem exists_of_assembleRequest {arguments : List String} {request : Request}
    (h : assembleRequest arguments = .ok request) :
    ∃ input output, request = .assemble input output := by
  unfold assembleRequest at h
  split at h
  · contradiction
  · exact ⟨_, _, (Except.ok.inj h).symm⟩
  · exact ⟨_, _, (Except.ok.inj h).symm⟩

/-- An `assemble` that has failed leaves all files as they are. -/
theorem perform_of_not_assembles {s : Surroundings} {arguments : List String}
    (h : ¬ Assembles s ("assemble" :: arguments)) (limit : Nat) :
    ∃ failure, failure.code = 1 ∧
      perform limit s ("assemble" :: arguments) = some (.failed s.files failure) := by
  have hrequest : Request.ofArguments ("assemble" :: arguments) = assembleRequest arguments := rfl
  cases hparsed : assembleRequest arguments with
  | error e =>
    exact ⟨.usage e, rfl, perform_of_error (hrequest.trans hparsed)⟩
  | ok request =>
    obtain ⟨input, output, rfl⟩ := exists_of_assembleRequest hparsed
    have hfails : ∀ source image after, s.files.read input = .ok source →
        assemble source = .ok image → s.files.write output (Listing.render image) ≠ .ok after := by
      intro source image after hread hassemble hwrite
      exact h ⟨input, output, source, image, hrequest.trans hparsed, hread, hassemble, _, _, hwrite⟩
    obtain ⟨failure, hcode, hreport⟩ := assembleReport_failed hfails
    refine ⟨failure, hcode, ?_⟩
    rw [perform_of_request (hrequest.trans hparsed), Request.report?, hreport]

/-- **From a source to its results.** A source that can be assembled is assembled into a file, and
into no other one; from there it runs, is disassembled, and is assembled again from what this
prints. An `assemble` that exits with a code other than zero, which it does unless it has all that
it needs, leaves the files as they are. -/
theorem assembled_file_delivers :
    (∀ (limit : Nat) (s : Surroundings) (input output source : String) (image : Image),
      s.files.read input = .ok source → assemble source = .ok image →
      s.files.Writable output → isFlag output = false →
      ∃ after, perform limit s ["assemble", input, "-o", output] =
          some { code := 0, stderr := assembledText image output, files := after } ∧
        s.files.OnlyWrites output (Listing.render image) after ∧ Delivers after output image) ∧
    ∀ (limit : Nat) (s : Surroundings) (arguments : List String),
      ∃ report, perform limit s ("assemble" :: arguments) = some report ∧
        (report.code = 0 ↔ Assembles s ("assemble" :: arguments)) ∧
        (report.code ≠ 0 → report.files = s.files) := by
  constructor
  · intro limit s input output source image hread hassemble hwrite hname
    have hrequest :
        Request.ofArguments ["assemble", input, "-o", output] = .ok (.assemble input output) := rfl
    obtain ⟨after, hafter, hreport⟩ := perform_of_assembles hrequest hread hassemble hwrite
    have hfits := length_le_of_assemble hassemble
    exact ⟨after, hreport, Files.onlyWrites_of_write hafter,
      delivers_of_read (Files.read_write hafter) hfits hname⟩
  · intro limit s arguments
    by_cases h : Assembles s ("assemble" :: arguments)
    · obtain ⟨input, output, source, image, hrequest, hread, hassemble, hwrite⟩ := id h
      obtain ⟨after, -, hreport⟩ := perform_of_assembles hrequest hread hassemble hwrite
      exact ⟨_, hreport, iff_of_true rfl h, fun hcode => absurd rfl hcode⟩
    · obtain ⟨failure, hcode, hreport⟩ := perform_of_not_assembles h limit
      have hfailed : failure.code ≠ 0 := by
        rw [hcode]
        exact Nat.one_ne_zero
      exact ⟨_, hreport, iff_of_false hfailed h, fun _ => rfl⟩

/-- A directory with one source, which prints nine. -/
def nineAlone : Surroundings where
  files := .ofList [("nine.asm", .text "LDI R0,9\nPRN R0\nHLT\n")]

theorem assembled_file_delivers_nine :
    nineAlone.files.read "nine.asm" = .ok "LDI R0,9\nPRN R0\nHLT\n" ∧
      assemble "LDI R0,9\nPRN R0\nHLT\n" = .ok [0x82, 0, 9, 0x47, 0, 1] ∧
      nineAlone.files.Writable "nine.ls8" ∧ isFlag "nine.ls8" = false ∧
      ∃ after, perform 0 nineAlone ["assemble", "nine.asm", "-o", "nine.ls8"] = some {
          code := 0
          stderr := "assembled 6 bytes -> nine.ls8\n"
          files := after } ∧
        perform 3 { files := after } ["run", "nine.ls8"] =
          some { code := 0, stdout := "9\n", files := after } := by
  have hread : nineAlone.files.read "nine.asm" = .ok "LDI R0,9\nPRN R0\nHLT\n" := by
    decide +kernel
  have hassemble : assemble "LDI R0,9\nPRN R0\nHLT\n" = .ok [0x82, 0, 9, 0x47, 0, 1] := by
    decide +kernel
  have hwrite : nineAlone.files.Writable "nine.ls8" := ⟨"", _, rfl⟩
  have hname : isFlag "nine.ls8" = false := by decide
  have htext : assembledText [0x82, 0, 9, 0x47, 0, 1] "nine.ls8" =
      "assembled 6 bytes -> nine.ls8\n" := by decide +kernel
  have hend : (execute 3 [0x82, 0, 9, 0x47, 0, 1]).map (fun (m, ending) => (m.channel, ending)) =
      .ok (#[9], .halted) := by decide +kernel
  obtain ⟨after, hperform, -, hdelivers⟩ :=
    assembled_file_delivers.1 0 nineAlone "nine.asm" "nine.ls8" _ _ hread hassemble hwrite hname
  obtain ⟨⟨m, ending⟩, hexecute, hrun⟩ := hdelivers.runs 3 false ""
  rw [hexecute] at hend
  obtain ⟨hchannel, rfl⟩ := Prod.mk.inj (Except.ok.inj hend)
  rw [htext] at hperform
  refine ⟨hread, hassemble, hwrite, hname, after, hperform, ?_⟩
  rw [hrun, endReport?, show m.channel = #[9] from hchannel]
  rfl

end CommandLine
end LS8
