/-
What a run comes to, step by step.

`run` says what a run comes to, and `act` takes it step by step, on a scene that keeps all
that was done to it, whatever happens later.  Every step before the last two leaves files and
standard output as they are (`Later`), so a run that is cut short there has done nothing to
them, and what is read late is what was there from the start.  The last two steps open the
output file and write to it, and between them the file is empty.  That is why the two come to
the same (`leaves_act`).
-/
import TerminalMarkup.Command.Acting
import TerminalMarkup.Proofs.Command.Results
import TerminalMarkup.Proofs.Converter.Packets

namespace TerminalMarkup

theorem Files.put_put (files : Files) (place : Files.Location) (bytes bytes' : List UInt8) :
    (files.put place bytes).put place bytes' = files.put place bytes' := by
  simp [Files.put, List.filter_filter]

theorem Files.at?_of_find {files : Files} {path : Text} {place : Files.Location}
    {entry : Files.Entry} (h : files.find path = .ok (place, entry)) :
    files.at? place = some entry := by
  unfold Files.find at h
  split at h
  · cases h
  · split at h
    · cases h
    · exact Files.at?_of_walk h

namespace Command

/-! ### Playing jobs -/

variable {α β : Type} {s s' : Scene} {ending : Ending}

theorem play_bind (job : Job α) (next : α → Job β) (s : Scene) :
    (job >>= next).play s =
      match job.play s with
      | (.ok a, s') => (next a).play s'
      | (.error halt, s') => (.error halt, s') := by
  show (ExceptT.bindCont next (job.play s).1).run (job.play s).2 = _
  rcases job.play s with ⟨halt | a, s'⟩
  · rfl
  · rfl

theorem play_bind_of_ok {job : Job α} {a : α} (h : job.play s = (.ok a, s')) (next : α → Job β) :
    (job >>= next).play s = (next a).play s' := by
  rw [play_bind, h]

theorem play_get_bind (next : Scene → Job β) (s : Scene) :
    (get >>= next).play s = (next s).play s := rfl

/-- What would come after the end of a run does not come. -/
theorem play_bind_of_stop {job : Job α} (h : job.play s = (stop ending).play s)
    (next : α → Job β) : (job >>= next).play s = (stop ending).play s := by
  rw [play_bind, h]
  cases ending with
  | done printed written =>
      cases written with
      | none => rfl
      | some written => rfl
  | help scope code =>
      cases code with
      | zero => rfl
      | succ code => rfl
  | misused scope fault => rfl
  | refused code message => rfl
  | broken crash => rfl
  | unwritten emptied =>
      cases emptied with
      | none => rfl
      | some place => rfl

/-! ### What is left behind -/

/-- The exit code, and why the run broke off, if it did. -/
def exitOf {α : Type} : Except Halt α → Nat × Option Crash
  | .ok _ => (0, none)
  | .error (.exit code) => (code, none)
  | .error (.crash crash) => (1, some crash)

/-- The outcome with the notices that are shown. -/
def Outcome.showing (verbose : Bool) (o : Outcome) : Outcome :=
  { o with notices := Notice.shown verbose o.notices }

/-- What a run has added to a scene is an outcome. -/
structure Leaves (s : Scene) (o : Outcome) (r : Except Halt Unit × Scene) : Prop where
  exit : exitOf r.1 = (o.exitCode, o.crash?)
  files : r.2.files = o.files s.files
  stdout : r.2.stdout = s.stdout ++ o.stdout
  stderr : r.2.stderr = s.stderr ++ o.stderr
  notices : r.2.notices = s.notices ++ o.notices

/-- A scene comes after another with the same files and the same things printed, and with some more
notices told. -/
structure Later (s : Scene) (notices : List Notice) (s' : Scene) : Prop where
  files : s'.files = s.files
  stdout : s'.stdout = s.stdout
  stderr : s'.stderr = s.stderr
  verbose : s'.verbose = s.verbose
  notices : s'.notices = s.notices ++ Notice.shown s.verbose notices

variable {notices notices' : List Notice}

theorem Later.refl (s : Scene) : Later s [] s := ⟨rfl, rfl, rfl, rfl, (List.append_nil _).symm⟩

theorem shown_append (verbose : Bool) (notices notices' : List Notice) :
    Notice.shown verbose (notices ++ notices')
      = Notice.shown verbose notices ++ Notice.shown verbose notices' :=
  List.filter_append ..

theorem Later.trans {s'' : Scene} (h : Later s notices s') (h' : Later s' notices' s'') :
    Later s (notices ++ notices') s'' where
  files := h'.files.trans h.files
  stdout := h'.stdout.trans h.stdout
  stderr := h'.stderr.trans h.stderr
  verbose := h'.verbose.trans h.verbose
  notices := by
    rw [h'.notices, h.notices, h.verbose, shown_append, List.append_assoc]

/-- A run that ends in a later scene leaves behind what was told before. -/
theorem Later.leaves {r : Except Halt Unit × Scene} (h : Later s notices s')
    (h' : Leaves s' { ending } r) : Leaves s (Outcome.showing s.verbose { ending, notices }) r where
  exit := h'.exit
  files := by
    rw [h'.files, h.files]
    rfl
  stdout := by
    rw [h'.stdout, h.stdout]
    rfl
  stderr := by
    rw [h'.stderr, h.stderr]
    rfl
  notices := by
    rw [h'.notices, h.notices]
    exact List.append_nil _

theorem leaves_stop (ending : Ending) (s : Scene) : Leaves s { ending } ((stop ending).play s) := by
  cases ending with
  | done printed written =>
      cases written with
      | none => exact ⟨rfl, rfl, rfl, (List.append_nil _).symm, (List.append_nil _).symm⟩
      | some written => exact ⟨rfl, rfl, rfl, (List.append_nil _).symm, (List.append_nil _).symm⟩
  | help scope code =>
      cases code with
      | zero => exact ⟨rfl, rfl, rfl, (List.append_nil _).symm, (List.append_nil _).symm⟩
      | succ code => exact ⟨rfl, rfl, (List.append_nil _).symm, rfl, (List.append_nil _).symm⟩
  | misused scope fault =>
      exact ⟨rfl, rfl, (List.append_nil _).symm, rfl, (List.append_nil _).symm⟩
  | refused code message =>
      exact ⟨rfl, rfl, (List.append_nil _).symm, rfl, (List.append_nil _).symm⟩
  | broken crash =>
      exact ⟨rfl, rfl, (List.append_nil _).symm, (List.append_nil _).symm, (List.append_nil _).symm⟩
  | unwritten emptied =>
      cases emptied with
      | none =>
          exact ⟨rfl, rfl, (List.append_nil _).symm, (List.append_nil _).symm,
            (List.append_nil _).symm⟩
      | some place =>
          exact ⟨rfl, rfl, (List.append_nil _).symm, (List.append_nil _).symm,
            (List.append_nil _).symm⟩

/-- A run whose first part cuts it short leaves what that leaves. -/
theorem leaves_bind_of_stop {o : Outcome} {job : Job α} {next : α → Job Unit}
    (houtcome : o = { ending }) (h : job.play s = (stop ending).play s) :
    Leaves s (o.showing s.verbose) ((job >>= next).play s) := by
  rw [houtcome, play_bind_of_stop h]
  exact leaves_stop ending s

/-- The scene with notices told. -/
def Scene.told (s : Scene) (notices : List Notice) : Scene :=
  { s with notices := s.notices ++ Notice.shown s.verbose notices }

theorem play_tell (notices : List Notice) (s : Scene) :
    (tell notices).play s = (.ok (), s.told notices) := rfl

theorem later_told (s : Scene) (notices : List Notice) : Later s notices (s.told notices) :=
  ⟨rfl, rfl, rfl, rfl, rfl⟩

theorem play_openOutput (path : Text) (s : Scene) :
    (openOutput path).play s =
      match s.files.target (Files.plainPath path) with
      | .error fault => (stop (.broken (.writing fault))).play s
      | .ok place => (.ok place, { s with files := s.files.put place [] }) := by
  unfold openOutput
  rw [play_get_bind]
  cases s.files.target (Files.plainPath path) with
  | error fault => rfl
  | ok place => rfl

theorem leaves_echo (t : Text) (s : Scene) :
    Leaves s { ending := emit s.files none t } ((echo t).play s) := by
  unfold echo
  cases hbytes : (Utf8.encode? (Plain.plain t)).isSome with
  | true =>
      rw [emit_printed _ hbytes]
      exact ⟨rfl, rfl, rfl, (List.append_nil _).symm, (List.append_nil _).symm⟩
  | false =>
      rw [emit_unprinted _ hbytes]
      exact leaves_stop (.unwritten none) s

/-- Of a file that has been opened nothing is left but what is written. -/
theorem leaves_writeOutput {path : Text} {place : Files.Location}
    (htarget : s.files.target (Files.plainPath path) = .ok place) (t : Text) :
    Leaves s { ending := emit s.files (some path) t }
      ((writeOutput place t).play { s with files := s.files.put place [] }) := by
  cases hbytes : Utf8.encode? t with
  | none =>
      rw [emit_unwritten htarget hbytes, writeOutput, hbytes]
      exact leaves_stop (.unwritten (some place)) s
  | some bytes =>
      rw [emit_written htarget hbytes, writeOutput, hbytes]
      have hfiles : (s.files.put place []).put place bytes = s.files.store place t := by
        rw [Files.put_put, Files.store, hbytes, Option.getD_some]
      have hnothing : s.stdout = s.stdout ++ Plain.plain [] := by
        rw [Plain.plain_of_not_mem List.not_mem_nil, List.append_nil]
      exact ⟨rfl, hfiles, hnothing, (List.append_nil _).symm, (List.append_nil _).symm⟩

/-- A text is delivered all at once or not at all, but the file may have been made empty for it. -/
theorem leaves_deliver (output : Option Text) (t : Text) (s : Scene) :
    Leaves s { ending := emit s.files output t } ((deliver output t).play s) := by
  cases output with
  | none => exact leaves_echo t s
  | some path =>
      have hopen := play_openOutput path s
      cases htarget : s.files.target (Files.plainPath path) with
      | error fault =>
          rw [htarget] at hopen
          rw [deliver, play_bind_of_stop hopen, emit_untargeted htarget]
          exact leaves_stop _ s
      | ok place =>
          rw [htarget] at hopen
          rw [deliver, play_bind_of_ok hopen]
          exact leaves_writeOutput htarget t

theorem Later.leaves_deliver (h : Later s notices s') (output : Option Text) (t : Text) :
    Leaves s (Outcome.showing s.verbose { ending := emit s.files output t, notices })
      ((deliver output t).play s') := by
  have hend := h.leaves (Command.leaves_deliver output t s')
  rw [h.files] at hend
  exact hend

/-! ### The parts of commands -/

theorem play_checkValues (verb : Verb) (a : Arguments) (s : Scene) :
    (checkValues verb a).play s =
      match badValue? s.files verb a with
      | some ending => (stop ending).play s
      | none => (.ok (), s) := by
  unfold checkValues
  rw [play_get_bind]
  cases badValue? s.files verb a with
  | some ending => rfl
  | none => rfl

theorem play_openInput (name : Text) (s : Scene) :
    (openInput name).play s =
      if name = stdinName then (.ok .stdin, s)
      else match s.files.find name with
        | .ok (place, .file _) => (.ok (.file place), s)
        | .ok (_, .directory) => (stop (inputEnding name .isDirectory)).play s
        | .error fault => (stop (inputEnding name fault)).play s := by
  unfold openInput
  by_cases hname : name = stdinName
  · rw [if_pos hname, if_pos hname]
    rfl
  · rw [if_neg hname, if_neg hname, play_get_bind]
    rcases s.files.find name with fault | ⟨place, bytes | -⟩
    · rfl
    · rfl
    · rfl

theorem play_loadSettings (path : Option Text) (overrides : Overrides) (s : Scene) :
    (loadSettings path overrides).play s =
      match settingsFor s.files path overrides with
      | .error ending => (stop ending).play s
      | .ok (settings, notices) =>
        (.ok settings, s.told notices) := by
  unfold loadSettings
  rw [play_get_bind]
  cases settingsFor s.files path overrides with
  | error ending => rfl
  | ok loaded => rfl

/-- What a run that starts with a scene can see. -/
def Scene.world (s : Scene) (respond : Download.Request → Download.Reply) : World :=
  { files := s.files, stdin := s.stdin, respond }

/-- The texts that are read from inputs in turn.  Standard input is used up when it is read. -/
def textsRead (files : Files) : List UInt8 → List Handle → List Text
  | _, [] => []
  | bytes, .stdin :: rest => inputText bytes :: textsRead files [] rest
  | bytes, .file place :: rest =>
    match files.at? place with
    | some (.file found) => inputText found :: textsRead files bytes rest
    | _ => [] :: textsRead files bytes rest

theorem play_openInput_of_error {name : Text} {fault : Files.Fault} (hname : name ≠ stdinName)
    (h : s.files.read name = .error fault) :
    (openInput name).play s = (stop (inputEnding name fault)).play s := by
  rw [play_openInput, if_neg hname]
  rw [Files.read] at h
  split at h
  · rename_i hfind
    cases h
    rw [hfind]
  · cases h
  · rename_i hfind
    cases h
    rw [hfind]

theorem play_openInput_of_ok {name : Text} {bytes : List UInt8} (hname : name ≠ stdinName)
    (h : s.files.read name = .ok bytes) :
    ∃ place, (openInput name).play s = (.ok (.file place), s) ∧
      s.files.at? place = some (.file bytes) := by
  rw [play_openInput, if_neg hname]
  rw [Files.read] at h
  split at h
  · cases h
  · rename_i place found hfind
    cases h
    exact ⟨place, by rw [hfind], Files.at?_of_find hfind⟩
  · cases h

/-- What opening inputs comes to, if reading them would come to `r`. -/
def Opens (s : Scene) (bytes : List UInt8) (names : List Text) : Except Ending (List Text) → Prop
  | .error ending => (openInputs names).play s = (stop ending).play s
  | .ok texts => ∃ handles, (openInputs names).play s = (.ok handles, s) ∧
      textsRead s.files bytes handles = texts

theorem Opens.cons {name t : Text} {names : List Text} {bytes bytes' : List UInt8} {handle : Handle}
    {r : Except Ending (List Text)} (hopen : (openInput name).play s = (.ok handle, s))
    (htext : ∀ handles, textsRead s.files bytes (handle :: handles)
      = t :: textsRead s.files bytes' handles)
    (h : Opens s bytes' names r) : Opens s bytes (name :: names) (r.map (t :: ·)) := by
  have hplay : (openInputs (name :: names)).play s =
      (openInputs names >>= fun handles => pure (handle :: handles)).play s := by
    rw [openInputs, play_bind_of_ok hopen]
  cases r with
  | error ending =>
      have hrest : (openInputs names).play s = (stop ending).play s := h
      show (openInputs (name :: names)).play s = _
      rw [hplay, play_bind_of_stop hrest]
  | ok texts =>
      obtain ⟨handles, hrest, rfl⟩ := h
      refine ⟨handle :: handles, ?_, htext handles⟩
      rw [hplay, play_bind_of_ok hrest]
      rfl

/-- Opening inputs looks at the files, and leaves everything as it is. -/
theorem opens_inputs (respond : Download.Request → Download.Reply) (names : List Text) (s : Scene)
    (bytes : List UInt8) :
    Opens s bytes names (inputs { files := s.files, stdin := bytes, respond } names) := by
  -- Standard input is used up on the way, so the bytes change with the names.
  induction names generalizing bytes with
  | nil => exact ⟨[], rfl, rfl⟩
  | cons name names ih =>
      by_cases hname : name = stdinName
      · have hopen : (openInput name).play s = (.ok .stdin, s) := by
          rw [play_openInput, if_pos hname]
        rw [inputs, if_pos hname]
        exact Opens.cons hopen (fun _ => rfl) (ih [])
      cases hread : s.files.read name with
      | error fault =>
          rw [inputs_of_error hname hread]
          exact play_bind_of_stop (play_openInput_of_error hname hread) _
      | ok found =>
          obtain ⟨place, hopen, hat⟩ := play_openInput_of_ok hname hread
          have htext : ∀ handles, textsRead s.files bytes (.file place :: handles)
              = inputText found :: textsRead s.files bytes handles := by
            intro handles
            rw [textsRead, hat]
          rw [inputs, if_neg hname, hread]
          exact Opens.cons hopen htext (ih bytes)

/-! ### Conversions -/

/-- Converting gives what a run of the converter gives, and tells what it tells. -/
theorem play_convertSteps (c : Converter) (steps : List Converter.Step) (s : Scene) :
    ∃ s', (convertSteps c steps).play s =
        (.ok ((c.run steps).1.flatMap Output.html, (c.run steps).2), s') ∧
      Later s ((c.run steps).1.flatMap Output.notices) s' ∧ s'.stdin = s.stdin := by
  induction steps generalizing c s with
  | nil => exact ⟨s, rfl, Later.refl s, rfl⟩
  | cons step rest ih =>
      have htell := play_tell (c.step step).1.notices s
      obtain ⟨s', hplay, hlater, hstdin⟩ := ih (c.step step).2 (s.told (c.step step).1.notices)
      refine ⟨s', ?_, (later_told ..).trans hlater, hstdin⟩
      show (tell (c.step step).1.notices >>= fun _ =>
        convertSteps (c.step step).2 rest >>= fun more =>
        pure ((c.step step).1.html ++ more.1, more.2)).play s = _
      rw [play_bind_of_ok htell, play_bind_of_ok hplay]
      rfl

/-- Reading an input gives its text, and uses it up if it is standard input. -/
theorem play_readInput (handle : Handle) (handles : List Handle) (s : Scene) :
    ∃ t s', (readInput handle).play s = (.ok t, s') ∧ Later s [] s' ∧
      textsRead s.files s.stdin (handle :: handles) = t :: textsRead s'.files s'.stdin handles := by
  cases handle with
  | stdin =>
      have hlater : Later s [] { s with stdin := [] } :=
        ⟨rfl, rfl, rfl, rfl, (List.append_nil _).symm⟩
      exact ⟨inputText s.stdin, { s with stdin := [] }, rfl, hlater, rfl⟩
  | file place =>
      rw [readInput, play_get_bind, textsRead]
      cases s.files.at? place with
      | none => exact ⟨_, s, rfl, Later.refl s, rfl⟩
      | some entry => cases entry <;> exact ⟨_, s, rfl, Later.refl s, rfl⟩

/-- The steps of a converter for texts that follow each other. -/
def stepsFor (size : Nat) (texts : List Text) : List Converter.Step :=
  (texts.flatMap (Text.pieces size)).map .convert ++ [.finish]

theorem stepsFor_cons (size : Nat) (t : Text) (texts : List Text) :
    stepsFor size (t :: texts) = (Text.pieces size t).map .convert ++ stepsFor size texts := by
  rw [stepsFor, List.flatMap_cons, List.map_append, List.append_assoc]
  rfl

/-- Reading and converting in turn gives what converting gives that follows reading. -/
theorem play_convertInputs (size : Nat) (c : Converter) (handles : List Handle) (s : Scene) :
    let outs := (c.run (stepsFor size (textsRead s.files s.stdin handles))).1
    ∃ s', (convertInputs size c handles).play s = (.ok (outs.flatMap Output.html), s') ∧
      Later s (outs.flatMap Output.notices) s' := by
  induction handles generalizing c s with
  | nil =>
      obtain ⟨s', hplay, hlater, -⟩ := play_convertSteps c [.finish] s
      refine ⟨s', ?_, hlater⟩
      rw [convertInputs, play_bind_of_ok hplay]
      rfl
  | cons handle handles ih =>
      obtain ⟨t, s1, hread, hlater1, htexts⟩ := play_readInput handle handles s
      obtain ⟨s2, hfront, hlater2, hstdin⟩ :=
        play_convertSteps c ((Text.pieces size t).map .convert) s1
      obtain ⟨s3, hback, hlater3⟩ := ih (c.run ((Text.pieces size t).map .convert)).2 s2
      rw [hlater2.files, hstdin] at hback hlater3
      dsimp only
      rw [htexts, stepsFor_cons, Converter.run_append, List.flatMap_append, List.flatMap_append]
      refine ⟨s3, ?_, hlater1.trans (hlater2.trans hlater3)⟩
      rw [convertInputs, play_bind_of_ok hread, play_bind_of_ok hfront]
      show (convertInputs _ _ _ >>= _).play _ = _
      rw [play_bind_of_ok hback]
      rfl

/-! ### The commands -/

theorem leaves_actConvert (respond : Download.Request → Download.Reply) (a : Arguments)
    (s : Scene) :
    Leaves s ((convert (s.world respond) a).showing s.verbose) ((actConvert a).play s) := by
  have hcheck := play_checkValues .convert a s
  have hopens : Opens s s.stdin a.inputNames (inputs (s.world respond) a.inputNames) :=
    opens_inputs respond a.inputNames s s.stdin
  have hload := play_loadSettings (a.value? .config) a.overrides s
  cases hvalues : badValue? s.files .convert a with
  | some ending =>
      rw [hvalues] at hcheck
      exact leaves_bind_of_stop (convert_of_badValue? hvalues) hcheck
  | none =>
  rw [hvalues] at hcheck
  rw [actConvert, play_bind_of_ok hcheck]
  cases hinputs : inputs (s.world respond) a.inputNames with
  | error ending =>
      rw [hinputs] at hopens
      exact leaves_bind_of_stop (convert_of_inputs_error hvalues hinputs) hopens
  | ok texts =>
  rw [hinputs] at hopens
  obtain ⟨handles, hopen, rfl⟩ := hopens
  rw [play_bind_of_ok hopen]
  cases hsettings : settingsFor s.files (a.value? .config) a.overrides with
  | error ending =>
      rw [hsettings] at hload
      exact leaves_bind_of_stop (convert_of_settings_error hvalues hinputs hsettings) hload
  | ok loaded =>
  obtain ⟨settings, notices⟩ := loaded
  rw [hsettings] at hload
  rw [convert_of_settings hvalues hinputs hsettings, play_bind_of_ok hload]
  have htold := later_told s notices
  by_cases hfits : Numeral.fitsWord a.chunkSize = true
  · have hsize : (takeSize a.chunkSize).play (s.told notices) =
        (.ok a.chunkSize.toNat, s.told notices) := by
      rw [takeSize, if_pos hfits]
      rfl
    obtain ⟨s', hconvert, hlater⟩ :=
      play_convertInputs a.chunkSize.toNat { settings } handles (s.told notices)
    rw [if_pos hfits, play_bind_of_ok hsize, play_bind_of_ok hconvert]
    exact (htold.trans hlater).leaves_deliver _ _
  · have hsize : (takeSize a.chunkSize).play (s.told notices) =
        (stop (.broken .chunkTooWide)).play (s.told notices) := by
      rw [takeSize, if_neg hfits]
    rw [if_neg hfits, play_bind_of_stop hsize]
    exact htold.leaves (leaves_stop (.broken .chunkTooWide) (s.told notices))

theorem play_takeUrl_of_fault {operands : List Text} {fault : UsageFault}
    (h : urlFault? operands = some fault) (s : Scene) :
    (takeUrl operands).play s = (stop (.misused (.verb .fetch) fault)).play s := by
  match operands with
  | [] =>
      cases h
      rfl
  | [url] => cases h
  | _ :: _ :: _ =>
      cases h
      rfl

theorem leaves_actFetch (respond : Download.Request → Download.Reply) (a : Arguments)
    (s : Scene) :
    Leaves s ((fetch (s.world respond) a).showing s.verbose) ((actFetch respond a).play s) := by
  have hcheck := play_checkValues .fetch a s
  have hload := play_loadSettings (a.value? .config) a.overrides s
  cases hvalues : badValue? s.files .fetch a with
  | some ending =>
      rw [hvalues] at hcheck
      exact leaves_bind_of_stop (fetch_of_badValue? hvalues) hcheck
  | none =>
  rw [hvalues] at hcheck
  rw [actFetch, play_bind_of_ok hcheck]
  cases hfault : urlFault? a.operands with
  | some fault =>
      have htake := play_takeUrl_of_fault hfault s
      exact leaves_bind_of_stop (fetch_of_urlFault? hvalues hfault) htake
  | none =>
  obtain ⟨url, hoperands⟩ := urlFault?_eq_none_iff.mp hfault
  have hurl : (takeUrl a.operands).play s = (.ok url, s) := by
    rw [hoperands]
    rfl
  rw [play_bind_of_ok hurl]
  cases hsettings : settingsFor s.files (a.value? .config) a.overrides with
  | error ending =>
      rw [hsettings] at hload
      exact leaves_bind_of_stop (fetch_of_settings_error hvalues hoperands hsettings) hload
  | ok loaded =>
  obtain ⟨settings, notices⟩ := loaded
  rw [hsettings] at hload
  rw [fetch_of_settings hvalues hoperands hsettings, play_bind_of_ok hload]
  have htold := later_told s notices
  have hrespond : (s.world respond).respond = respond := rfl
  rw [hrespond]
  cases ht : Download.fetch respond url [] with
  | error fault =>
      have hdownload : (download respond url).play (s.told notices) =
          (stop (downloadEnding fault)).play (s.told notices) := by
        rw [download, ht]
      rw [play_bind_of_stop hdownload]
      exact htold.leaves (leaves_stop (downloadEnding fault) (s.told notices))
  | ok t =>
      have hdownload : (download respond url).play (s.told notices) = (.ok t, s.told notices) := by
        rw [download, ht]
        rfl
      obtain ⟨s', hconvert, hlater, -⟩ :=
        play_convertSteps { settings } [.convert t, .finish] (s.told notices)
      rw [play_bind_of_ok hdownload, play_bind_of_ok hconvert]
      exact (htold.trans hlater).leaves_deliver _ _

theorem leaves_actCss (respond : Download.Request → Download.Reply) (a : Arguments)
    (s : Scene) : Leaves s ((css (s.world respond) a).showing s.verbose) ((actCss a).play s) := by
  have hcheck := play_checkValues .css a s
  have hload := play_loadSettings (a.value? .config) {} s
  cases hvalues : badValue? s.files .css a with
  | some ending =>
      rw [hvalues] at hcheck
      exact leaves_bind_of_stop (css_of_badValue? hvalues) hcheck
  | none =>
  rw [hvalues] at hcheck
  rw [actCss, play_bind_of_ok hcheck]
  by_cases hnone : a.operands = []
  · have htake : (takeNone a.operands).play s = (.ok (), s) := by
      rw [takeNone, if_pos hnone]
      rfl
    rw [play_bind_of_ok htake]
    cases hsettings : settingsFor s.files (a.value? .config) {} with
    | error ending =>
        rw [hsettings] at hload
        exact leaves_bind_of_stop (css_of_settings_error hvalues hnone hsettings) hload
    | ok loaded =>
        obtain ⟨settings, notices⟩ := loaded
        rw [hsettings] at hload
        rw [css_of_settings hvalues hnone hsettings, play_bind_of_ok hload]
        exact (later_told s notices).leaves (leaves_deliver none _ (s.told notices))
  · have htake : (takeNone a.operands).play s =
        (stop (.misused (.verb .css) (.extraOperands a.operands))).play s := by
      rw [takeNone, if_neg hnone]
    exact leaves_bind_of_stop (css_of_operands hvalues hnone) htake

/-! ### The program -/

theorem leaves_actVerb (respond : Download.Request → Download.Reply) (verb : Verb)
    (arguments : List Text) (s : Scene) :
    Leaves s ((runVerb (s.world respond) verb arguments).showing s.verbose)
      ((actVerb respond verb arguments).play s) := by
  unfold runVerb actVerb
  cases Arguments.read (Flag.ofVerb verb) true arguments with
  | error fault => exact leaves_stop (.misused (.verb verb) (.argument fault)) s
  | ok a =>
      by_cases hhelp : a.has .help = true
      · simp only [if_pos hhelp]
        exact leaves_stop (.help (.verb verb) 0) s
      · simp only [if_neg hhelp]
        cases verb with
        | convert => exact leaves_actConvert respond a s
        | fetch => exact leaves_actFetch respond a s
        | css => exact leaves_actCss respond a s

/-- What a run finds. -/
def World.scene (w : World) : Scene := { files := w.files, stdin := w.stdin }

/-- **Step by step, a run comes to what it is said to come to.** -/
theorem leaves_act (w : World) (arguments : List Text) :
    Leaves w.scene (run w arguments) ((act w.respond arguments).play w.scene) := by
  unfold run act
  cases Arguments.read Flag.ofProgram false arguments with
  | error fault => exact leaves_stop (.misused .program (.argument fault)) w.scene
  | ok a =>
      dsimp only
      cases a.ending? with
      | some ending => exact leaves_stop ending w.scene
      | none =>
          cases a.operands with
          | nil => exact leaves_stop _ w.scene
          | cons name rest =>
              dsimp only
              cases Verb.ofName? name with
              | none => exact leaves_stop _ w.scene
              | some verb =>
                  have hverb := leaves_actVerb w.respond verb rest
                    { w.scene with verbose := a.has .verbose }
                  exact ⟨hverb.exit, hverb.files, hverb.stdout, hverb.stderr, hverb.notices⟩

end Command

end TerminalMarkup
