/-
Settings do not interfere with the stream.

Two sessions are compared here that have nothing in common but what their streams are
given: the chunks, the ends and the resets, in the same order.  Settings, changes of
settings and the places of these changes differ as they like, and one may fall between two
halves of a sequence.  As long as the streams have come equally far, they are the same
(`alongside_run`).

Settings still decide what a call shows, but only those in force when the call is made.
The history before them leaves no trace: the output is what it would have been if they had
been in force from the beginning (`step_eq_outputUnder`).
-/
import TerminalMarkup.Proofs.Session

namespace TerminalMarkup

namespace Session

/-- What the stream of a session is given: its chunks, its ends and its resets. -/
def arrivals (actions : List Action) : List Converter.Step := actions.filterMap Action.arrival?

/-- What can be seen of the streams of two sessions is the same. -/
structure Alongside (s s' : Session) : Prop where
  buffer : s.stream.buffer = s'.stream.buffer
  pending : s.converter.isPending = s'.converter.isPending
  style : s.stream.style = s'.stream.style

/-- The output of a call under settings that were in force from the beginning, after arrivals. -/
def outputUnder (settings : Settings) (before : List Converter.Step) (c : Call) : Output :=
  ((Converter.run { settings } before).2.step c.step).1

variable {objects objects' : Objects} {settings settings' : SettingsRef}
variable {actions actions' before before' : List Action}

/-! ### The stream -/

theorem alongside_of_stream_eq {s s' : Session} (h : s.stream = s'.stream) : Alongside s s' := by
  refine ⟨congrArg Stream.buffer h, ?_, congrArg Stream.style h⟩
  show (!s.stream.buffer.isEmpty) = !s'.stream.buffer.isEmpty
  rw [h]

/-- What a stream was given is all there is to it. -/
theorem stream_eq (h : arrivals before = arrivals before') :
    ((start objects settings).run before).2.stream
      = ((start objects' settings').run before').2.stream := by
  have hstream := stream_run (start objects settings) before {}
  have hstream' := stream_run (start objects' settings') before' {}
  change before.filterMap Action.arrival? = before'.filterMap Action.arrival? at h
  rw [h] at hstream
  exact congrArg Converter.stream (hstream.symm.trans hstream')

/-- Streams that are given the same and have come equally far were given the same so far. -/
theorem arrivals_eq (h : arrivals actions = arrivals actions') (hbefore : before <+: actions)
    (hbefore' : before' <+: actions')
    (hlength : (arrivals before).length = (arrivals before').length) :
    arrivals before = arrivals before' := by
  have hfront : arrivals before <+: arrivals actions := hbefore.filterMap _
  have hfront' : arrivals before' <+: arrivals actions' := hbefore'.filterMap _
  rw [← h] at hfront'
  exact (List.prefix_of_prefix_length_le hfront hfront' (Nat.le_of_eq hlength)).eq_of_length hlength

theorem alongside_run (h : arrivals actions = arrivals actions') (hbefore : before <+: actions)
    (hbefore' : before' <+: actions')
    (hlength : (arrivals before).length = (arrivals before').length) :
    Alongside ((start objects settings).run before).2
      ((start objects' settings').run before').2 :=
  alongside_of_stream_eq (stream_eq (arrivals_eq h hbefore hbefore' hlength))

/-! ### The output -/

theorem arrivals_call (before : List Action) (c : Call) :
    arrivals (before ++ [.call c]) = arrivals before ++ [c.step] := by
  rw [arrivals, List.filterMap_append]
  rfl

theorem Call.step_injective {c c' : Call} (h : c.step = c'.step) : c = c' := by
  cases c <;> cases c' <;> simp_all [Call.step]

/-- Streams that are given the same are given the same next, if it is the turn of a call in both. -/
theorem call_eq {c c' : Call} (h : arrivals actions = arrivals actions')
    (hcall : before ++ [.call c] <+: actions) (hcall' : before' ++ [.call c'] <+: actions')
    (hlength : (arrivals before).length = (arrivals before').length) : c = c' := by
  have hlength' : (arrivals (before ++ [.call c])).length
      = (arrivals (before' ++ [.call c'])).length := by
    rw [arrivals_call, arrivals_call, List.length_append, List.length_append, hlength]
    rfl
  have hsame := arrivals_eq h hcall hcall' hlength'
  rw [arrivals_call, arrivals_call] at hsame
  obtain ⟨-, hstep⟩ := List.append_inj hsame hlength
  exact Call.step_injective (List.singleton_inj.mp hstep)

/-- A call does not know how its settings have come about. -/
theorem step_eq_outputUnder (before : List Action) (c : Call) :
    let here := ((start objects settings).run before).2
    (here.step (.call c)).1 = outputUnder here.inForce (arrivals before) c := by
  intro here
  have hstart : (start objects settings).Settled := rfl
  have hsettled : here.Settled := settled_run hstart before
  have hstream : (Converter.run { settings := here.inForce } (arrivals before)).2
      = ⟨here.inForce, here.stream⟩ := stream_run (start objects settings) before here.inForce
  show (here.converter.step c.step).1 = _
  rw [outputUnder, hstream, converter_of_settled hsettled]

theorem getElem?_run (objects : Objects) (settings : SettingsRef) {c : Call}
    (hcall : before ++ [.call c] <+: actions) :
    ((start objects settings).run actions).1[before.length]?
      = some (outputUnder ((start objects settings).run before).2.inForce (arrivals before) c) := by
  obtain ⟨after, rfl⟩ := hcall
  rw [List.append_assoc, List.singleton_append, run_getElem?]
  exact congrArg some (step_eq_outputUnder before c)

/--
**Settings do not interfere with the stream.**  Take two sessions whose streams are given the same,
under settings and with changes of settings that have nothing to do with each other.  Whenever the
streams have come equally far, the buffers, what is pending and the styles are the same.  A call
puts out what it would under its settings if they had been in force from the beginning; so where
the same settings are in force in both sessions, the outputs are the same.
-/
theorem run_undisturbed (objects objects' : Objects) (settings settings' : SettingsRef)
    (h : arrivals actions = arrivals actions') :
    let run := (start objects settings).run
    let run' := (start objects' settings').run
    (∀ before before', before <+: actions → before' <+: actions' →
      (arrivals before).length = (arrivals before').length →
      Alongside (run before).2 (run' before').2) ∧
    (∀ before c, before ++ [.call c] <+: actions →
      (run actions).1[before.length]?
        = some (outputUnder (run before).2.inForce (arrivals before) c)) ∧
    ∀ before before' c c', before ++ [.call c] <+: actions → before' ++ [.call c'] <+: actions' →
      (arrivals before).length = (arrivals before').length →
      c = c' ∧
      ((run before).2.inForce = (run' before').2.inForce →
        (run actions).1[before.length]? = (run' actions').1[before'.length]?) := by
  intro run run'
  refine ⟨?_, ?_, ?_⟩
  · intro before before' hbefore hbefore' hlength
    exact alongside_run h hbefore hbefore' hlength
  · intro before c hcall
    exact getElem?_run objects settings hcall
  · intro before before' c c' hcall hcall' hlength
    have hc : c = c' := call_eq h hcall hcall' hlength
    refine ⟨hc, fun hinForce => ?_⟩
    have hfront : before <+: actions := (List.prefix_append before [.call c]).trans hcall
    have hfront' : before' <+: actions' := (List.prefix_append before' [.call c']).trans hcall'
    have hout := getElem?_run objects settings hcall
    have hout' := getElem?_run objects' settings' hcall'
    rw [← hc, ← arrivals_eq h hfront hfront' hlength, ← hinForce] at hout'
    exact hout.trans hout'.symm

/-- One session leaves its settings alone.  The other starts with other settings, replaces them in
the middle of a sequence, and changes them again before the end. -/
theorem run_undisturbed_mid_sequence :
    let held : Held := ⟨true, false, ⟨0⟩, ['b'], ['f'], ['i'], ['u']⟩
    let objects : Objects := ⟨fun _ => held, fun _ => .web⟩
    let objects' : Objects := objects.writeSettings ⟨7⟩ { held with useClasses := true }
    let actions : List Action :=
      [.call (.convert [esc, '[', '1']), .call (.convert ['m', '<']), .call .finish]
    let changes : List Action :=
      [.changeSettings ⟨1⟩ { held with escapeHtml := false }, .replace ⟨1⟩,
        .changeList ⟨0⟩ (.ofSchemes [])]
    let actions' : List Action :=
      [.call (.convert [esc, '[', '1'])] ++ changes ++
        [.call (.convert ['m', '<']), .replace ⟨2⟩, .call .finish]
    arrivals actions = arrivals actions' ∧
      Alongside ((start objects ⟨0⟩).run (actions.take 1)).2
        ((start objects' ⟨7⟩).run (actions'.take 4)).2 ∧
      Alongside ((start objects ⟨0⟩).run (actions.take 2)).2
        ((start objects' ⟨7⟩).run (actions'.take 5)).2 := by
  intro held objects objects' actions changes actions'
  have harrivals : arrivals actions = arrivals actions' := rfl
  obtain ⟨halongside, -, -⟩ := run_undisturbed objects objects' ⟨0⟩ ⟨7⟩ harrivals
  exact ⟨harrivals, halongside _ _ (List.take_prefix ..) (List.take_prefix ..) rfl,
    halongside _ _ (List.take_prefix ..) (List.take_prefix ..) rfl⟩

end Session

end TerminalMarkup
