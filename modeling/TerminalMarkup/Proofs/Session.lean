/-
What happens to a session before a call.

Three facts about one action carry everything here.  The renderer refers to the settings
that the converter refers to (`settled_step`), so a session does what a converter does
that is told its settings whenever they change (`run_told`).  The stream takes no notice
of settings (`stream_step`).  And a change of an object that is not in force when a call
is made might as well not have been made (`agree_elsewhere`), however many actions came
between it and the call.
-/
import TerminalMarkup.Proofs.Converter.Packets
import TerminalMarkup.Session

namespace TerminalMarkup

namespace Session

/-! ### Runs -/

theorem run_cons (s : Session) (a : Action) (rest : List Action) :
    s.run (a :: rest) = ((s.step a).1 :: ((s.step a).2.run rest).1, ((s.step a).2.run rest).2) :=
  rfl

/-- The output of an action is that of the session which the actions before it have left. -/
theorem run_getElem? (s : Session) (before after : List Action) (a : Action) :
    (s.run (before ++ a :: after)).1[before.length]? = some ((s.run before).2.step a).1 := by
  induction before generalizing s with
  | nil => rfl
  | cons first before ih =>
      rw [List.cons_append, run_cons, run_cons, List.length_cons, List.getElem?_cons_succ, ih]

/-! ### The references -/

/-- The renderer refers to the settings that the converter refers to. -/
def Settled (s : Session) : Prop := s.rendererSettings = s.settings

theorem settled_step {s : Session} (h : s.Settled) (a : Action) : (s.step a).2.Settled := by
  cases a with
  | call c => exact h
  | reset => exact h
  | changeSettings ref held => exact h
  | changeList ref list => exact h
  | replace ref => rfl

theorem settled_run {s : Session} (h : s.Settled) (actions : List Action) :
    (s.run actions).2.Settled := by
  induction actions generalizing s with
  | nil => exact h
  | cons a rest ih => exact ih (settled_step h a)

theorem converter_of_settled {s : Session} (h : s.Settled) :
    s.converter = ⟨s.inForce, s.stream⟩ := by
  rw [converter, inForce, h]

/-! ### The stream -/

/-- What an action is to the stream, if it is anything to it. -/
def Action.arrival? (a : Action) : Option Converter.Step :=
  match a with
  | .call c => some c.step
  | .reset => some .reset
  | _ => none

/-- The stream does what it would do under any settings. -/
theorem stream_step (s : Session) (a : Action) (settings : Settings) :
    (Converter.run ⟨settings, s.stream⟩ a.arrival?.toList).2 = ⟨settings, (s.step a).2.stream⟩ := by
  cases a with
  | call c => cases c <;> rfl
  | reset => rfl
  | changeSettings ref held => rfl
  | changeList ref list => rfl
  | replace ref => rfl

theorem stream_run (s : Session) (actions : List Action) (settings : Settings) :
    (Converter.run ⟨settings, s.stream⟩ (actions.filterMap Action.arrival?)).2
      = ⟨settings, (s.run actions).2.stream⟩ := by
  induction actions generalizing s with
  | nil => rfl
  | cons a rest ih =>
      have hsplit : (a :: rest).filterMap Action.arrival?
          = a.arrival?.toList ++ rest.filterMap Action.arrival? := by
        cases h : a.arrival? with
        | none => rw [List.filterMap_cons_none h, Option.toList_none, List.nil_append]
        | some step => rw [List.filterMap_cons_some h, Option.toList_some, List.singleton_append]
      rw [hsplit, Converter.run_append, stream_step]
      exact ih (s.step a).2

/-! ### What is in force -/

/-- The object of settings that an action puts in force. -/
def Action.replacement? (a : Action) : Option SettingsRef :=
  match a with
  | .replace ref => some ref
  | _ => none

/-- The settings in force are those that were put in force last. -/
theorem settings_run (s : Session) (actions : List Action) :
    (s.run actions).2.settings
      = (actions.filterMap Action.replacement?).getLastD s.settings := by
  induction actions generalizing s with
  | nil => rfl
  | cons a rest ih =>
      rw [run_cons, ih]
      cases a with
      | call c => rfl
      | reset => rfl
      | changeSettings ref held => rfl
      | changeList ref list => rfl
      | replace ref => exact (List.getLastD_cons ..).symm

/-- Whether an action changes an object other than the settings in force here and their list. -/
def Action.isElsewhere (here : Session) : Action → Bool
  | .changeSettings ref _ => decide (ref ≠ here.settings)
  | .changeList ref _ => decide (ref ≠ (here.objects.settings here.settings).allowList)
  | _ => false

/-- Two sessions differ at most in objects that are not in force here. -/
structure Agree (here s s' : Session) : Prop where
  settings : s.settings = s'.settings
  renderer : s.rendererSettings = s'.rendererSettings
  held : s.objects.settings here.settings = s'.objects.settings here.settings
  list : s.objects.lists (here.objects.settings here.settings).allowList
    = s'.objects.lists (here.objects.settings here.settings).allowList
  stream : s.stream = s'.stream

/-- Doing the same in both keeps the agreement. -/
theorem agree_step {here s s' : Session} (h : Agree here s s') (a : Action) :
    Agree here (s.step a).2 (s'.step a).2 := by
  obtain ⟨hsettings, hrenderer, hheld, hlist, hstream⟩ := h
  cases a with
  | call c =>
      refine ⟨hsettings, hrenderer, hheld, hlist, ?_⟩
      cases c with
      | convert chunk => exact congrArg (fun t : Stream => (t.convert chunk).2) hstream
      | finish => exact congrArg (fun t : Stream => t.finish.2) hstream
  | reset => exact ⟨hsettings, hrenderer, hheld, hlist, rfl⟩
  | changeSettings ref held =>
      refine ⟨hsettings, hrenderer, ?_, hlist, hstream⟩
      exact congrArg (fun old => if here.settings = ref then held else old) hheld
  | changeList ref list =>
      refine ⟨hsettings, hrenderer, hheld, ?_, hstream⟩
      exact congrArg (fun old =>
        if (here.objects.settings here.settings).allowList = ref then list else old) hlist
  | replace ref => exact ⟨rfl, rfl, hheld, hlist, hstream⟩

/-- A change elsewhere may be made in one of them only. -/
theorem agree_elsewhere {here s s' : Session} (h : Agree here s s') {a : Action}
    (ha : a.isElsewhere here = true) : Agree here (s.step a).2 s' := by
  obtain ⟨hsettings, hrenderer, hheld, hlist, hstream⟩ := h
  cases a with
  | call c => cases ha
  | reset => cases ha
  | replace ref => cases ha
  | changeSettings ref held =>
      have hne : ref ≠ here.settings := of_decide_eq_true ha
      refine ⟨hsettings, hrenderer, ?_, hlist, hstream⟩
      exact (if_neg hne.symm).trans hheld
  | changeList ref list =>
      have hne : ref ≠ (here.objects.settings here.settings).allowList := of_decide_eq_true ha
      refine ⟨hsettings, hrenderer, hheld, ?_, hstream⟩
      exact (if_neg hne.symm).trans hlist

/-- The changes that are made elsewhere may all be left out. -/
theorem agree_run {here s s' : Session} (h : Agree here s s') (actions : List Action) :
    Agree here (s.run actions).2
      (s'.run (actions.filter fun a => !a.isElsewhere here)).2 := by
  induction actions generalizing s s' with
  | nil => exact h
  | cons a rest ih =>
      -- A change elsewhere is made on the left only; anything else on both sides.
      by_cases ha : a.isElsewhere here = true
      · rw [List.filter_cons_of_neg (by simp [ha])]
        exact ih (agree_elsewhere h ha)
      · rw [List.filter_cons_of_pos (by simp [ha])]
        exact ih (agree_step h a)

/-- What is in force is read through one reference to settings and one to a list. -/
theorem converter_of_agree {here s' : Session} (h : Agree here here s') (hsettled : here.Settled) :
    s'.converter = here.converter := by
  have hread : here.objects.read here.settings = s'.objects.read here.settings := by
    unfold Objects.read
    dsimp only
    rw [← h.held, h.list]
  rw [converter, converter, ← h.renderer, ← h.stream, hsettled, hread]

/-! ### Sessions and converters -/

/-- What an action is to a converter that is told its settings: a change of objects comes down to
the settings that are in force after it. -/
def Action.told (a : Action) (after : Session) : Converter.Step :=
  match a with
  | .call c => c.step
  | .reset => .reset
  | _ => .replace after.inForce

/-- The steps of such a converter in a session. -/
def told (s : Session) : List Action → List Converter.Step
  | [] => []
  | a :: rest => a.told (s.step a).2 :: told (s.step a).2 rest

theorem step_told {s : Session} (h : s.Settled) (a : Action) :
    (⟨s.inForce, s.stream⟩ : Converter).step (a.told (s.step a).2)
      = ((s.step a).1, ⟨(s.step a).2.inForce, (s.step a).2.stream⟩) := by
  have hsettings : s.inForce = s.converter.settings :=
    congrArg Converter.settings (converter_of_settled h).symm
  rw [← converter_of_settled h]
  cases a with
  | call c =>
      refine Prod.ext rfl ?_
      show (s.converter.step c.step).2 = ⟨s.inForce, (s.converter.step c.step).2.stream⟩
      rw [hsettings]
      cases c <;> rfl
  | reset =>
      refine Prod.ext rfl ?_
      show (s.converter.step .reset).2 = ⟨s.inForce, {}⟩
      rw [hsettings]
      rfl
  | changeSettings ref held => rfl
  | changeList ref list => rfl
  | replace ref => rfl

/-- A session has the outputs of a converter that is told its settings. -/
theorem run_told {s : Session} (h : s.Settled) (actions : List Action) :
    (s.run actions).1 = (Converter.run ⟨s.inForce, s.stream⟩ (s.told actions)).1 := by
  induction actions generalizing s with
  | nil => rfl
  | cons a rest ih =>
      rw [run_cons, told, Converter.run_cons, step_told h]
      exact congrArg _ (ih (settled_step h a))

end Session

end TerminalMarkup
