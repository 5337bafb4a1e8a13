import ApiContract.Journal.Session
import Mathlib.Tactic.Common
import Mathlib.Order.Lattice

/-!
What a session logs. Stages bracket what is logged inside them: one record opens a stage, and one
closes it after everything inside, unless an exit went through it; a failure closes the stages
around it from the inside out, and nothing is run behind it. After a setup there is one handler,
whatever was set up before, so a record is written once if it is severe enough and else not at all.
-/

namespace ApiContract.Journal

/-- What a session does to the logger, in order. -/
inductive Event where
  | setup (verbose : Bool)
  | record (e : Entry)

/-- Steps are run depth first, up to the first failure. A stage that is completed is closed as done
and the steps behind it are run; one that an error leaves is closed as failed, one that an exit
leaves is not closed, and either way the failure goes on. -/
inductive Runs : List Step → List Event → Option Failure → Prop
  | done : Runs [] [] none
  | setup {verbose : Bool} {rest : List Step} {es : List Event} {f : Option Failure} :
      Runs rest es f → Runs (.setup verbose :: rest) (.setup verbose :: es) f
  | log {e : Entry} {rest : List Step} {es : List Event} {f : Option Failure} :
      Runs rest es f → Runs (.log e :: rest) (.record e :: es) f
  | raise {f : Failure} {rest : List Step} : Runs (.raise f :: rest) [] (some f)
  | completes {name : String} {inner rest : List Step} {es es' : List Event}
      {f : Option Failure} : Runs inner es none → Runs rest es' f →
      Runs (.stage name inner none :: rest)
        (.record (.opening name) :: (es ++ .record (.closing name true) :: es')) f
  | fails {name : String} {inner rest : List Step} {es : List Event} {f own : Option Failure} :
      Runs inner es f → (f <|> own) = some .error →
      Runs (.stage name inner own :: rest)
        (.record (.opening name) :: (es ++ [.record (.closing name false)])) (some .error)
  | exits {name : String} {inner rest : List Step} {es : List Event} {f own : Option Failure} :
      Runs inner es f → (f <|> own) = some .exit →
      Runs (.stage name inner own :: rest) (.record (.opening name) :: es) (some .exit)

/-! ## Loggers and events -/

namespace Logger

/-- The logger after an event. -/
def after (l : Logger) : Event → Logger
  | .setup verbose => l.setup verbose
  | .record _ => l

def afterAll (l : Logger) (es : List Event) : Logger := es.foldl after l

/-- The entries that the handlers of the logger write while events take place. -/
def writes (l : Logger) : List Event → List Entry
  | [] => []
  | .setup verbose :: es => (l.setup verbose).writes es
  | .record e :: es => l.written e ++ l.writes es

theorem afterAll_append (l : Logger) (es es' : List Event) :
    l.afterAll (es ++ es') = (l.afterAll es).afterAll es' := List.foldl_append

theorem writes_append (l : Logger) (es es' : List Event) :
    l.writes (es ++ es') = l.writes es ++ (l.afterAll es).writes es' := by
  induction es generalizing l with
  | nil => rfl
  | cons event es ih =>
    cases event with
    | setup verbose => exact ih _
    | record e => rw [List.cons_append, writes, writes, ih, List.append_assoc]; rfl

end Logger

/-! ## Runs of steps -/

theorem runAll_cons_ok {l : Logger} {s : Step} {rest : List Step} (h : (s.run l).failure = none) :
    runAll l (s :: rest) = ⟨(runAll (s.run l).logger rest).logger,
      (s.run l).written ++ (runAll (s.run l).logger rest).written,
      (runAll (s.run l).logger rest).failure⟩ := by
  rw [runAll, h]

theorem runAll_cons_failed {l : Logger} {s : Step} {rest : List Step} {f : Failure}
    (h : (s.run l).failure = some f) :
    runAll l (s :: rest) = ⟨(s.run l).logger, (s.run l).written, some f⟩ := by
  rw [runAll, h]

/-- A run writes what its events make the logger write. -/
theorem Runs.runAll_eq {steps : List Step} {es : List Event} {f : Option Failure}
    (h : Runs steps es f) (l : Logger) : runAll l steps = ⟨l.afterAll es, l.writes es, f⟩ := by
  induction h generalizing l with
  | done => rfl
  | setup _ ih => rw [runAll_cons_ok rfl, Step.run, ih]; rfl
  | log _ ih => rw [runAll_cons_ok rfl, Step.run, ih]; rfl
  | raise => rw [runAll_cons_failed rfl]; rfl
  | @completes name inner rest es es' f _ _ ihInner ihRest =>
    have hstage : (Step.stage name inner none).run l =
        ⟨l.afterAll es, l.written (.opening name) ++ l.writes es ++
          (l.afterAll es).written (.closing name true), none⟩ := by
      rw [Step.run, ihInner]
      rfl
    rw [runAll_cons_ok (by rw [hstage]), hstage, ihRest]
    simp [Logger.afterAll, Logger.writes, Logger.writes_append, Logger.after]
  | @fails name inner rest es f own _ hfailure ih =>
    have hstage : (Step.stage name inner own).run l =
        ⟨l.afterAll es, l.written (.opening name) ++ l.writes es ++
          (l.afterAll es).written (.closing name false), some .error⟩ := by
      rw [Step.run, ih]
      simp only [hfailure]
      rfl
    rw [runAll_cons_failed (by rw [hstage]), hstage]
    simp [Logger.afterAll, Logger.writes, Logger.writes_append, Logger.after]
  | @exits name inner rest es f own _ hfailure ih =>
    -- An exit is not reported: the stage writes nothing behind its steps.
    have hstage : (Step.stage name inner own).run l =
        ⟨l.afterAll es, l.written (.opening name) ++ l.writes es, some .exit⟩ := by
      rw [Step.run, ih]
      simp only [hfailure]
      simp [closing?]
    rw [runAll_cons_failed (by rw [hstage]), hstage]
    rfl

mutual

/-- Every step can be run before steps that can be run. -/
theorem Step.exists_runs : ∀ (s : Step) {rest : List Step} {es : List Event} {f : Option Failure},
    Runs rest es f → ∃ es' f', Runs (s :: rest) es' f'
  | .setup verbose, _, _, _, h => ⟨_, _, .setup h⟩
  | .log e, _, _, _, h => ⟨_, _, .log h⟩
  | .raise f, _, _, _, _ => ⟨_, _, .raise⟩
  | .stage name inner own, _, _, _, h => by
    obtain ⟨es, f, hinner⟩ := exists_runs inner
    cases hfailure : (f <|> own) with
    | none =>
      obtain ⟨rfl, rfl⟩ : f = none ∧ own = none := by
        cases f <;> cases own <;> simp_all
      exact ⟨_, _, .completes hinner h⟩
    | some failure =>
      cases failure with
      | error => exact ⟨_, _, .fails hinner hfailure⟩
      | exit => exact ⟨_, _, .exits hinner hfailure⟩

theorem exists_runs : ∀ steps : List Step, ∃ es f, Runs steps es f
  | [] => ⟨_, _, .done⟩
  | s :: rest => by
    obtain ⟨es, f, hrest⟩ := exists_runs rest
    exact s.exists_runs hrest

end

/-- There is one way to run steps. -/
theorem Runs.unique {steps : List Step} {es es' : List Event} {f f' : Option Failure}
    (h : Runs steps es f) (h' : Runs steps es' f') : es = es' ∧ f = f' := by
  induction h generalizing es' f' with
  | done => cases h'; exact ⟨rfl, rfl⟩
  | setup _ ih =>
    cases h' with
    | setup hrest =>
      obtain ⟨rfl, rfl⟩ := ih hrest
      exact ⟨rfl, rfl⟩
  | log _ ih =>
    cases h' with
    | log hrest =>
      obtain ⟨rfl, rfl⟩ := ih hrest
      exact ⟨rfl, rfl⟩
  | raise => cases h'; exact ⟨rfl, rfl⟩
  | completes _ _ ihInner ihRest =>
    cases h' with
    | completes hinner hrest =>
      obtain ⟨rfl, _⟩ := ihInner hinner
      obtain ⟨rfl, rfl⟩ := ihRest hrest
      exact ⟨rfl, rfl⟩
    | fails hinner hfailure =>
      obtain ⟨_, rfl⟩ := ihInner hinner
      cases hfailure
    | exits hinner hfailure =>
      obtain ⟨_, rfl⟩ := ihInner hinner
      cases hfailure
  | fails _ hfailure ih =>
    cases h' with
    | completes hinner _ =>
      obtain ⟨_, rfl⟩ := ih hinner
      cases hfailure
    | fails hinner _ =>
      obtain ⟨rfl, _⟩ := ih hinner
      exact ⟨rfl, rfl⟩
    | exits hinner hexit =>
      obtain ⟨_, rfl⟩ := ih hinner
      rw [hfailure] at hexit
      cases hexit
  | exits _ hfailure ih =>
    cases h' with
    | completes hinner _ =>
      obtain ⟨_, rfl⟩ := ih hinner
      cases hfailure
    | fails hinner herror =>
      obtain ⟨_, rfl⟩ := ih hinner
      rw [hfailure] at herror
      cases herror
    | exits hinner _ =>
      obtain ⟨rfl, _⟩ := ih hinner
      exact ⟨rfl, rfl⟩

/-! ## Behind a setup -/

/-- The logger behind a setup: there is one handler, whatever was set up before. -/
def settled (verbose : Bool) : Logger :=
  ⟨if verbose then Level.debug.rank else Level.warning.rank, 1, false⟩

/-- Setups are the only events that add a handler, and they add none to one. -/
theorem Logger.afterAll_handlers_le (l : Logger) (h : l.handlers ≤ 1) (es : List Event) :
    (l.afterAll es).handlers ≤ 1 := by
  induction es generalizing l with
  | nil => exact h
  | cons event es ih =>
    apply ih
    cases event with
    | setup verbose => exact max_le le_rfl h
    | record e => exact h

theorem Logger.setup_eq_settled (l : Logger) (h : l.handlers ≤ 1) (verbose : Bool) :
    l.setup verbose = settled verbose := by
  rw [setup, settled, max_eq_left h]

theorem Logger.afterAll_records (l : Logger) (entries : List Entry) :
    l.afterAll (entries.map .record) = l := by
  induction entries with
  | nil => rfl
  | cons e entries ih => exact ih

/-- One handler writes what is severe enough, once each and in order. -/
theorem settled_writes_records (verbose : Bool) (entries : List Entry) :
    (settled verbose).writes (entries.map .record) =
      entries.filter fun e => (settled verbose).level ≤ e.level.rank := by
  induction entries with
  | nil => rfl
  | cons e entries ih =>
    rw [List.map_cons, Logger.writes, ih, List.filter_cons, Logger.written]
    by_cases h : (settled verbose).level ≤ e.level.rank
    · rw [if_pos h, if_pos (decide_eq_true h)]
      rfl
    · rw [if_neg h, if_neg (fun hp => h (of_decide_eq_true hp))]
      rfl

/-- What was set up and written before a setup makes no difference to what is written behind it. -/
theorem writes_behind_setup {l : Logger} (h : l.handlers ≤ 1) (before : List Event)
    (verbose : Bool) (entries : List Entry) (behind : List Event) :
    l.afterAll (before ++ .setup verbose :: entries.map .record) = settled verbose ∧
    l.writes (before ++ .setup verbose :: (entries.map .record ++ behind)) =
      l.writes before ++
        (entries.filter fun e => (settled verbose).level ≤ e.level.rank) ++
        (settled verbose).writes behind := by
  have hsetup : ((l.afterAll before).setup verbose) = settled verbose :=
    Logger.setup_eq_settled _ (l.afterAll_handlers_le h before) verbose
  constructor
  · rw [Logger.afterAll_append]
    exact (congrArg (Logger.afterAll · (entries.map .record)) hsetup).trans
      (Logger.afterAll_records _ _)
  · rw [Logger.writes_append, Logger.writes, hsetup, Logger.writes_append,
      Logger.afterAll_records, settled_writes_records, List.append_assoc]

/-- A stage whose inner stage is left by an error, set up twice and logged to on its way. -/
def leftEarly : List Step :=
  [.setup false, .stage "a" [.log ⟨.info, none, .text "x"⟩, .setup true,
    .stage "b" [.log ⟨.info, none, .text "y"⟩, .raise .error, .log ⟨.error, none, .text "z"⟩] none,
    .log ⟨.error, none, .text "w"⟩] none, .setup true]

end ApiContract.Journal
