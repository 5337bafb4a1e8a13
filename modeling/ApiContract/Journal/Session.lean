import ApiContract.Journal

/-!
A logger over time, and what its own handlers write. It starts without a level and without a handler
of its own: what is shown of warnings and errors before a setup comes from a handler of last resort
and is left out here. Each setup chooses the level anew but adds a handler only if there is none.
Steps nest: a stage runs its steps up to the first failure, closes itself, and hands the failure on.
-/

namespace ApiContract.Journal

structure Logger where
  level : Int
  handlers : Nat
  propagates : Bool
deriving Repr, DecidableEq

namespace Logger

/-- Before a setup there is no handler of its own, and what it is given is handed on. -/
def fresh : Logger := ⟨0, 0, true⟩

def setup (verbose : Bool) (l : Logger) : Logger :=
  ⟨if verbose then Level.debug.rank else Level.warning.rank, max 1 l.handlers, false⟩

/-- What the handlers of the logger write when `e` is logged, one entry for each of them. -/
def written (l : Logger) (e : Entry) : List Entry :=
  if l.level ≤ e.level.rank then List.replicate l.handlers e else []

end Logger

/-- How a stage is left early. Only an error is reported by the stages it passes through. -/
inductive Failure where
  | error
  | exit
deriving Repr, DecidableEq

/-- A step of a session. A failure may be raised anywhere, and that of a stage is raised behind its
inner steps. -/
inductive Step where
  | setup (verbose : Bool)
  | log (entry : Entry)
  | raise (failure : Failure)
  | stage (name : String) (inner : List Step) (failure : Option Failure)
deriving Repr, Inhabited

structure Outcome where
  logger : Logger
  written : List Entry
  failure : Option Failure
deriving Repr, DecidableEq

/-- The entry that closes a stage, if there is one. -/
def closing? (name : String) : Option Failure → Option Entry
  | none => some (.closing name true)
  | some .error => some (.closing name false)
  | some .exit => none

mutual

def Step.run (l : Logger) : Step → Outcome
  | .setup verbose => ⟨l.setup verbose, [], none⟩
  | .log entry => ⟨l, l.written entry, none⟩
  | .raise failure => ⟨l, [], some failure⟩
  | .stage name inner failure =>
    let body := runAll l inner
    let failure := body.failure <|> failure
    let last := ((closing? name failure).map body.logger.written).getD []
    ⟨body.logger, l.written (.opening name) ++ body.written ++ last, failure⟩

/-- Run steps in order, up to the first that fails. -/
def runAll (l : Logger) : List Step → Outcome
  | [] => ⟨l, [], none⟩
  | s :: ss =>
    let first := s.run l
    match first.failure with
    | some f => ⟨first.logger, first.written, some f⟩
    | none =>
      let rest := runAll first.logger ss
      ⟨rest.logger, first.written ++ rest.written, rest.failure⟩

end

end ApiContract.Journal
