import ApiContract.Issue

/-!
What a run reports on its way. `Traced α` is an outcome together with the entries written before it
was reached; running one step after another joins their entries in order and stops at the first
issue. `Traced.stage` brackets a step: one entry opens it, one closes it, whatever its outcome.
-/

namespace ApiContract

/-- The severity of an entry; a higher rank is more severe. -/
structure Level where
  rank : Int
deriving Repr, DecidableEq

namespace Level

def debug : Level := ⟨10⟩
def info : Level := ⟨20⟩
def warning : Level := ⟨30⟩
def error : Level := ⟨40⟩
def critical : Level := ⟨50⟩

def name (l : Level) : String :=
  if l = debug then "DEBUG"
  else if l = info then "INFO"
  else if l = warning then "WARNING"
  else if l = error then "ERROR"
  else if l = critical then "CRITICAL"
  else if l.rank = 0 then "NOTSET"
  else s!"Level {l.rank}"

end Level

/-- What an entry says: a text, or that a stage begins or ends. -/
inductive Note where
  | text (s : String)
  | opening (stage : String)
  | closing (stage : String) (succeeded : Bool)
deriving Repr, DecidableEq

structure Entry where
  level : Level
  stage : Option String
  note : Note
deriving Repr, DecidableEq

/-- The text of a note; the end of a stage tells how long the stage took. -/
def Note.message (elapsed : String) : Note → String
  | .text s => s
  | .opening stage => stage ++ " ..."
  | .closing stage true => s!"{stage} done ({elapsed})"
  | .closing stage false => s!"{stage} failed ({elapsed})"

/-- How time is written on a line: the time of day and the length of a stage. -/
structure Stamp where
  clock : String
  elapsed : String
deriving Repr, DecidableEq

namespace Entry

def opening (stage : String) : Entry := ⟨.debug, some stage, .opening stage⟩

def closing (stage : String) (succeeded : Bool) : Entry :=
  ⟨if succeeded then .debug else .error, some stage, .closing stage succeeded⟩

def padRight (width : Nat) (s : String) : String :=
  s ++ String.ofList (List.replicate (width - s.length) ' ')

/-- One line: the time, the level in a column of seven, the stage unless its name is empty, and the
message. -/
def line (stamp : Stamp) (e : Entry) : String :=
  let level := padRight 7 (String.ofList (e.level.name.toList.map Char.toLower))
  let tag :=
    match e.stage with
    | some stage => if stage.isEmpty then "" else s!" [{stage}]"
    | none => ""
  s!"{stamp.clock} {level}{tag} {e.note.message stamp.elapsed}\n"

end Entry

structure Traced (α : Type) where
  entries : List Entry
  outcome : Except Issue α

namespace Traced

variable {α β : Type}

def pure (a : α) : Traced α := ⟨[], .ok a⟩

def bind (x : Traced α) (f : α → Traced β) : Traced β :=
  match x.outcome with
  | .ok a => let y := f a; ⟨x.entries ++ y.entries, y.outcome⟩
  | .error i => ⟨x.entries, .error i⟩

instance : Monad Traced where
  pure := Traced.pure
  bind := Traced.bind

def log (level : Level) (text : String) : Traced Unit := ⟨[⟨level, none, .text text⟩], .ok ()⟩

def fail (i : Issue) : Traced α := ⟨[], .error i⟩

def ofExcept (x : Except Issue α) : Traced α := ⟨[], x⟩

def stage (name : String) (x : Traced α) : Traced α :=
  ⟨.opening name :: (x.entries ++ [.closing name x.outcome.isOk]), x.outcome⟩

@[simp] theorem outcome_pure (a : α) : (Pure.pure a : Traced α).outcome = .ok a := rfl

@[simp] theorem entries_pure (a : α) : (Pure.pure a : Traced α).entries = [] := rfl

@[simp] theorem outcome_bind (x : Traced α) (f : α → Traced β) :
    (x >>= f).outcome = x.outcome >>= fun a => (f a).outcome := by
  simp only [Bind.bind, Traced.bind]
  cases x.outcome <;> rfl

@[simp] theorem outcome_fail (i : Issue) : (fail i : Traced α).outcome = .error i := rfl

@[simp] theorem outcome_ofExcept (x : Except Issue α) : (ofExcept x).outcome = x := rfl

@[simp] theorem outcome_stage (name : String) (x : Traced α) :
    (stage name x).outcome = x.outcome := rfl

end Traced

end ApiContract
