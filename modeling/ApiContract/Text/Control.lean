/-!
Control sequences, by which a text steers a terminal: escape and an opening bracket, then
parameters, then intermediate characters, then a final one.
-/

namespace ApiContract.Text

def isBetween (low high : Nat) (c : Char) : Bool := low ≤ c.toNat && c.toNat ≤ high

def isParameter (c : Char) : Bool := isBetween 0x30 0x3F c

def isIntermediate (c : Char) : Bool := isBetween 0x20 0x2F c

def isFinal (c : Char) : Bool := isBetween 0x40 0x7E c

/-- How long the control sequence at the start of a text is. -/
def controlLength? : List Char → Option Nat
  | '\x1b' :: '[' :: cs =>
    let parameters := cs.takeWhile isParameter
    let more := cs.drop parameters.length
    let intermediates := more.takeWhile isIntermediate
    match more.drop intermediates.length with
    | c :: _ =>
      if isFinal c then some (parameters.length + intermediates.length + 3) else none
    | [] => none
  | _ => none

/-- Leave out `skip` characters, and then every control sequence. -/
def dropControlsFrom (skip : Nat) : List Char → List Char
  | [] => []
  | c :: cs =>
    match skip with
    | n + 1 => dropControlsFrom n cs
    | 0 =>
      match controlLength? (c :: cs) with
      | some n => dropControlsFrom (n - 1) cs
      | none => c :: dropControlsFrom 0 cs

def dropControls (s : String) : String := String.ofList (dropControlsFrom 0 s.toList)

end ApiContract.Text
